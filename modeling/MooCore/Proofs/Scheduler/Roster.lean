import MooCore.Proofs.Background.Errands
import MooCore.Proofs.Named
import MooCore.Scheduler.State
/-!
# The roster

A roster compares the table of tasks with the tasks whose turn is to come and with the errands. A
task that is not being stepped has its body, and it has one turn or is on one errand.
-/

set_option autoImplicit false
namespace MooCore

namespace Scheduler
open Background

def handlesOf (abroad : List Errand) (id : TaskId) : List Handle :=
  (abroad.filter (·.1 = id)).map Prod.snd

/-- A task has its body, and has one turn or is on one errand, the one that it waits for. -/
structure Stands (calls : List TaskId) (abroad : List Errand) (id : TaskId) (t : Task) : Prop where
  body : t.body.isSome = true
  away : (handlesOf abroad id).Perm t.waiting.toList
  turn : calls.count id = if t.waiting.isSome then 0 else 1

/-- All tasks stand in order but for one that is free to be stepped. -/
structure Roster (tasks : Named TaskId Task) (last : TaskId) (calls : List TaskId)
    (abroad : List Errand) (free : Option TaskId) : Prop where
  distinct : (tasks.map Prod.fst).Nodup
  known : ∀ id ∈ tasks.map Prod.fst, id ≤ last
  called : ∀ id ∈ calls, id ≤ last
  sent : ∀ x ∈ abroad, x.1 ≤ last
  own : ∀ id, free = some id → id ≤ last ∧ id ∉ calls ∧ ∀ x ∈ abroad, x.1 ≠ id
  stands : ∀ x ∈ tasks, free ≠ some x.1 → Stands calls abroad x.1 x.2
  awake : ∀ x ∈ tasks, free = some x.1 → x.2.waiting = none

variable {tasks : Named TaskId Task} {last id : TaskId} {calls calls' : List TaskId}
  {abroad abroad' : List Errand} {free : Option TaskId} {h : Handle} {t : Task}

theorem handlesOf_cons_self : handlesOf ((id, h) :: abroad) id = h :: handlesOf abroad id := by
  simp [handlesOf]

theorem handlesOf_cons_ne {x : Errand} (ne : x.1 ≠ id) :
    handlesOf (x :: abroad) id = handlesOf abroad id := by
  simp [handlesOf, ne]

theorem handlesOf_eq_nil (none_there : ∀ x ∈ abroad, x.1 ≠ id) : handlesOf abroad id = [] := by
  rw [handlesOf, List.filter_eq_nil_iff.2 (by simpa using none_there), List.map_nil]

namespace Roster

theorem perm (roster : Roster tasks last calls abroad free) (same : calls.Perm calls')
    (same' : abroad.Perm abroad') : Roster tasks last calls' abroad' free where
  distinct := roster.distinct
  known := roster.known
  called := fun id hid => roster.called id (same.symm.subset hid)
  sent := fun x hx => roster.sent x (same'.symm.subset hx)
  own := fun id mine => by
    obtain ⟨le, no_turn, no_errand⟩ := roster.own id mine
    exact ⟨le, fun hid => no_turn (same.symm.subset hid),
      fun x hx => no_errand x (same'.symm.subset hx)⟩
  stands := fun x hx other => by
    obtain ⟨body, away, turn⟩ := roster.stands x hx other
    exact ⟨body, ((same'.symm.filter _).map _).trans away, (same.count_eq _).symm.trans turn⟩
  awake := roster.awake

theorem remove (roster : Roster tasks last calls abroad free) (id : TaskId)
    (fewer : calls' ⊆ calls) (others : ∀ x ≠ id, calls'.count x = calls.count x) :
    Roster (tasks.erase id) last calls' abroad free := by
  have left : ∀ {x}, x ∈ tasks.erase id → x ∈ tasks ∧ x.1 ≠ id := by
    intro x hx
    rw [Named.erase_eq_filter roster.distinct, List.mem_filter] at hx
    exact ⟨hx.1, by simpa using hx.2⟩
  refine ⟨?_, fun n hn => ?_, fun n hn => roster.called n (fewer hn), roster.sent, ?_, ?_, ?_⟩
  · exact roster.distinct.sublist ((List.eraseP_sublist ..).map _)
  · obtain ⟨x, hx, rfl⟩ := List.mem_map.1 hn
    exact roster.known x.1 (List.mem_map_of_mem (left hx).1)
  · intro n mine
    obtain ⟨le, no_turn, no_errand⟩ := roster.own n mine
    exact ⟨le, fun hn => no_turn (fewer hn), no_errand⟩
  · intro x hx other
    obtain ⟨body, away, turn⟩ := roster.stands x (left hx).1 other
    exact ⟨body, away, (others x.1 (left hx).2).trans turn⟩
  · exact fun x hx mine => roster.awake x (left hx).1 mine

theorem leave (roster : Roster tasks last calls abroad (some id))
    (gone : id ∉ tasks.map Prod.fst) : Roster tasks last calls abroad none where
  distinct := roster.distinct
  known := roster.known
  called := roster.called
  sent := roster.sent
  own := nofun
  stands := fun x hx _ => roster.stands x hx fun same =>
    gone (Option.some.inj same ▸ List.mem_map_of_mem hx)
  awake := nofun

/-- A new task gets a turn. -/
theorem join (roster : Roster tasks last calls abroad free) (body : t.body.isSome = true)
    (waiting : t.waiting = none) :
    Roster (tasks.set (last + 1) t) (last + 1) ((last + 1) :: calls) abroad free := by
  have new : ¬last + 1 ≤ last := Nat.not_succ_le_self last
  have unused : last + 1 ∉ tasks.map Prod.fst := fun used => new (roster.known _ used)
  have no_turn : last + 1 ∉ calls := fun used => new (roster.called _ used)
  have no_errand : ∀ x ∈ abroad, x.1 ≠ last + 1 := fun x hx same =>
    new (same ▸ roster.sent x hx)
  have not_free : free ≠ some (last + 1) := fun mine => new (roster.own _ mine).1
  rw [Named.set_of_unused unused]
  refine ⟨?_, fun n hn => ?_, fun n hn => ?_, fun x hx => Nat.le_succ_of_le (roster.sent x hx),
    fun n mine => ?_, fun x hx other => ?_, fun x hx mine => ?_⟩
  · rw [List.map_append, List.map_cons, List.map_nil]
    exact (List.nodup_append_comm.1 (List.nodup_cons.2 ⟨unused, roster.distinct⟩ :))
  · rw [List.map_append, List.mem_append] at hn
    rcases hn with old | new
    · exact Nat.le_succ_of_le (roster.known n old)
    · rw [List.map_cons, List.map_nil, List.mem_singleton] at new
      exact new.le
  · rcases List.mem_cons.1 hn with rfl | hn
    · exact Nat.le_refl _
    · exact Nat.le_succ_of_le (roster.called n hn)
  · obtain ⟨le, no_turn, no_errand⟩ := roster.own n mine
    refine ⟨Nat.le_succ_of_le le, fun hn => ?_, no_errand⟩
    rcases List.mem_cons.1 hn with rfl | hn
    · exact not_free mine
    · exact no_turn hn
  · rcases List.mem_append.1 hx with old | new
    · obtain ⟨body, away, turn⟩ := roster.stands x old other
      have ne : last + 1 ≠ x.1 := fun same => unused (same ▸ List.mem_map_of_mem old)
      exact ⟨body, away, by rw [List.count_cons_of_ne ne]; exact turn⟩
    · cases List.mem_singleton.1 new
      refine ⟨body, ?_, ?_⟩
      · rw [handlesOf_eq_nil no_errand, waiting]
        exact List.Perm.refl _
      · rw [List.count_cons_self, List.count_eq_zero.2 no_turn, waiting]
        rfl
  · rcases List.mem_append.1 hx with old | new
    · exact roster.awake x old mine
    · cases List.mem_singleton.1 new
      exact waiting

/-- A task whose turn it is becomes free. -/
theorem pick (roster : Roster tasks last (id :: calls) abroad none)
    (live : id ∈ tasks.map Prod.fst) : Roster tasks last calls abroad (some id) := by
  obtain ⟨⟨id, t⟩, hx, rfl⟩ := List.mem_map.1 live
  obtain ⟨body, away, turn⟩ := roster.stands _ hx nofun
  have once : t.waiting = none ∧ id ∉ calls := by
    rw [List.count_cons_self] at turn
    cases waiting : t.waiting with
    | none =>
      rw [waiting] at turn
      exact ⟨rfl, List.count_eq_zero.1 (by simpa using turn)⟩
    | some h =>
      rw [waiting] at turn
      simp at turn
  have no_errand : ∀ x ∈ abroad, x.1 ≠ id := by
    rw [once.1] at away
    have none_away := List.map_eq_nil_iff.1 away.eq_nil
    simpa using List.filter_eq_nil_iff.1 none_away
  refine ⟨roster.distinct, roster.known, fun n hn => roster.called n (List.mem_cons_of_mem _ hn),
    roster.sent, ?_, fun x hx' other => ?_, fun x hx' mine => ?_⟩
  · rintro n ⟨⟩
    exact ⟨roster.known _ live, once.2, no_errand⟩
  · obtain ⟨body, away, turn⟩ := roster.stands x hx' nofun
    have ne : id ≠ x.1 := fun same => other (same ▸ rfl)
    rw [List.count_cons_of_ne ne] at turn
    exact ⟨body, away, turn⟩
  · have same : id = x.1 := Option.some.inj mine
    have found := Named.get?_of_mem roster.distinct hx
    rw [same, Named.get?_of_mem roster.distinct (k := x.1) (a := x.2) hx'] at found
    cases found
    exact once.1

theorem skip (roster : Roster tasks last (id :: calls) abroad free)
    (gone : id ∉ tasks.map Prod.fst) : Roster tasks last calls abroad free where
  distinct := roster.distinct
  known := roster.known
  called := fun n hn => roster.called n (List.mem_cons_of_mem _ hn)
  sent := roster.sent
  own := fun n mine => by
    obtain ⟨le, no_turn, no_errand⟩ := roster.own n mine
    exact ⟨le, fun hn => no_turn (List.mem_cons_of_mem _ hn), no_errand⟩
  stands := fun x hx other => by
    obtain ⟨body, away, turn⟩ := roster.stands x hx other
    have ne : id ≠ x.1 := fun same => gone (same ▸ List.mem_map_of_mem hx)
    rw [List.count_cons_of_ne ne] at turn
    exact ⟨body, away, turn⟩
  awake := roster.awake

theorem edit (roster : Roster tasks last calls abroad (some id)) {f : Task → Task}
    (waiting : ∀ t, (f t).waiting = t.waiting) :
    Roster (tasks.update id f) last calls abroad (some id) where
  distinct := by
    rw [Named.update_keys]
    exact roster.distinct
  known := by
    rw [Named.update_keys]
    exact roster.known
  called := roster.called
  sent := roster.sent
  own := roster.own
  stands := fun x hx other => by
    rcases Named.mem_update hx with ⟨hx, -⟩ | ⟨y, -, -, rfl⟩
    · exact roster.stands x hx other
    · exact absurd rfl other
  awake := fun x hx mine => by
    rcases Named.mem_update hx with ⟨hx, -⟩ | ⟨y, hy, same, rfl⟩
    · exact roster.awake x hx mine
    · exact (waiting y.2).trans (roster.awake y hy (congrArg some same.symm))

theorem park (roster : Roster tasks last calls abroad (some id))
    (present : ∀ x ∈ tasks, x.1 = id → x.2.body.isSome = true) (h : Handle) :
    Roster (tasks.update id fun t => { t with waiting := some h }) last calls ((id, h) :: abroad)
      none := by
  obtain ⟨le, no_turn, no_errand⟩ := roster.own id rfl
  refine ⟨?_, ?_, roster.called, fun x hx => ?_, nofun, fun x hx _ => ?_, nofun⟩
  · rw [Named.update_keys]
    exact roster.distinct
  · rw [Named.update_keys]
    exact roster.known
  · rcases List.mem_cons.1 hx with rfl | hx
    · exact le
    · exact roster.sent x hx
  · rcases Named.mem_update hx with ⟨hx, ne⟩ | ⟨y, hy, same, rfl⟩
    · obtain ⟨body, away, turn⟩ := roster.stands x hx fun same =>
        ne (Option.some.inj same).symm
      exact ⟨body, by rw [handlesOf_cons_ne (Ne.symm ne)]; exact away, turn⟩
    · refine ⟨present y hy same, ?_, List.count_eq_zero.2 no_turn⟩
      rw [handlesOf_cons_self, handlesOf_eq_nil no_errand]
      exact List.Perm.refl _

theorem meet (roster : Roster tasks last calls ((id, h) :: abroad) free)
    (live : (id, t) ∈ tasks) : t.waiting = some h ∧ handlesOf abroad id = [] := by
  have other : free ≠ some id := fun mine =>
    (roster.own id mine).2.2 _ (List.mem_cons_self ..) rfl
  have away := (roster.stands _ live other).away
  rw [handlesOf_cons_self] at away
  cases waiting : t.waiting with
  | none =>
    rw [waiting] at away
    exact absurd away.eq_nil (List.cons_ne_nil _ _)
  | some h' =>
    rw [waiting] at away
    obtain ⟨rfl, rest⟩ := List.cons.inj (List.perm_singleton.1 away)
    exact ⟨rfl, rest⟩

/-- A task comes back from its errand and gets a turn. -/
theorem wake (roster : Roster tasks last calls ((id, h) :: abroad) free)
    (live : id ∈ tasks.map Prod.fst) :
    Roster (tasks.update id fun t => { t with waiting := none }) last (id :: calls) abroad
      free := by
  have other : free ≠ some id := fun mine =>
    (roster.own id mine).2.2 _ (List.mem_cons_self ..) rfl
  refine ⟨?_, ?_, fun n hn => ?_, fun x hx => roster.sent x (List.mem_cons_of_mem _ hx),
    fun n mine => ?_, fun x hx free_ne => ?_, fun x hx mine => ?_⟩
  · rw [Named.update_keys]
    exact roster.distinct
  · rw [Named.update_keys]
    exact roster.known
  · rcases List.mem_cons.1 hn with rfl | hn
    · exact roster.known n live
    · exact roster.called n hn
  · obtain ⟨le, no_turn, no_errand⟩ := roster.own n mine
    refine ⟨le, fun hn => ?_, fun x hx => no_errand x (List.mem_cons_of_mem _ hx)⟩
    rcases List.mem_cons.1 hn with rfl | hn
    · exact other mine
    · exact no_turn hn
  · rcases Named.mem_update hx with ⟨hx, ne⟩ | ⟨y, hy, rfl, rfl⟩
    · obtain ⟨body, away, turn⟩ := roster.stands x hx free_ne
      rw [handlesOf_cons_ne (Ne.symm ne)] at away
      exact ⟨body, away, by rw [List.count_cons_of_ne (Ne.symm ne)]; exact turn⟩
    · obtain ⟨body, away, turn⟩ := roster.stands y hy other
      obtain ⟨waiting, none_left⟩ := roster.meet (t := y.2) hy
      refine ⟨body, ?_, ?_⟩
      · rw [none_left]
        exact List.Perm.refl _
      · rw [waiting] at turn
        rw [List.count_cons_self, turn]
        rfl
  · rcases Named.mem_update hx with ⟨hx, -⟩ | ⟨y, -, -, rfl⟩
    · exact roster.awake x hx mine
    · rfl

theorem shed (gone : List Errand) (roster : Roster tasks last calls (gone ++ abroad) free)
    (gone_tasks : ∀ x ∈ gone, x.1 ∉ tasks.map Prod.fst) :
    Roster tasks last calls abroad free where
  distinct := roster.distinct
  known := roster.known
  called := roster.called
  sent := fun x hx => roster.sent x (List.mem_append_right _ hx)
  own := fun n mine => by
    obtain ⟨le, no_turn, no_errand⟩ := roster.own n mine
    exact ⟨le, no_turn, fun x hx => no_errand x (List.mem_append_right _ hx)⟩
  stands := fun x hx other => by
    obtain ⟨body, away, turn⟩ := roster.stands x hx other
    have others : ∀ y ∈ gone, y.1 ≠ x.1 := fun y hy same =>
      gone_tasks y hy (same ▸ List.mem_map_of_mem hx)
    have same : handlesOf (gone ++ abroad) x.1 = handlesOf abroad x.1 := by
      rw [handlesOf, List.filter_append, List.map_append, ← handlesOf, handlesOf_eq_nil others,
        List.nil_append, handlesOf]
    exact ⟨body, same ▸ away, turn⟩
  awake := roster.awake

end Roster
end Scheduler
end MooCore
