import MooCore.Proofs.Finalization.Enclosure
import MooCore.Proofs.Finalization.Idle
/-!
# Passes empty a queue, level by level

An enclosed queue is emptied by as many passes as there are anonymous objects and waifs on its
longest chain of containment. On the way, every one of them is destroyed once, after what contains
it.
-/

set_option autoImplicit false
namespace MooCore.Workspace

open Heap

variable {s : SinkId} {mine : List String} {w : Workspace} {past : List Happening}

namespace Resting

theorem passes_lower (rest : Resting s past w) (enclosed : Enclosed s w) (unused : Unused mine w)
    {ds : List Deed} (hand : ∀ d ∈ ds, d.HandsBack mine) :
    Lowers s ds.length w (Workspace.carryOut w ds).1 (Workspace.carryOut w ds).2 := by
  induction ds generalizing past w with
  | nil => exact Lowers.refl s w
  | cons d ds ih =>
    have hands := hand d (by simp)
    obtain ⟨enclosed', unused', first⟩ := rest.pass_lowers enclosed unused hands
    have next := (rest.carryOut_one hands.drainsOnly.leavesQueue).1
    have others := ih next enclosed' unused' fun d hd => hand d (List.mem_cons_of_mem _ hd)
    rw [List.length_cons, Nat.add_comm]
    exact first.trans others

theorem silent_of_waiting (rest : Resting s past w) (enclosed : Enclosed s w) {u : Value}
    (stored : w.heap.Stored s u)
    (waits : ∀ e ∈ w.heap.entries s, e.value = u → e.finalized = false) : Silent past u := by
  intro x hx c hc same
  obtain ⟨cell, at_c, rfl⟩ := rest.stored_there stored hc
  have claimed := (rest.ledger.claimed x hx c same).2 cell at_c
  obtain ⟨e, he, value⟩ := enclosed.claimed c cell at_c stored claimed
  exact rest.ledger.waiting e he (waits e he value) x hx c (value ▸ hc) same

end Resting

/-! ## Until the queue is empty -/

/-- A queue that was emptied: what it held is gone, every anonymous object and waif of it was
destroyed once, and finalized once unless it was an entry whose finalizer had been started, and
none before what contained it. -/
structure Emptied (s : SinkId) (w : Workspace) (events : List Happening) (w' : Workspace) :
    Prop where
  empty : w'.heap.entries s = []
  gone : ∀ u, w.heap.Stored s u → w'.heap.cellOf? u = none
  destroyed : ∀ u c, w.heap.Stored s u → u.isFinalizable = true → u.cell? = some c →
    events.countP (Destroys c) = 1
  not_again : ∀ e ∈ w.heap.entries s, e.finalized = true → ∀ c, e.value.cell? = some c →
    events.countP (Finalizes c) = 0
  finalized : ∀ u c, w.heap.Stored s u → u.isFinalizable = true → u.cell? = some c →
    (∀ e ∈ w.heap.entries s, e.value = u → e.finalized = false) →
      events.countP (Finalizes c) = 1
  outer_first : ∀ before u refs after, events = before ++ .pass (.destroy u refs) :: after →
    ∀ v, w.heap.Stored s v → v.isFinalizable = true → u.Inside v →
      ∃ refs', .pass (.destroy v refs') ∈ before

namespace Lowers

variable {n : Nat} {w' : Workspace} {events : List Happening} {u : Value} {c : CellId}

theorem destroyed (lowered : Lowers s n w events w') (empty : w'.heap.entries s = [])
    (stored : w.heap.Stored s u) (kind : u.isFinalizable = true) :
    ∃ refs, .pass (.destroy u refs) ∈ events := by
  refine (lowered.accounted u stored kind).resolve_right ?_
  rintro ⟨e, he, -⟩
  rw [empty] at he
  exact absurd he List.not_mem_nil

theorem gone (lowered : Lowers s n w events w') (rest : Resting s past w)
    (empty : w'.heap.entries s = []) (stored : w.heap.Stored s u) : w'.heap.cellOf? u = none := by
  cases hc : u.cell? with
  | none => simp [cellOf?, hc]
  | some c =>
    rw [cellOf?, hc, Option.bind_some]
    by_contra there
    obtain ⟨cell, at_c⟩ := Option.ne_none_iff_exists'.1 there
    obtain ⟨cell₀, at_c₀, value⟩ := lowered.none_new c cell at_c
    obtain ⟨cell₁, at_c₁, rfl⟩ := rest.stored_there stored hc
    obtain rfl : cell₀ = cell₁ := Option.some.inj (at_c₀.symm.trans at_c₁)
    obtain ⟨e, he, -⟩ := lowered.left c cell at_c (value ▸ stored)
    rw [empty] at he
    exact absurd he List.not_mem_nil

theorem destroyed_once (lowered : Lowers s n w events w') (lawful : Lawful (past ++ events))
    (empty : w'.heap.entries s = []) (stored : w.heap.Stored s u) (kind : u.isFinalizable = true)
    (hc : u.cell? = some c) : events.countP (Destroys c) = 1 := by
  obtain ⟨refs, mem⟩ := lowered.destroyed empty stored kind
  have once := lawful.destroyed_once c
  rw [List.countP_append] at once
  have some_time : 0 < events.countP (Destroys c) :=
    List.countP_pos_iff.2 ⟨_, mem, by simp [Destroys, hc]⟩
  omega

/-- Before a value is destroyed its finalizer has been started, and not before the passes if it was
waiting then. -/
theorem finalized_once (lowered : Lowers s n w events w') (lawful : Lawful (past ++ events))
    (empty : w'.heap.entries s = []) (stored : w.heap.Stored s u) (kind : u.isFinalizable = true)
    (hc : u.cell? = some c) (silent : Silent past u) : events.countP (Finalizes c) = 1 := by
  obtain ⟨refs, mem⟩ := lowered.destroyed empty stored kind
  obtain ⟨before, between, cut⟩ := List.append_of_mem mem
  have allowed := lawful (past ++ before) (.pass (.destroy u refs)) between
    (by rw [cut, List.append_assoc])
  obtain ⟨refs', started⟩ : ∃ refs', .pass (.finalize u refs') ∈ before := by
    rcases allowed.2.1 with ⟨refs', mem'⟩ | mem'
    · rcases List.mem_append.1 mem' with old | new
      · exact absurd hc (silent _ old c hc)
      · exact ⟨refs', new⟩
    · rcases List.mem_append.1 mem' with old | new
      · exact absurd hc (silent _ old c hc)
      · obtain ⟨e, same⟩ := lowered.passes _ (cut ▸ List.mem_append_left _ new)
        cases same
  have once := lawful.finalized_once c
  rw [List.countP_append] at once
  have some_time : 0 < events.countP (Finalizes c) :=
    List.countP_pos_iff.2 ⟨_, cut ▸ List.mem_append_left _ started, by simp [Finalizes, hc]⟩
  omega

end Lowers

theorem Resting.not_again (rest : Resting s past w) {events : List Happening}
    (lawful : Lawful (past ++ events)) {e : Entry} (he : e ∈ w.heap.entries s)
    (flag : e.finalized = true) {c : CellId} (hc : e.value.cell? = some c) :
    events.countP (Finalizes c) = 0 := by
  obtain ⟨started, -⟩ := (rest.ledger.started e he flag).resolve_left List.not_mem_nil
  obtain ⟨x, mem, its⟩ : ∃ x ∈ past, x.value = e.value := by
    rcases started with ⟨refs, mem⟩ | mem
    · exact ⟨_, mem, rfl⟩
    · exact ⟨_, mem, rfl⟩
  obtain ⟨before, between, rfl⟩ := List.append_of_mem mem
  rw [List.append_assoc, List.cons_append] at lawful
  have none := lawful.not_finalized_after (its ▸ hc)
  rw [List.countP_append] at none
  omega

theorem Resting.emptied (rest : Resting s past w) (enclosed : Enclosed s w)
    (unused : Unused mine w) {ds : List Deed} (hand : ∀ d ∈ ds, d.HandsBack mine)
    (enough : w.heap.longestChain s ≤ ds.length) :
    Emptied s w (Workspace.carryOut w ds).1 (Workspace.carryOut w ds).2 := by
  have lowered := rest.passes_lower enclosed unused hand
  obtain ⟨after, -⟩ := rest.carryOut ds fun d hd => (hand d hd).drainsOnly.leavesQueue
  have lawful := after.ledger.lawful
  -- An entry would be one anonymous object or waif at least, and no chain is left for it.
  have empty : (Workspace.carryOut w ds).2.heap.entries s = [] := by
    refine List.eq_nil_iff_forall_not_mem.2 fun e he => ?_
    have deep := Value.depth_pos (after.ledger.kind e he)
    have le := Stored.depth_le (s := s) ⟨e, he, .refl⟩
    have shorter := lowered.shorter
    omega
  exact ⟨empty, fun u stored => lowered.gone rest empty stored,
    fun u c stored kind hc => lowered.destroyed_once lawful empty stored kind hc,
    fun e he flag c hc => rest.not_again lawful he flag hc,
    fun u c stored kind hc waits => lowered.finalized_once lawful empty stored kind hc
      (rest.silent_of_waiting enclosed stored waits),
    lowered.outer_first⟩

theorem Ownerless.enclosed (rest : Resting s past w) (free : Ownerless s w) : Enclosed s w := by
  have b : Balanced w.heap [] [] := by
    simpa [owned, Workspace.pinned, free.slots, free.pins] using rest.sound.balanced
  have filed : ∀ c cell, w.heap.cell? c = some cell → 0 < cell.pins →
      ∃ e ∈ w.heap.entries s, e.value = cell.value := by
    intro c cell hc pinned
    rw [b.pins c cell hc, List.nil_append] at pinned
    obtain ⟨v, hv, same⟩ := exists_of_mentions pinned
    obtain ⟨cell', hc', rfl⟩ := b.present v (by simp [hv]) c same
    obtain rfl : cell = cell' := Option.some.inj (hc.symm.trans hc')
    exact free.guarded.entry_of_queued hv
  have stored (c : CellId) (cell : Cell) (hc : w.heap.cell? c = some cell) :
      w.heap.Stored s cell.value := by
    refine b.climb (List.forall_mem_nil _) (fun d at_d hd queued => ?_)
      (fun d outer _ held u inner _ => held.within (.single inner)) hc
    obtain ⟨e, he, value⟩ := filed d at_d hd (free.guarded.held d at_d hd queued)
    exact ⟨e, he, value ▸ .refl⟩
  refine ⟨?_, fun c cell hc _ _ _ _ => stored c cell hc, ?_, ?_⟩
  · intro u hu
    rw [owned, Workspace.pinned, free.slots, free.pins] at hu
    exact absurd hu List.not_mem_nil
  · intro u held kind
    obtain ⟨c, hc⟩ := Value.cell?_of_isFinalizable kind
    obtain ⟨cell, at_c, rfl⟩ := rest.stored_there held hc
    exact free.guarded.sunk c cell at_c kind
  · exact fun c cell hc _ queued => filed c cell hc (free.guarded.held c cell hc queued)

/-- Whatever was done to a workspace before: if nothing outside the queue refers to what is in it,
then as many passes as there are anonymous objects and waifs on a chain of containment are enough
to empty it. -/
theorem emptied_level_by_level (deeds : List Deed) (orderly : ∀ d ∈ deeds, d.Orderly)
    (queue : (carryOut start deeds).2.queue = some s)
    (enclosed : Enclosed s (carryOut start deeds).2) (unused : Unused mine (carryOut start deeds).2)
    (ds : List Deed) (hand : ∀ d ∈ ds, d.HandsBack mine)
    (enough : (carryOut start deeds).2.heap.longestChain s ≤ ds.length) :
    Emptied s (carryOut start deeds).2 (carryOut (carryOut start deeds).2 ds).1
      (carryOut (carryOut start deeds).2 ds).2 := by
  obtain ⟨fair, right⟩ := carryOut_fair start_sound.fair start_right deeds orderly
  have rest : Resting s _ (carryOut start deeds).2 :=
    ⟨fair.sound queue, Fair.ledger (fair.sound queue) right⟩
  exact rest.emptied enclosed unused hand enough

/-- An anonymous object that is queued and finalized, and then goes into a waif that is in a list in
another waif; all of them are let go of. -/
def threeDeep : List Deed :=
  [.act (.make "a" (.shape (.anon 4 ⟨0⟩)) true), .act (.enqueue "a"),
    .drain (fun _ _ => {}) fun _ _ => [],
    .act (.make "w" (.waif 2 ⟨0⟩ ⟨0⟩
      [.list [.waif 3 ⟨0⟩ ⟨0⟩ [.named "a"], .shape (.anon 1 ⟨0⟩)]]) true),
    .act (.release "a"), .act (.release "w")]

def borrowing : Dispatcher := fun _ v =>
  { holdAs := some "it", ops := [.release "it"]
    failure := if v.finalizableId? = some 3 then some ⟨"E_PERM"⟩ else none }

theorem borrowing_handsBack : (Deed.drain borrowing fun _ _ => []).HandsBack ["it"] := by
  refine ⟨fun w v => ⟨?_, ?_, rfl, fun unused => ?_⟩, fun _ _ => List.forall_mem_nil _⟩
  · rintro n ⟨⟩
    exact List.mem_singleton.2 rfl
  · intro op hop
    obtain rfl := List.mem_singleton.1 hop
    exact List.mem_singleton.2 rfl
  · have free := unused "it" (List.mem_singleton.2 rfl)
    have placed : w.slots.set "it" v = w.slots ++ [("it", v)] :=
      Named.set_of_unused (Named.get?_eq_none.1 free)
    have found : (w.slots.set "it" v).get? "it" = some v := by rw [Named.get?_set, if_pos rfl]
    have taken : (w.slots.set "it" v).erase "it" = w.slots := by
      rw [placed, Named.erase, List.eraseP_append_right]
      · exact List.append_nil _
      · intro x hx same
        exact Named.get?_eq_none.1 free (of_decide_eq_true same ▸ List.mem_map_of_mem hx)
    have back : ((borrowing w v).work w v).slots = w.slots := by
      simp only [Finalizing.work, borrowing, run, List.foldl_cons, List.foldl_nil, apply,
        Workspace.release, store, free, found, taken]
    intro n hn
    rw [back]
    exact unused n hn

def letGoDeep : Workspace := (carryOut start threeDeep).2

theorem threeDeep_orderly : ∀ d ∈ threeDeep, d.Orderly := by
  simp [threeDeep, Deed.Orderly, Deed.LeavesQueue]

theorem letGoDeep_guarded : Guarded 0 letGoDeep.heap := by
  have checked : letGoDeep.heap.cells.toList.all (fun o => o.all fun cell =>
      (!cell.value.isFinalizable || cell.value.sink? == some 0) &&
        (!cell.queued || cell.pins == 1)) = true := by decide +kernel
  have each (c : CellId) (cell : Cell) (hc : letGoDeep.heap.cell? c = some cell) :=
    List.all_eq_true.1 checked _
      (Array.mem_toList_iff.2 (Array.mem_of_getElem? (cell?_eq_some.1 hc)))
  refine ⟨fun c cell hc kind => ?_, fun c cell hc queued => ?_, ?_, fun t es ht => ?_⟩
  · have sunk := each c cell hc
    simp only [Option.all_some, Bool.and_eq_true, kind, Bool.not_true, Bool.false_or,
      beq_iff_eq] at sunk
    exact sunk.1
  · have held := each c cell hc
    simp only [Option.all_some, Bool.and_eq_true, queued, Bool.not_true, Bool.false_or,
      beq_iff_eq] at held
    exact held.2 ▸ Nat.one_pos
  · have there : (letGoDeep.heap.queue? 0).isSome = true := by decide +kernel
    exact Option.isSome_iff_exists.1 there
  · have one : letGoDeep.heap.queues.size = 1 := by decide +kernel
    exact Nat.lt_one_iff.1 (one ▸ queue?_lt ht)

/-- Three passes empty the queue, and the anonymous object in the innermost waif is not finalized
again. -/
theorem threeDeep_emptied :
    Enclosed 0 letGoDeep ∧ letGoDeep.heap.longestChain 0 = 3 ∧
      let (events, w) := carryOut letGoDeep (List.replicate 3 (.drain borrowing fun _ _ => []))
      Emptied 0 letGoDeep events w ∧ events.countP (Finalizes 0) = 0 := by
  obtain ⟨fair, right⟩ := carryOut_fair start_sound.fair start_right threeDeep threeDeep_orderly
  have queue : letGoDeep.queue = some 0 := by decide +kernel
  have rest : Resting 0 _ letGoDeep := ⟨fair.sound queue, Fair.ledger (fair.sound queue) right⟩
  have free : Ownerless 0 letGoDeep :=
    ⟨List.isEmpty_iff.1 (by decide +kernel), List.isEmpty_iff.1 (by decide +kernel),
      letGoDeep_guarded⟩
  have enclosed := free.enclosed rest
  have deep : letGoDeep.heap.longestChain 0 = 3 := by decide +kernel
  have unused : Unused ["it"] letGoDeep := fun n _ => by
    rw [free.slots]
    rfl
  have emptied := emptied_level_by_level threeDeep threeDeep_orderly queue enclosed unused
    (List.replicate 3 (.drain borrowing fun _ _ => []))
    (fun d hd => List.eq_of_mem_replicate hd ▸ borrowing_handsBack) (Nat.le_of_eq deep)
  have started : (letGoDeep.heap.entries 0).any
      (fun e => e.finalized && e.value.cell? == some 0) = true := by decide +kernel
  obtain ⟨e, he, both⟩ := List.any_eq_true.1 started
  rw [Bool.and_eq_true, beq_iff_eq] at both
  exact ⟨enclosed, deep, emptied, emptied.not_again e he both.1 0 both.2⟩

end MooCore.Workspace
