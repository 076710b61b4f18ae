import MooCore.Proofs.Finalization.Census
import MooCore.Proofs.Scheduler.Tallies
/-!
# Numbers for new values after a restart

New anonymous objects and waifs get numbers that go up. After a checkpoint has been read they start
above the database and above every entry of the queue, but what the entries hold is not looked at: a
new value can get the number of an old one that was written down inside another.
-/

set_option autoImplicit false
namespace MooCore
namespace Scheduler

variable {s s' : Scheduler} {t t' t'' : Tally} {ids more : List UInt64}

/-! ## Numbers go up -/

theorem left_le_max (x y : UInt64) : x ≤ max x y := by
  change x ≤ if x ≤ y then y else x
  split
  · assumption
  · exact UInt64.le_refl x

theorem right_le_max (x y : UInt64) : y ≤ max x y := by
  change y ≤ if x ≤ y then y else x
  split
  · exact UInt64.le_refl y
  · rename_i not_le
    exact (UInt64.le_total x y).resolve_left not_le

/-- Between two tallies these numbers were given, each above all before it, unless one of them went
over the top and came out as 0. -/
structure Climbs (t : Tally) (ids : List UInt64) (t' : Tally) : Prop where
  drawn : t'.drawn = t.drawn ++ ids
  up : 0 ∉ ids → t.last ≤ t'.last
  sorted : 0 ∉ ids → ids.Pairwise (· < ·)
  between : 0 ∉ ids → ∀ id ∈ ids, t.last < id ∧ id ≤ t'.last

theorem Climbs.none (up : t.last ≤ t'.last) (drawn : t'.drawn = t.drawn) : Climbs t [] t' where
  drawn := by rw [drawn, List.append_nil]
  up _ := up
  sorted _ := .nil
  between _ := nofun

theorem Climbs.trans (first : Climbs t ids t') (second : Climbs t' more t'') :
    Climbs t (ids ++ more) t'' := by
  have parts (fine : 0 ∉ ids ++ more) : 0 ∉ ids ∧ 0 ∉ more := by simpa using fine
  constructor
  · rw [second.drawn, first.drawn, List.append_assoc]
  · intro fine
    exact UInt64.le_trans (first.up (parts fine).1) (second.up (parts fine).2)
  · intro fine
    refine List.pairwise_append.2
      ⟨first.sorted (parts fine).1, second.sorted (parts fine).2, fun a ha b hb => ?_⟩
    exact UInt64.lt_of_le_of_lt (first.between (parts fine).1 a ha).2
      (second.between (parts fine).2 b hb).1
  · intro fine id mem
    rcases List.mem_append.1 mem with old | new
    · exact (first.between (parts fine).1 id old).imp_right
        fun le => UInt64.le_trans le (second.up (parts fine).2)
    · exact (second.between (parts fine).2 id new).imp_left
        fun lt => UInt64.lt_of_le_of_lt (first.up (parts fine).1) lt

theorem lt_succ_of_ne_zero {x : UInt64} (fine : x + 1 ≠ 0) : x < x + 1 := by
  rw [UInt64.lt_iff_toNat_lt, UInt64.toNat_add]
  have bound := x.toNat_lt
  have apart : (x + 1).toNat ≠ 0 := fun zero => fine (UInt64.toNat_inj.1 zero)
  rw [UInt64.toNat_add] at apart
  simp only [UInt64.toNat_one] at apart ⊢
  omega

theorem Tally.Step.climbs (step : Tally.Step t t') : ∃ ids, Climbs t ids t' := by
  cases step with
  | draw =>
    refine ⟨[t.last + 1], rfl, fun fine => ?_, fun _ => List.pairwise_singleton _ _,
      fun fine id mem => ?_⟩
    · exact UInt64.le_of_lt (lt_succ_of_ne_zero fun zero => fine (zero ▸ List.mem_singleton_self _))
    · obtain rfl := List.mem_singleton.1 mem
      exact ⟨lt_succ_of_ne_zero fun zero => fine (zero ▸ List.mem_singleton_self _),
        UInt64.le_refl _⟩
  | raise mark => exact ⟨[], .none (left_le_max _ _) rfl⟩
  | wake | close | ask | rest => exact ⟨[], .none (UInt64.le_refl _) rfl⟩

theorem Tallied.climbs (tallied : Tallied s s') : ∃ ids, Climbs s.tally ids s'.tally := by
  have all : ∀ t', Relation.ReflTransGen Tally.Step s.tally t' → ∃ ids, Climbs s.tally ids t' := by
    intro t' steps
    induction steps with
    | refl => exact ⟨[], .none (UInt64.le_refl _) rfl⟩
    | tail _ step ih =>
      obtain ⟨ids, first⟩ := ih
      obtain ⟨more, second⟩ := step.climbs
      exact ⟨ids ++ more, first.trans second⟩
  exact all _ tallied

/-! ## Whatever happens -/

/-- Something happens to a scheduler from outside or in a task's step, or it is shut down. -/
inductive Happens : Scheduler → Scheduler → Prop where
  | deed (s : Scheduler) (deed : Deed) : Happens s (deed.carryOut s)
  | effect (s : Scheduler) (e : Effect) : Happens s (s.perform e).2
  | shutdown (s : Scheduler) (rounds : List Round) : Happens s (s.shutdown rounds).2

abbrev Later : Scheduler → Scheduler → Prop := Relation.ReflTransGen Happens

theorem Later.tallied (later : Later s s') : Tallied s s' := by
  induction later with
  | refl => exact .refl s
  | tail _ happens ih =>
    refine ih.trans ?_
    cases happens with
    | deed deed => exact (Deed.carryOut_whole _ deed).tallied
    | effect e => exact perform_tallied _ e
    | shutdown rounds => exact (shutdown_whole _ rounds).tallied

def drawIds : Nat → Scheduler → Scheduler
  | 0, s => s
  | n + 1, s => ((drawIds n s).perform .newId).2

theorem drawIds_later (s : Scheduler) (n : Nat) : Later s (drawIds n s) := by
  induction n with
  | zero => exact .refl
  | succ n ih => exact ih.tail (.effect _ .newId)

theorem drawIds_last (s : Scheduler) (n : Nat) :
    (drawIds n s).lastObject = s.lastObject + UInt64.ofNat n := by
  induction n with
  | zero => simp [drawIds]
  | succ n ih =>
    have step : (drawIds (n + 1) s).lastObject = (drawIds n s).lastObject + 1 := rfl
    rw [step, ih, UInt64.ofNat_add, UInt64.add_assoc]
    rfl

theorem drawIds_drawn (s : Scheduler) (n : Nat) :
    (drawIds n s).drawn =
      s.drawn ++ (List.range n).map fun i => s.lastObject + UInt64.ofNat (i + 1) := by
  induction n with
  | zero => simp [drawIds]
  | succ n ih =>
    have step : (drawIds (n + 1) s).drawn =
        (drawIds n s).drawn ++ [(drawIds (n + 1) s).lastObject] := rfl
    rw [step, ih, drawIds_last, List.range_succ, List.map_append, List.append_assoc]
    rfl

theorem drawIds_fine {n : Nat} (room : s.lastObject.toNat + n < 2 ^ 64) :
    0 ∉ (List.range n).map fun i => s.lastObject + UInt64.ofNat (i + 1) := by
  intro zero
  obtain ⟨i, hi, sum⟩ := List.mem_map.1 zero
  have hi := List.mem_range.1 hi
  have nat := congrArg UInt64.toNat sum
  rw [UInt64.toNat_add, UInt64.toNat_ofNat'] at nat
  simp only [UInt64.toNat_zero] at nat
  omega

theorem drawIds_reach {x : UInt64} (above : s.lastObject < x) :
    ∃ n, s.lastObject.toNat + n < 2 ^ 64 ∧
      x ∈ (List.range n).map fun i => s.lastObject + UInt64.ofNat (i + 1) := by
  have lt := UInt64.lt_iff_toNat_lt.1 above
  have bound := x.toNat_lt
  refine ⟨x.toNat - s.lastObject.toNat, by omega, List.mem_map.2
    ⟨x.toNat - s.lastObject.toNat - 1, List.mem_range.2 (by omega), ?_⟩⟩
  rw [← UInt64.toNat_inj, UInt64.toNat_add, UInt64.toNat_ofNat']
  omega

/-! ## Restored numbers -/

/-- The numbers anywhere in the queue: those of its entries and of what is inside them. -/
def queuedIds (s : Scheduler) : List UInt64 := s.entries.flatMap fun e => e.value.shape.ids

theorem le_highestQueued {es : List Entry} {e : Entry} (mem : e ∈ es) {x : UInt64}
    (hx : e.value.finalizableId? = some x) : x ≤ highestQueued es := by
  have grows : ∀ (es : List Entry) (m : UInt64),
      m ≤ es.foldl (fun m e => max m (e.value.finalizableId?.getD 0)) m := by
    intro es
    induction es with
    | nil => exact fun m => UInt64.le_refl m
    | cons e es ih => exact fun m => UInt64.le_trans (left_le_max _ _) (ih _)
  have all : ∀ (es : List Entry) (m : UInt64), e ∈ es →
      x ≤ es.foldl (fun m e => max m (e.value.finalizableId?.getD 0)) m := by
    intro es
    induction es with
    | nil => exact fun _ none => nomatch none
    | cons first es ih =>
      intro m mem
      rcases List.mem_cons.1 mem with rfl | mem
      · refine UInt64.le_trans ?_ (grows es _)
        dsimp only
        rw [hx]
        exact right_le_max _ _
      · exact ih _ mem
  exact all es 0 mem

theorem restoreLatest_mark {summary : Checkpoint.Summary}
    (restored : s.restoreLatest = (.ok (some summary), s')) :
    UInt64.ofNat s'.database.maxObjectId ≤ s'.lastObject ∧
      ∀ e ∈ s'.entries, ∀ x, e.value.finalizableId? = some x → x ≤ s'.lastObject := by
  unfold restoreLatest at restored
  split at restored
  · split at restored
    · simp at restored
    · simp at restored
    · dsimp only at restored
      split at restored
      · simp at restored
      · obtain ⟨-, rfl⟩ := Prod.mk.inj restored
        refine ⟨?_, fun e mem x hx => ?_⟩
        · exact UInt64.le_trans (right_le_max _ _) (right_le_max _ _)
        · exact UInt64.le_trans (le_highestQueued mem hx)
            (UInt64.le_trans (left_le_max _ _) (right_le_max _ _))
  · simp at restored

/-- No number is given twice after a checkpoint was read, and none that the database or an entry of
the queue has. That the same holds for what is inside the entries depends on them: it does if all
numbers there are among those that count as taken, and otherwise some run gives one again. -/
theorem restored_ids_stay_apart_iff {summary : Checkpoint.Summary}
    (restored : s.restoreLatest = (.ok (some summary), s')) :
    (∀ s'' ids, Later s' s'' → s''.drawn = s'.drawn ++ ids → 0 ∉ ids →
      ids.Nodup ∧ ∀ id ∈ ids, UInt64.ofNat s'.database.maxObjectId < id ∧
        ∀ e ∈ s'.entries, ∀ x, e.value.finalizableId? = some x → x < id) ∧
    ((∀ s'' ids, Later s' s'' → s''.drawn = s'.drawn ++ ids → 0 ∉ ids →
        ∀ id ∈ ids, id ∉ s'.queuedIds) ↔
      ∀ x ∈ s'.queuedIds, x ≤ s'.lastObject) := by
  have climbs : ∀ s'' ids, Later s' s'' → s''.drawn = s'.drawn ++ ids →
      Climbs s'.tally ids s''.tally := by
    intro s'' ids later drawn
    obtain ⟨ids', climbs⟩ := later.tallied.climbs
    obtain rfl : ids = ids' := List.append_cancel_left (drawn.symm.trans climbs.drawn)
    exact climbs
  obtain ⟨database, entries⟩ := restoreLatest_mark restored
  refine ⟨fun s'' ids later drawn fine => ⟨?_, fun id mem => ?_⟩, fun apart x held => ?_,
    fun taken s'' ids later drawn fine id mem held => ?_⟩
  · exact ((climbs s'' ids later drawn).sorted fine).imp fun lt => UInt64.ne_of_lt lt
  · have above := ((climbs s'' ids later drawn).between fine id mem).1
    exact ⟨UInt64.lt_of_le_of_lt database above,
      fun e he x hx => UInt64.lt_of_le_of_lt (entries e he x hx) above⟩
  · by_contra not_le
    obtain ⟨n, room, comes⟩ := drawIds_reach (UInt64.not_le.1 not_le)
    exact apart _ _ (drawIds_later s' n) (drawIds_drawn s' n) (drawIds_fine room) x comes held
  · have above := ((climbs s'' ids later drawn).between fine id mem).1
    exact absurd (UInt64.lt_of_lt_of_le above (taken id held)) (UInt64.lt_irrefl _)

/-- A waif with the number 1 waits for its finalizer; it holds an anonymous object with the number
2. -/
def nestedText : String :=
  "** stunt checkpoint (explicit) **\n0 background threads in flight\n0 objects\n" ++
  "1 values pending finalization\n0\n13\n1\n5\n0\n1\n12\n2\n0\n"

/-- A server over the directory in which that was written. -/
def nestedServer : Scheduler where
  toWorkspace := Workspace.start
  sessions := { timeout := 0 }
  gateway := { max := 20, threading := true }
  database := .placeholders 0 [] .absent
  parser := .error
  directory := some
    { path := "state"
      steps := ["state"]
      tree := ⟨[(["state"], .directory),
        (["state", "checkpoint-0000000000000001.db"], .file nestedText.toUTF8.toList)]⟩ }
  lastObject := 0

theorem nestedServer_restored :
    nestedServer.restoreLatest = (.ok (some ⟨0, 1⟩), nestedServer.restoreLatest.2) :=
  Prod.ext (by decide +kernel) rfl

theorem nestedServer_entries :
    nestedServer.restoreLatest.2.queuedIds = [1, 2] ∧
      nestedServer.restoreLatest.2.lastObject = 1 := by
  decide +kernel

theorem nestedServer_clashes :
    ¬ ∀ s'' ids, Later nestedServer.restoreLatest.2 s'' →
      s''.drawn = nestedServer.restoreLatest.2.drawn ++ ids → 0 ∉ ids →
        ∀ id ∈ ids, id ∉ nestedServer.restoreLatest.2.queuedIds := by
  intro apart
  obtain ⟨held, last⟩ := nestedServer_entries
  have mem : 2 ∈ nestedServer.restoreLatest.2.queuedIds := by
    rw [held]
    decide
  have taken := (restored_ids_stay_apart_iff nestedServer_restored).2.1 apart 2 mem
  rw [last] at taken
  exact absurd taken (by decide)

/-- The number after that of the waif is that of the object inside it. -/
theorem heldId_given_again :
    ∃ s' summary, nestedServer.restoreLatest = (.ok (some summary), s') ∧
      Later s' (s'.perform .newId).2 ∧ (s'.perform .newId).2.drawn = s'.drawn ++ [2] ∧
      2 ∈ s'.queuedIds := by
  obtain ⟨held, last⟩ := nestedServer_entries
  refine ⟨_, _, nestedServer_restored, Relation.ReflTransGen.single (.effect _ .newId), ?_, ?_⟩
  · simp only [perform, last]
    rfl
  · rw [held]
    decide

end Scheduler
end MooCore
