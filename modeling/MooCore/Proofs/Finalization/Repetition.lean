import MooCore.Proofs.Finalization.Restart
/-!
# Finalizers after a restart

A value that was an entry and stood inside another entry as well, or inside two of them, comes back
from a written queue as several, each with a finalizer of its own. So a restart repeats nothing
exactly if no identity number stands in the written queue twice.
-/

set_option autoImplicit false
namespace MooCore.Workspace

open Heap

def FinalizesId (x : UInt64) : Happening → Bool
  | .pass (.finalize v _) => v.finalizableId? == some x
  | _ => false

def RestoresId (x : UInt64) : Happening → Bool
  | .restored v => v.finalizableId? == some x
  | .pass _ => false

/-- After a restart, no finalizer is started twice for a number, and none for a number whose entry
was written as started. -/
def RepeatsNothing (w : Workspace) (deeds : List Deed) : Prop :=
  (∀ x, (carryOut w.restart deeds).1.countP (FinalizesId x) ≤ 1) ∧
    ∀ e ∈ w.entries, e.finalized = true → ∀ x, e.value.finalizableId? = some x →
      (carryOut w.restart deeds).1.countP (FinalizesId x) = 0

/-- The identity numbers of the anonymous objects and waifs in a heap. -/
def idsOf (h : Heap) : List UInt64 := h.contents.filterMap fun o => o.bind Value.finalizableId?

/-- No two anonymous objects or waifs in a heap have the same identity number. -/
def DistinctIds (h : Heap) : Prop := (idsOf h).Nodup

instance (h : Heap) : Decidable (DistinctIds h) := inferInstanceAs (Decidable (idsOf h).Nodup)

variable {s : SinkId} {past : List Happening} {w : Workspace} {x : UInt64}

/-! ## Values with one number -/

def Resident (h : Heap) (v : Value) : Prop :=
  ∃ c cell, v.cell? = some c ∧ h.cell? c = some cell ∧ cell.value = v

theorem resident_unique {h : Heap} (le : h.census x ≤ 1) {v v' : Value} {c : CellId}
    (hv : Resident h v) (hv' : Resident h v') (id : v.finalizableId? = some x)
    (id' : v'.finalizableId? = some x) (hc : v.cell? = some c) : v'.cell? = some c := by
  obtain ⟨d, cell, hd, at_d, rfl⟩ := hv
  obtain ⟨d', cell', hd', at_d', rfl⟩ := hv'
  obtain rfl : d = c := Option.some.inj (hd.symm.trans hc)
  by_cases same : d' = d
  · exact same ▸ hd'
  · -- the other one would still be there without the first
    have gone := census_erase at_d x
    rw [if_pos id] at gone
    have there : (h.erase d).cell? d' = some cell' := by rw [cell?_erase at_d, if_neg same, at_d']
    have pos : 0 < (h.erase d).census x :=
      List.countP_pos_iff.2 ⟨_, List.mem_of_getElem? (contents_of_cell? there), by simp [id']⟩
    omega

theorem count_idsOf (h : Heap) (x : UInt64) : (idsOf h).count x = h.census x := by
  rw [idsOf, census, List.count, List.countP_filterMap]
  refine List.countP_congr fun o _ => ?_
  cases o.bind Value.finalizableId? <;> simp

theorem DistinctIds.census_le {h : Heap} (distinct : DistinctIds h) (x : UInt64) :
    h.census x ≤ 1 := by
  rw [← count_idsOf]
  exact List.nodup_iff_count_le_one.1 distinct x

theorem entry_resident (rest : Resting s past w) {e : Entry} (he : e ∈ w.heap.entries s) :
    Resident w.heap e.value := by
  obtain ⟨c, hc⟩ := Value.cell?_of_isFinalizable (rest.ledger.kind e he)
  obtain ⟨cell, at_c, value, -⟩ := rest.sound.balanced.toCounted.cell_of_pinned
    (List.mem_append_right _ (mem_queued_of_entry he)) hc
  exact ⟨c, cell, hc, at_c, value⟩

theorem finalized_resident {ds : List Deed} (drains : ∀ d ∈ ds, d.DrainsOnly)
    (rest : Resting s past w) {v : Value} {refs : Nat}
    (hx : .pass (.finalize v refs) ∈ (carryOut w ds).1) : Resident w.heap v := by
  induction ds generalizing past w with
  | nil => cases hx
  | cons d ds ih =>
    have only := drains d (by simp)
    cases d with
    | act op => exact only.elim
    | restore source => exact only.elim
    | drain dispatch farewell =>
      rcases List.mem_append.1 hx with now | later
      · obtain ⟨e, he, same⟩ := List.mem_map.1 now
        cases same
        obtain ⟨e', he', same⟩ := List.mem_map.1 (finalize_of_drain rest.sound.queue he)
        exact same ▸ entry_resident rest he'
      · obtain ⟨c, cell', hc, at_c, rfl⟩ := ih (fun d hd => drains d (List.mem_cons_of_mem _ hd))
          (rest.carryOut_one only.leavesQueue).1 later
        obtain ⟨cell, at_c', value⟩ := drain_noneNew rest.sound.queue only c cell' at_c
        exact ⟨c, cell, hc, at_c', value.symm⟩

theorem drains_restore_nothing {ds : List Deed} (drains : ∀ d ∈ ds, d.DrainsOnly) :
    (carryOut w ds).1.countP (RestoresId x) = 0 := by
  induction ds generalizing w with
  | nil => rfl
  | cons d ds ih =>
    have only := drains d (by simp)
    cases d with
    | act op => exact only.elim
    | restore source => exact only.elim
    | drain dispatch farewell =>
      simp only [carryOut]
      rw [List.countP_append, ih fun d hd => drains d (List.mem_cons_of_mem _ hd)]
      simp only [Deed.carryOut, List.countP_map, Nat.add_zero]
      exact List.countP_eq_zero.2 fun e _ => by simp [RestoresId]

/-! ## What is destroyed was started -/

theorem finalizesId_cases {y : Happening} (h : FinalizesId x y = true) :
    ∃ v refs, y = .pass (.finalize v refs) ∧ v.finalizableId? = some x := by
  cases y with
  | restored u => cases h
  | pass e =>
    cases e with
    | finalize u n => exact ⟨u, n, rfl, by simpa [FinalizesId] using h⟩
    | failed u f => cases h
    | destroy u n => cases h

def destroyedValues (x : UInt64) (past : List Happening) : List Value :=
  past.filterMap fun
    | .pass (.destroy v _) => if v.finalizableId? = some x then some v else none
    | _ => none

def startedValues (x : UInt64) (past : List Happening) : List Value :=
  past.filterMap fun
    | .pass (.finalize v _) | .restored v => if v.finalizableId? = some x then some v else none
    | _ => none

theorem length_destroyedValues (x : UInt64) (past : List Happening) :
    (destroyedValues x past).length = past.countP (DestroysId x) := by
  induction past with
  | nil => rfl
  | cons y past ih =>
    rw [destroyedValues] at ih ⊢
    rw [List.filterMap_cons, List.countP_cons, ← ih]
    cases y with
    | restored u => rfl
    | pass e =>
      cases e with
      | finalize u n => rfl
      | failed u f => rfl
      | destroy u n => by_cases h : u.finalizableId? = some x <;> simp [DestroysId, DestroyEvent, h]

theorem length_startedValues (x : UInt64) (past : List Happening) :
    (startedValues x past).length =
      past.countP (FinalizesId x) + past.countP (RestoresId x) := by
  induction past with
  | nil => rfl
  | cons y past ih =>
    rw [startedValues] at ih ⊢
    rw [List.filterMap_cons, List.countP_cons, List.countP_cons]
    cases y with
    | restored u =>
      by_cases h : u.finalizableId? = some x <;> simp [FinalizesId, RestoresId, h, ih]
      omega
    | pass e =>
      cases e with
      | finalize u n =>
        by_cases h : u.finalizableId? = some x <;> simp [FinalizesId, RestoresId, h, ih]
        omega
      | failed u f => simp [FinalizesId, RestoresId, ih]
      | destroy u n => simp [FinalizesId, RestoresId, ih]

theorem mem_destroyedValues {v : Value} (h : v ∈ destroyedValues x past) :
    (∃ refs, .pass (.destroy v refs) ∈ past) ∧ v.finalizableId? = some x := by
  obtain ⟨y, hy, some_v⟩ := List.mem_filterMap.1 h
  cases y with
  | restored u => cases some_v
  | pass e =>
    cases e with
    | finalize u n => cases some_v
    | failed u f => cases some_v
    | destroy u n =>
      by_cases id : u.finalizableId? = some x
      · simp only [id, if_true, Option.some.injEq] at some_v
        subst some_v
        exact ⟨⟨n, hy⟩, id⟩
      · simp [id] at some_v

theorem mem_startedValues {v : Value} (started : Started past v)
    (id : v.finalizableId? = some x) : v ∈ startedValues x past := by
  rcases started with ⟨refs, mem⟩ | mem
  · exact List.mem_filterMap.2 ⟨_, mem, by simp [id]⟩
  · exact List.mem_filterMap.2 ⟨_, mem, by simp [id]⟩

theorem Lawful.destroyedValues_nodup (lawful : Lawful past) : (destroyedValues x past).Nodup := by
  induction past using List.reverseRecOn with
  | nil => exact List.nodup_nil
  | append_singleton past y ih =>
    have before := ih lawful.of_append
    rw [destroyedValues, List.filterMap_append]
    refine List.nodup_append.2 ⟨before, ?_, ?_⟩
    · rw [List.filterMap_cons]
      split <;> simp
    · intro v hv u hu same
      subst same
      obtain ⟨⟨refs, mem⟩, id⟩ := mem_destroyedValues hu
      cases List.mem_singleton.1 mem
      obtain ⟨⟨refs', mem'⟩, -⟩ := mem_destroyedValues hv
      obtain ⟨c, hc⟩ := Value.cell?_of_isFinalizable (v := v) (by simp [Value.isFinalizable, id])
      have undestroyed := (lawful past _ [] rfl).2.2 _ mem' c hc
      simp [Destroys, hc] at undestroyed

theorem Lawful.destroyed_le_started (lawful : Lawful past) (x : UInt64) :
    past.countP (DestroysId x) ≤ past.countP (FinalizesId x) + past.countP (RestoresId x) := by
  rw [← length_destroyedValues, ← length_startedValues]
  refine (List.subperm_of_subset lawful.destroyedValues_nodup fun v hv => ?_).length_le
  obtain ⟨⟨refs, mem⟩, id⟩ := mem_destroyedValues hv
  obtain ⟨before, after, rfl⟩ := List.append_of_mem mem
  exact mem_startedValues ((lawful before _ after rfl).2.1.mono _) id

theorem idle_drainsOnly : idle.DrainsOnly := by
  constructor <;> intro w v op hop <;> cases hop

/-! ## Restarts that repeat nothing -/

theorem countP_le_of_resident {ds : List Deed} (drains : ∀ d ∈ ds, d.DrainsOnly)
    (rest : Resting s past w) (single : w.heap.census x ≤ 1) {v : Value} {c : CellId}
    (hv : Resident w.heap v) (id : v.finalizableId? = some x) (hc : v.cell? = some c) :
    (carryOut w ds).1.countP (FinalizesId x) ≤ (carryOut w ds).1.countP (Finalizes c) := by
  refine List.countP_mono_left fun y hy finalizes => ?_
  obtain ⟨u, refs, rfl, id'⟩ := finalizesId_cases finalizes
  have same := resident_unique single hv (finalized_resident drains rest hy) id id' hc
  simp [Finalizes, same]

theorem repeatsNothing_of_nodup (restart : Restarted w) (nodup : w.writtenIds.Nodup)
    {ds : List Deed} (drains : ∀ d ∈ ds, d.DrainsOnly) : w.RepeatsNothing ds := by
  have lawful := (restart.resting.carryOut ds fun d hd => (drains d hd).leavesQueue).1.ledger.lawful
  have single : ∀ x, w.restart.heap.census x ≤ 1 := fun x => by
    rw [restart.census]
    exact List.nodup_iff_count_le_one.1 nodup x
  have once : ∀ c, (carryOut w.restart ds).1.countP (Finalizes c) ≤ 1 := by
    intro c
    have le := lawful.finalized_once c
    rw [List.countP_append] at le
    omega
  refine ⟨fun x => ?_, fun e he flag x id => ?_⟩
  · rcases Nat.eq_zero_or_pos ((carryOut w.restart ds).1.countP (FinalizesId x)) with zero | pos
    · omega
    · obtain ⟨y, hy, finalizes⟩ := List.countP_pos_iff.1 pos
      obtain ⟨v, refs, rfl, id⟩ := finalizesId_cases finalizes
      have resident := finalized_resident drains restart.resting hy
      obtain ⟨c, cell, hc, -⟩ := resident
      exact Nat.le_trans (countP_le_of_resident drains restart.resting (single x)
        (finalized_resident drains restart.resting hy) id hc) (once c)
  · have listed : some x ∈ w.restart.heap.startedIds 0 := by
      rw [restart.started]
      exact List.mem_map.2 ⟨e, List.mem_filter.2 ⟨he, flag⟩, id⟩
    obtain ⟨e', he', id'⟩ := List.mem_map.1 listed
    obtain ⟨mem, flag'⟩ := List.mem_filter.1 he'
    have resident := entry_resident restart.resting mem
    obtain ⟨c, cell, hc, -⟩ := resident
    have restored : .restored e'.value ∈ readBack w.restart.entries ++ (carryOut w.restart ds).1 := by
      refine List.mem_append_left _ (List.mem_map.2 ⟨e', List.mem_filter.2 ⟨?_, flag'⟩, rfl⟩)
      rw [entries_of_queue restart.resting.sound.queue]
      exact mem
    have never := lawful.restored_not_finalized restored hc
    rw [List.countP_append] at never
    have le := countP_le_of_resident drains restart.resting (single x)
      (entry_resident restart.resting mem) id' hc
    omega

theorem started_once (rest : Resting s past w) (distinct : DistinctIds w.heap) (x : UInt64) :
    ((w.entries.filter Entry.finalized).map fun e => e.value.finalizableId?).count (some x) ≤ 1 := by
  rw [entries_of_queue rest.sound.queue]
  rcases Nat.eq_zero_or_pos ((((w.heap.entries s).filter Entry.finalized).map
    fun e => e.value.finalizableId?).count (some x)) with zero | pos
  · omega
  · obtain ⟨e, he, id⟩ := List.mem_map.1 (List.count_pos_iff.1 pos)
    have mem := (List.mem_filter.1 he).1
    obtain ⟨c, cell, hc, -⟩ := entry_resident rest mem
    have le := mentions_entries_le (s := s) rest.sound.balanced c
    rw [mentions_append] at le
    have fewer : (((w.heap.entries s).filter Entry.finalized).map
        fun e => e.value.finalizableId?).count (some x) ≤
        mentions c ((w.heap.entries s).map Entry.value) := by
      rw [List.count, List.countP_map, List.countP_filter, mentions, List.countP_map]
      refine List.countP_mono_left fun e' he' both => ?_
      simp only [Function.comp_apply, Bool.and_eq_true, beq_iff_eq] at both ⊢
      exact resident_unique (distinct.census_le x) (entry_resident rest mem)
        (entry_resident rest he') id both.1 hc
    omega

theorem nodup_of_repeatsNothing (rest : Resting s past w) (distinct : DistinctIds w.heap)
    (restart : Restarted w)
    (nothing : ∀ ds : List Deed, (∀ d ∈ ds, d.DrainsOnly) → w.RepeatsNothing ds) :
    w.writtenIds.Nodup := by
  refine List.nodup_iff_count_le_one.2 fun x => ?_
  let ds := List.replicate w.restart.heap.population idle
  have drains : ∀ d ∈ ds, d.DrainsOnly := by
    intro d hd
    rw [List.eq_of_mem_replicate hd]
    exact idle_drainsOnly
  have all := idle_passes w.restart.heap.population restart.resting restart.free (Nat.le_refl _) x
  have lawful := (restart.resting.carryOut ds fun d hd => (drains d hd).leavesQueue).1.ledger.lawful
  have le := lawful.destroyed_le_started x
  have marks : (readBack w.restart.entries).countP (RestoresId x) =
      (w.restart.heap.startedIds 0).count (some x) := by
    rw [entries_of_queue restart.resting.sound.queue, readBack, startedIds, List.count,
      List.countP_map, List.countP_map]
    rfl
  have unmarked : ∀ es, (readBack es).countP (FinalizesId x) = 0 ∧
      (readBack es).countP (DestroysId x) = 0 := by
    intro es
    rw [readBack, List.countP_map, List.countP_map]
    exact ⟨List.countP_eq_zero.2 fun e _ => by simp [FinalizesId],
      List.countP_eq_zero.2 fun e _ => by simp [DestroysId]⟩
  rw [List.countP_append, List.countP_append, List.countP_append, (unmarked _).1, (unmarked _).2,
    drains_restore_nothing drains, marks, restart.started] at le
  have once := started_once rest distinct x
  obtain ⟨finalized, respected⟩ := nothing ds drains
  have single := finalized x
  rw [← restart.census, ← all]
  change (carryOut w.restart ds).1.countP (DestroysId x) ≤ 1
  rcases Nat.eq_zero_or_pos (((w.entries.filter Entry.finalized).map
    fun e => e.value.finalizableId?).count (some x)) with zero | pos
  · omega
  · obtain ⟨e, he, id⟩ := List.mem_map.1 (List.count_pos_iff.1 pos)
    have never := respected e (List.mem_filter.1 he).1 (List.mem_filter.1 he).2 x id
    omega

/-- The queue of any course of work, written down and read back, has all its entries; and if the
values had different identity numbers, passes that make nothing repeat nothing exactly if no number
was written twice. -/
theorem restart_repeats_nothing_iff (deeds : List Deed) (leave : ∀ d ∈ deeds, d.LeavesQueue)
    (distinct : DistinctIds (carryOut start deeds).2.heap)
    (writable : (carryOut start deeds).2.Writable) :
    let w := (carryOut start deeds).2
    (start.restore w.written).1 = .ok w.entries.length ∧
      ((∀ ds : List Deed, (∀ d ∈ ds, d.DrainsOnly) → w.RepeatsNothing ds) ↔ w.writtenIds.Nodup) := by
  have rest := (start_resting.carryOut deeds leave).1
  have restart := restarted writable (by
    rw [entries_of_queue rest.sound.queue]
    exact rest.ledger.kind)
  exact ⟨restart.complete, nodup_of_repeatsNothing rest distinct restart,
    fun nodup ds drains => repeatsNothing_of_nodup restart nodup drains⟩

/-- An anonymous object in a waif; both are let go of. -/
def heldAlone : List Deed :=
  [.act (.make "a" (.shape (.anon 2 ⟨0⟩)) true),
    .act (.make "w" (.waif 1 ⟨0⟩ ⟨0⟩ [.named "a"]) true), .act (.release "a"),
    .act (.release "w")]

theorem heldAlone_entries : (carryOut start heldAlone).2.entries =
    [⟨.waif 1 (some 0) 1 ⟨0⟩ ⟨0⟩ [.anon 0 (some 0) 2 ⟨0⟩], false⟩] := rfl

theorem heldAlone_repeats_nothing :
    (∀ d ∈ heldAlone, d.LeavesQueue) ∧ DistinctIds (carryOut start heldAlone).2.heap ∧
      (carryOut start heldAlone).2.Writable ∧
      ∀ ds : List Deed, (∀ d ∈ ds, d.DrainsOnly) → (carryOut start heldAlone).2.RepeatsNothing ds := by
  have leave : ∀ d ∈ heldAlone, d.LeavesQueue := by
    simp [heldAlone, Deed.LeavesQueue, Op.LeavesQueue]
  have distinct : DistinctIds (carryOut start heldAlone).2.heap := by decide
  have writable : (carryOut start heldAlone).2.Writable := by
    constructor
    · decide
    · rw [heldAlone_entries]
      simp [Value.shape, Value.shapes, Shape.Fits, Shape.FitsAll, Shape.lengthLimit]
  exact ⟨leave, distinct, writable,
    (restart_repeats_nothing_iff heldAlone leave distinct writable).2.2 (by decide)⟩

def heldEntry : List Deed :=
  [.act (.make "a" (.shape (.anon 2 ⟨0⟩)) true), .act (.enqueue "a"),
    .act (.make "w" (.waif 1 ⟨0⟩ ⟨0⟩ [.named "a"]) true), .act (.release "a"),
    .act (.release "w")]

theorem heldEntry_entries : (carryOut start heldEntry).2.entries =
    [⟨.anon 0 (some 0) 2 ⟨0⟩, false⟩,
      ⟨.waif 1 (some 0) 1 ⟨0⟩ ⟨0⟩ [.anon 0 (some 0) 2 ⟨0⟩], false⟩] := rfl

/-- The anonymous object comes back twice, and its finalizer is started twice. -/
theorem heldEntry_repeats :
    let w := (carryOut start heldEntry).2
    (∀ d ∈ heldEntry, d.LeavesQueue) ∧ DistinctIds w.heap ∧
      (∀ d ∈ [idle, idle], d.DrainsOnly) ∧
      (carryOut w.restart [idle, idle]).1.countP (FinalizesId 2) = 2 ∧
      ¬ w.RepeatsNothing [idle, idle] := by
  have writable : (carryOut start heldEntry).2.Writable := by
    constructor
    · decide
    · rw [heldEntry_entries]
      simp [Value.shape, Value.shapes, Shape.Fits, Shape.FitsAll, Shape.lengthLimit]
  have restart := (restore_written_eq writable (by
    rw [heldEntry_entries]
    simp [Value.isFinalizable, Value.finalizableId?])).2
  have twice : (carryOut (carryOut start heldEntry).2.restart [idle, idle]).1.countP
      (FinalizesId 2) = 2 := by
    rw [restart]
    decide
  refine ⟨?_, by decide, by simp [idle_drainsOnly], twice, fun nothing => ?_⟩
  · simp [heldEntry, Deed.LeavesQueue, Op.LeavesQueue]
  · have once := nothing.1 2
    omega

end MooCore.Workspace
