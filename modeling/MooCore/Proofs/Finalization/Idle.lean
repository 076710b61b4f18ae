import MooCore.Proofs.Finalization.Once
import MooCore.Proofs.Finalization.Census
/-!
# Idle passes

A pass whose finalizers do nothing takes at least one value out of a heap without outside owners,
since the youngest value is never inside another. So idle passes empty such a heap, and every value
with an identity number is destroyed on the way.
-/

set_option autoImplicit false
namespace MooCore

namespace Heap

variable {s : SinkId} {h h' h'' : Heap} {own pin : List Value} {v : Value} {c : CellId}

/-- The same heap but for the colors of its cells. -/
structure Recolored (h h' : Heap) : Prop where
  queues : h'.queues = h.queues
  contents : h'.contents = h.contents
  cells : ∀ c cell', h'.cell? c = some cell' → ∃ cell, h.cell? c = some cell ∧
    cell'.value = cell.value ∧ cell'.refs = cell.refs ∧ cell'.pins = cell.pins ∧
      cell'.queued = cell.queued

theorem Recolored.refl (h : Heap) : Recolored h h :=
  ⟨rfl, rfl, fun _ cell' hc => ⟨cell', hc, rfl, rfl, rfl, rfl⟩⟩

theorem Recolored.trans (first : Recolored h h') (second : Recolored h' h'') :
    Recolored h h'' := by
  refine ⟨second.queues.trans first.queues, second.contents.trans first.contents, ?_⟩
  intro c cell'' hc
  obtain ⟨cell', hc', value', refs', pins', queued'⟩ := second.cells c cell'' hc
  obtain ⟨cell, hc, value, refs, pins, queued⟩ := first.cells c cell' hc'
  exact ⟨cell, hc, value'.trans value, refs'.trans refs, pins'.trans pins, queued'.trans queued⟩

theorem Recolored.put {cell cell' : Cell} (hc : h.cell? c = some cell)
    (value : cell'.value = cell.value) (refs : cell'.refs = cell.refs)
    (pins : cell'.pins = cell.pins) (queued : cell'.queued = cell.queued) :
    Recolored h (h.put c cell') := by
  refine ⟨rfl, contents_put hc value, ?_⟩
  intro d at_d hd
  rw [cell?_put hc] at hd
  split at hd
  · rename_i e
    subst e
    cases hd
    exact ⟨cell, hc, value, refs, pins, queued⟩
  · exact ⟨at_d, hd, rfl, rfl, rfl, rfl⟩

theorem Recolored.entries (same : Recolored h h') (s : SinkId) :
    h'.entries s = h.entries s := by
  rw [Heap.entries, queue?, same.queues, Heap.entries, queue?]

theorem Recolored.guarded (same : Recolored h h') (guarded : Guarded s h) : Guarded s h' := by
  refine ⟨?_, ?_, ?_, ?_⟩
  · intro c cell' hc kind
    obtain ⟨cell, hc, value, -⟩ := same.cells c cell' hc
    rw [value] at kind ⊢
    exact guarded.sunk c cell hc kind
  · intro c cell' hc flag
    obtain ⟨cell, hc, -, -, pins, queued⟩ := same.cells c cell' hc
    rw [queued] at flag
    rw [pins]
    exact guarded.held c cell hc flag
  · obtain ⟨es, hs⟩ := guarded.alive
    exact ⟨es, by rw [queue?, same.queues]; exact hs⟩
  · intro t es ht
    rw [queue?, same.queues] at ht
    exact guarded.only t es ht

theorem borrow_recolored (b : Balanced h own pin) (guarded : Guarded s h)
    (hv : v ∈ pin ++ h.queued) (kind : v.isFinalizable = true) :
    Recolored h ((h.share v).release v) := by
  obtain ⟨c, cv⟩ := Value.cell?_of_isFinalizable kind
  obtain ⟨cell, hc, rfl, queued, one⟩ := b.toCounted.cell_of_pinned hv cv
  have sink := guarded.sunk c cell hc kind
  obtain ⟨es, hs⟩ := guarded.alive
  have at_c : (h.put c { cell with refs := cell.refs + 1 }).cell? c =
      some { cell with refs := cell.refs + 1 } := by
    rw [cell?_put hc, if_pos rfl]
  rw [share, modify_eq cv hc, release_eq cv]
  simp only [dropRef, at_c]
  rw [if_neg (Nat.succ_ne_zero _)]
  by_cases zero : cell.refs = 0
  · have back : ((h.put c { cell with refs := cell.refs + 1 }).put c { cell with refs := 0 }) =
        h.put c { cell with refs := 0 } := put_put _ _ _ _
    have at_c' : (h.put c { cell with refs := 0 }).cell? c = some { cell with refs := 0 } := by
      rw [cell?_put hc, if_pos rfl]
    have stays : (h.put c { cell with refs := 0 }).handOff cell.value c { cell with refs := 0 } =
        h.put c { cell with refs := 0 } := by
      rw [handOff, sink]
      simp only [queue?_put, hs]
      exact if_pos queued
    rw [if_pos (by omega), back, stays, reap_pinned at_c' (by change 0 < cell.pins; omega)]
    simp only [spill, Bool.false_eq_true, if_false, releaseAll]
    exact Recolored.put hc rfl zero.symm rfl rfl
  · rw [if_neg (by omega)]
    simp only [spill, Bool.false_eq_true, if_false, releaseAll, put_put]
    exact Recolored.put hc rfl (Nat.add_sub_cancel _ 1) rfl rfl

theorem dropPin_asleep (b : Balanced h own (v :: pin)) (guarded : Guarded s h)
    (hv : v.cell? = some c) (asleep : h.Asleep c) :
    Guarded s (h.dropPin v) ∧ (h.dropPin v).population < h.population ∧
      ∀ x, h.census x = (h.dropPin v).census x + if v.finalizableId? = some x then 1 else 0 := by
  obtain ⟨cell, hc, rfl, -, one⟩ := b.toCounted.cell_of_pinned (v := v) (by simp) hv
  have gone : h.unpin c = (true, h.erase c) :=
    (unpin_eq hc).trans (if_pos ⟨asleep.2 cell hc, Nat.le_of_eq one⟩)
  have rest := unpin_balanced b hv
  rw [gone] at rest
  rw [dropPin_eq h hv, gone]
  have spared : Spares s (h.erase c) _ := releaseAll_spares rest (guarded.erase hc)
  refine ⟨spared.guarded, ?_, fun x => ?_⟩
  · have less := population_erase hc
    have le := spared.population
    simp only at le ⊢
    omega
  · rw [spared.census x]
    exact census_erase hc x

theorem Guarded.entry_of_queued (guarded : Guarded s h) (hv : v ∈ h.queued) :
    ∃ e ∈ h.entries s, e.value = v := by
  obtain ⟨q, hq, hvq⟩ := List.mem_flatMap.1 hv
  cases q with
  | none => cases hvq
  | some es =>
    obtain ⟨t, ht⟩ := List.mem_iff_getElem?.1 hq
    have queue : h.queue? t = some es := by simpa [queue?, Option.join_eq_some_iff] using ht
    obtain rfl := guarded.only t es queue
    obtain ⟨e, he, rfl⟩ := List.mem_map.1 hvq
    exact ⟨e, by rw [entries_eq queue]; exact he, rfl⟩

/-- Where no value is owned from outside, the youngest one is referred to by nothing, so a queue
holds it. -/
theorem exists_asleep (b : Balanced h [] []) (guarded : Guarded s h)
    (some_value : 0 < h.population) : ∃ e ∈ h.entries s, h.refs e.value = 0 := by
  let alive (c : CellId) : Prop := (h.cell? c).isSome = true
  have found : ∃ c, alive c := by
    obtain ⟨o, ho, some_o⟩ := List.countP_pos_iff.1 some_value
    obtain ⟨c, at_c⟩ := List.mem_iff_getElem?.1 ho
    rw [contents_getElem?] at at_c
    obtain ⟨x, hx, rfl⟩ := Option.map_eq_some_iff.1 at_c
    obtain ⟨v, hv⟩ := Option.isSome_iff_exists.1 some_o
    obtain ⟨cell, rfl, -⟩ := Option.map_eq_some_iff.1 hv
    exact ⟨c, by simp [alive, cell?_eq_some.2 hx]⟩
  obtain ⟨c₀, some_c₀⟩ := found
  have below : ∀ c, alive c → c ≤ h.cells.size := by
    intro c hc
    obtain ⟨cell, at_c⟩ := Option.isSome_iff_exists.1 hc
    exact Nat.le_of_lt (cell?_lt at_c)
  let youngest := Nat.findGreatest alive h.cells.size
  have some_youngest : alive youngest := Nat.findGreatest_spec (below c₀ some_c₀) some_c₀
  have oldest : ∀ c, alive c → c ≤ youngest :=
    fun c hc => Nat.le_findGreatest (below c hc) hc
  obtain ⟨cell, at_c⟩ := Option.isSome_iff_exists.1 some_youngest
  have zero : cell.refs = 0 := by
    rw [b.refs _ cell at_c, List.nil_append]
    by_contra some_ref
    obtain ⟨v, hv, cv⟩ := exists_of_mentions (Nat.pos_of_ne_zero some_ref)
    obtain ⟨d, at_d, found, inside⟩ := exists_of_mem_inside hv
    have lt := b.older d at_d found v inside _ cv
    exact Nat.not_lt.2 (oldest d (by simp [alive, found])) lt
  have pinned : 0 < mentions youngest h.queued := by
    have kept := b.kept _ cell at_c
    rw [zero, b.pins _ cell at_c, List.nil_append] at kept
    omega
  obtain ⟨v, hv, cv⟩ := exists_of_mentions pinned
  obtain ⟨e, he, rfl⟩ := guarded.entry_of_queued hv
  exact ⟨e, he, by simp [refs, refs?, cellOf?, cv, at_c, zero]⟩

end Heap

namespace Workspace

open Heap

variable {s : SinkId} {past : List Happening} {origin fresh done : List Value} {w : Workspace}
  {p : Pass} {v : Value}

def DestroyEvent (x : UInt64) : PassEvent → Bool
  | .destroy v _ => v.finalizableId? == some x
  | _ => false

def DestroysId (x : UInt64) : Happening → Bool
  | .pass e => DestroyEvent x e
  | .restored _ => false

/-- A pass in which nobody does anything. -/
def idle : Deed := .drain (fun _ _ => {}) (fun _ _ => [])

theorem idle_finalizers (under : Pass.Underway s past origin p [] fresh [])
    (guarded : Guarded s p.workspace.heap) :
    ∃ heap, Recolored p.workspace.heap heap ∧
      (fresh.foldl (Pass.finalize fun _ _ => {}) p).workspace = { p.workspace with heap } ∧
      (fresh.foldl (Pass.finalize fun _ _ => {}) p).kept = p.kept ∧
      ∀ x, (fresh.foldl (Pass.finalize fun _ _ => {}) p).events.countP (DestroyEvent x) =
        p.events.countP (DestroyEvent x) := by
  induction fresh generalizing p with
  | nil => exact ⟨_, Recolored.refl _, rfl, rfl, fun _ => rfl⟩
  | cons v fresh ih =>
    have entry := (under.ledger.marked v (by simp)).2
    have first := borrow_recolored under.sound.balanced guarded
      (List.mem_append_right _ (mem_queued_of_entry entry)) (under.ledger.kind _ entry)
    have next : Pass.Underway s past origin (p.finalize (fun _ _ => {}) v) [] fresh [] :=
      under.finalize (by simp)
    obtain ⟨heap, rest, workspace, kept, events⟩ := ih next (first.guarded guarded)
    refine ⟨heap, first.trans rest, workspace, kept, fun x => (events x).trans ?_⟩
    change (p.events ++ [PassEvent.finalize v _]).countP (DestroyEvent x) = _
    rw [List.countP_append]
    rfl

/-- Each farewell takes one value away. -/
theorem idle_farewells (under : Pass.Underway s past origin p [] [] done)
    (kind : ∀ v ∈ done, v.isFinalizable = true) (guarded : Guarded s p.workspace.heap) :
    let q := done.foldl (Pass.destroy fun _ _ => []) p
    Guarded s q.workspace.heap ∧ q.workspace.slots = p.workspace.slots ∧
      q.workspace.pins = p.workspace.pins ∧ q.kept = p.kept ∧
      q.workspace.heap.population + done.length ≤ p.workspace.heap.population ∧
      ∀ x, q.workspace.heap.census x + q.events.countP (DestroyEvent x) =
        p.workspace.heap.census x + p.events.countP (DestroyEvent x) := by
  induction done generalizing p with
  | nil => exact ⟨guarded, rfl, rfl, rfl, Nat.le_refl _, fun _ => rfl⟩
  | cons v done ih =>
    obtain ⟨c, hc⟩ := Value.cell?_of_isFinalizable (kind v (by simp))
    have asleep := (under.ledger.finished v (by simp)).2.2 c hc
    have b : Balanced p.workspace.heap (p.workspace.owned ++ ([] ++ p.kept.map Prod.snd))
        (v :: (p.workspace.pinned ++ done)) :=
      under.sound.balanced.perm (List.Perm.refl _) List.perm_middle.symm
    obtain ⟨guarded', less, census⟩ := dropPin_asleep b guarded hc asleep
    have next : Pass.Underway s past origin (p.destroy (fun _ _ => []) v) [] [] done :=
      under.destroy (by simp)
    obtain ⟨guarded'', slots, pins, kept, fewer, tally⟩ :=
      ih next (fun u hu => kind u (List.mem_cons_of_mem _ hu)) guarded'
    refine ⟨guarded'', slots, pins, kept, ?_, fun x => (tally x).trans ?_⟩
    · change _ ≤ (p.workspace.heap.dropPin v).population at fewer
      rw [List.length_cons]
      simp only [List.foldl_cons]
      omega
    · change (p.workspace.heap.dropPin v).census x +
        (p.events ++ [PassEvent.destroy v _]).countP (DestroyEvent x) = _
      rw [List.countP_append, List.countP_singleton, census x]
      simp only [DestroyEvent, beq_iff_eq]
      omega

/-- A workspace in which nobody owns anything. -/
structure Ownerless (s : SinkId) (w : Workspace) : Prop where
  slots : w.slots = []
  pins : w.pins = []
  guarded : Guarded s w.heap

/-- An idle pass destroys something, if there is anything, and what it takes away it destroys. -/
theorem idle_pass (rest : Resting s past w) (free : Ownerless s w) :
    Ownerless s (idle.carryOut w).2 ∧
      (idle.carryOut w).2.heap.population ≤ w.heap.population - 1 ∧
      ∀ x, (idle.carryOut w).2.heap.census x + (idle.carryOut w).1.countP (DestroysId x) =
        w.heap.census x := by
  have under := Pass.Underway.opened rest.sound rest.ledger
  have marked : Spares s w.heap (Pass.opened s w).workspace.heap := free.guarded.putQueue _
  have marks : (Pass.opened s w).workspace.heap.entries s =
      (w.heap.entries s).map fun e => { e with finalized := true } := by
    obtain ⟨es, hs⟩ := rest.sound.alive
    exact entries_eq (beginPass_queue hs)
  obtain ⟨heap, recolored, workspace, kept, quiet⟩ := idle_finalizers under marked.guarded
  have finalized : Pass.Underway s past _
      ((w.heap.beginPass s).1.foldl (Pass.finalize fun _ _ => {}) (Pass.opened s w)) [] [] [] :=
    Pass.Underway.finalizeAll (by simp) under
  have outcome := drain_eq rest.sound.queue (fun _ _ => {}) (fun _ _ => [])
  generalize (w.heap.beginPass s).1.foldl (Pass.finalize fun _ _ => {}) (Pass.opened s w) = p
    at workspace kept quiet finalized outcome
  obtain rfl : heap = p.workspace.heap := by rw [workspace]
  have guarded := recolored.guarded marked.guarded
  have entries' := recolored.entries s
  rw [marks] at entries'
  have kind : ∀ v ∈ (p.workspace.heap.endPass s).1, v.isFinalizable = true := by
    intro v hv
    obtain ⟨e, he, rfl⟩ := List.mem_map.1 hv
    have mem := (List.mem_filter.1 he).1
    rw [entries'] at mem
    obtain ⟨e', he', rfl⟩ := List.mem_map.1 mem
    exact rest.ledger.kind e' he'
  obtain ⟨guarded', slots, pins, kept', fewer, tally⟩ :=
    idle_farewells finalized.turned kind (guarded.putQueue _).guarded
  have some_done : w.heap.population = 0 ∨ 0 < (p.workspace.heap.endPass s).1.length := by
    rcases Nat.eq_zero_or_pos w.heap.population with zero | pos
    · exact Or.inl zero
    · have balanced : Balanced p.workspace.heap [] [] := by
        have b := finalized.sound.balanced
        rw [kept, workspace] at b
        simpa [owned, pinned, Pass.opened, free.slots, free.pins] using b
      obtain ⟨e, he, zero⟩ := exists_asleep balanced guarded (by
        rw [population_of_contents recolored.contents]
        exact pos)
      refine Or.inr (List.length_pos_of_mem (a := e.value) (List.mem_map_of_mem
        (List.mem_filter.2 ⟨he, isDone_iff.2 ⟨?_, zero⟩⟩)))
      rw [entries'] at he
      obtain ⟨e', -, rfl⟩ := List.mem_map.1 he
      rfl
  simp only at outcome
  generalize (p.workspace.heap.endPass s).1.foldl (Pass.destroy fun _ _ => []) (p.turned s) = q
    at guarded' slots pins kept' fewer tally outcome
  have nothing_kept : q.kept = [] := kept'.trans kept
  have same : idle.carryOut w = (q.events.map .pass, q.workspace) := by
    simp only [idle, Deed.carryOut, outcome, nothing_kept]
    rfl
  rw [same]
  refine ⟨⟨slots.trans ?_, pins.trans ?_, guarded'⟩, ?_, fun x => ?_⟩
  · change p.workspace.slots = []
    rw [workspace]
    exact free.slots
  · change p.workspace.pins = []
    rw [workspace]
    exact free.pins
  · have before : (p.turned s).workspace.heap.population = w.heap.population :=
      population_of_contents recolored.contents
    simp only
    omega
  · have counted : (q.events.map Happening.pass).countP (DestroysId x) =
        q.events.countP (DestroyEvent x) := by
      rw [List.countP_map]
      rfl
    have before : (p.turned s).workspace.heap.census x = w.heap.census x :=
      census_of_contents recolored.contents x
    have none : (p.turned s).events.countP (DestroyEvent x) = 0 := quiet x
    rw [counted, tally x, before, none, Nat.add_zero]

theorem idle_passes (n : Nat) (rest : Resting s past w) (free : Ownerless s w)
    (few : w.heap.population ≤ n) (x : UInt64) :
    (carryOut w (List.replicate n idle)).1.countP (DestroysId x) = w.heap.census x := by
  have empty (h : Heap) (zero : h.population = 0) : h.census x = 0 := by
    refine List.countP_eq_zero.2 fun o ho => ?_
    have none := List.countP_eq_zero.1 zero o ho
    cases o with
    | none => simp
    | some v => simp at none
  induction n generalizing past w with
  | zero =>
    rw [empty _ (Nat.le_zero.1 few)]
    rfl
  | succ n ih =>
    have leaves : idle.LeavesQueue := by
      constructor <;> intro w v op hop <;> cases hop
    obtain ⟨free', less, tally⟩ := idle_pass rest free
    have next := ih (rest.carryOut_one leaves).1 free' (by omega)
    simp only [List.replicate_succ, carryOut]
    rw [List.countP_append, next, Nat.add_comm]
    exact tally x

end Workspace
end MooCore
