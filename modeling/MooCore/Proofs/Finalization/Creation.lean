import MooCore.Proofs.Finalization.Passes
/-!
# Work that makes no values

Owners, finalizers and farewells that make no values leave the heap with no value that it did not
have before, however much they share and release.
-/

set_option autoImplicit false
namespace MooCore

namespace Heap

def NoneNew (h h' : Heap) : Prop :=
  ∀ c cell', h'.cell? c = some cell' → ∃ cell, h.cell? c = some cell ∧ cell'.value = cell.value

variable {h h' h'' : Heap}

theorem NoneNew.refl (h : Heap) : NoneNew h h := fun _ cell hc => ⟨cell, hc, rfl⟩

theorem NoneNew.trans (first : NoneNew h h') (second : NoneNew h' h'') : NoneNew h h'' := by
  intro c cell'' hc
  obtain ⟨cell', hc', same'⟩ := second c cell'' hc
  obtain ⟨cell, hc, same⟩ := first c cell' hc'
  exact ⟨cell, hc, same'.trans same⟩

theorem NoneNew.put {c : CellId} {old cell : Cell} (hc : h.cell? c = some old)
    (value : cell.value = old.value) : NoneNew h (h.put c cell) := by
  intro d at_d hd
  rw [cell?_put hc] at hd
  split at hd
  · rename_i e
    subst e
    cases hd
    exact ⟨old, hc, value⟩
  · exact ⟨at_d, hd, rfl⟩

theorem NoneNew.erase {c : CellId} {old : Cell} (hc : h.cell? c = some old) :
    NoneNew h (h.erase c) := by
  intro d at_d hd
  rw [cell?_erase hc] at hd
  split at hd
  · cases hd
  · exact ⟨at_d, hd, rfl⟩

theorem NoneNew.putQueue (h : Heap) (s : SinkId) (es : List Entry) :
    NoneNew h (h.putQueue s es) := NoneNew.refl h

theorem modify_noneNew (h : Heap) (v : Value) {f : Cell → Cell}
    (hf : ∀ cell, (f cell).value = cell.value) : NoneNew h (h.modify v f) := by
  unfold modify
  split
  · rename_i c _
    unfold adjust
    split
    · rename_i cell hc
      exact NoneNew.put hc (hf cell)
    · exact NoneNew.refl h
  · exact NoneNew.refl h

theorem share_noneNew (h : Heap) (v : Value) : NoneNew h (h.share v) :=
  modify_noneNew h v fun _ => rfl

theorem claim_noneNew {v : Value} (granted : h.claim v = .ok h') : NoneNew h h' := by
  unfold claim at granted
  split at granted
  · split at granted
    · cases granted
    · cases granted
      exact modify_noneNew h v fun _ => rfl
  · cases granted

theorem handOff_noneNew {v : Value} {c : CellId} {cell : Cell} (hc : h.cell? c = some cell) :
    NoneNew h (h.handOff v c cell) := by
  unfold handOff
  split
  · exact NoneNew.refl h
  · split
    · exact NoneNew.refl h
    · split
      · exact NoneNew.refl h
      · have pushed : NoneNew h (h.put c { cell with queued := true, pins := cell.pins + 1 }) :=
          NoneNew.put hc rfl
        exact pushed

theorem reap_noneNew (h : Heap) (c : CellId) : NoneNew h (h.reap c).2 := by
  unfold reap
  split
  · rename_i cell hc
    split
    · exact NoneNew.erase hc
    · exact NoneNew.refl h
  · exact NoneNew.refl h

theorem dropRef_noneNew (h : Heap) (v : Value) (c : CellId) : NoneNew h (h.dropRef v c).2 := by
  have same : NoneNew h h.overdraw := NoneNew.refl h
  unfold dropRef
  split
  · exact same
  · rename_i cell hc
    dsimp only
    split
    · exact same
    · split
      · have zeroed : NoneNew h (h.put c { cell with refs := 0 }) := NoneNew.put hc rfl
        have at_c : (h.put c { cell with refs := 0 }).cell? c = some { cell with refs := 0 } := by
          rw [cell?_put hc, if_pos rfl]
        exact (zeroed.trans (handOff_noneNew at_c)).trans (reap_noneNew _ c)
      · exact NoneNew.put hc rfl

theorem Falls.noneNew {vs : List Value} (falls : Falls h vs h') : NoneNew h h' := by
  induction falls with
  | done h => exact NoneNew.refl h
  | scalar _ _ ih => exact ih
  | drop _ _ ih => exact (dropRef_noneNew _ _ _).trans ih

theorem release_noneNew (h : Heap) (v : Value) : NoneNew h (h.release v) :=
  (release_falls h v).noneNew

theorem unpin_noneNew (h : Heap) (c : CellId) : NoneNew h (h.unpin c).2 := by
  cases hc : h.cell? c with
  | none =>
    rw [unpin_none hc]
    exact NoneNew.refl h
  | some cell =>
    rw [unpin_eq hc]
    split
    · exact NoneNew.erase hc
    · exact NoneNew.put hc rfl

theorem dropPin_noneNew (h : Heap) (v : Value) : NoneNew h (h.dropPin v) := by
  cases hv : v.cell? with
  | none =>
    simp only [dropPin, hv]
    exact NoneNew.refl h
  | some c =>
    rw [dropPin_eq h hv]
    exact (unpin_noneNew h c).trans (releaseAll_falls _ _).noneNew

end Heap

namespace Workspace

open Heap

/-- Operations that make no values, and take nothing out of the queue. -/
def Op.MakesNone : Op → Prop
  | .make .. | .discard _ | .take _ | .dropQueue => False
  | _ => True

/-- A pass of a dispatcher that makes no values. -/
def Deed.DrainsOnly : Deed → Prop
  | .drain dispatch farewell =>
    (∀ w v, ∀ op ∈ (dispatch w v).ops, op.MakesNone) ∧ ∀ w v, ∀ op ∈ farewell w v, op.MakesNone
  | .act _ | .restore _ => False

theorem Op.MakesNone.leavesQueue {op : Op} (none : op.MakesNone) : op.LeavesQueue := by
  cases op <;> trivial

theorem Deed.DrainsOnly.leavesQueue {d : Deed} (drains : d.DrainsOnly) : d.LeavesQueue := by
  cases d with
  | act op => exact drains.elim
  | drain dispatch farewell =>
    exact ⟨fun w v op hop => (drains.1 w v op hop).leavesQueue,
      fun w v op hop => (drains.2 w v op hop).leavesQueue⟩
  | restore source => trivial

variable {s : SinkId} {w : Workspace} {p : Pass} {dispatch : Dispatcher} {farewell : Farewell}

theorem store_noneNew (w : Workspace) (name : String) (v : Value) :
    NoneNew w.heap (w.store name v).heap := by
  unfold store
  cases w.slots.get? name with
  | none => exact NoneNew.refl _
  | some old => exact release_noneNew _ _

theorem storePin_noneNew (w : Workspace) (name : String) (v : Value) :
    NoneNew w.heap (w.storePin name v).heap := by
  unfold storePin
  cases w.pins.get? name with
  | none => exact NoneNew.refl _
  | some old => exact dropPin_noneNew _ _

theorem shared_noneNew (w : Workspace) (name : String) (v : Value) :
    NoneNew w.heap ({ w with heap := w.heap.share v }.store name v).heap :=
  (share_noneNew w.heap v).trans (store_noneNew { w with heap := w.heap.share v } name v)

theorem apply_noneNew {op : Op} (none : op.MakesNone) : NoneNew w.heap (w.apply op).2.heap := by
  cases op with
  | make _ _ _ | discard _ | take _ | dropQueue => exact none.elim
  | share source target =>
    simp only [apply, share]
    split
    · exact shared_noneNew w _ _
    · exact NoneNew.refl _
  | release slot =>
    simp only [apply, release]
    split
    · exact release_noneNew _ _
    · exact NoneNew.refl _
  | child slot place target =>
    simp only [apply, child]
    split
    · exact shared_noneNew w _ _
    · exact NoneNew.refl _
  | claim slot name =>
    simp only [apply, claim]
    split
    · exact NoneNew.refl _
    · split
      · rename_i heap granted
        exact (claim_noneNew granted).trans (storePin_noneNew { w with heap } _ _)
      · exact NoneNew.refl _
  | enqueue slot =>
    simp only [apply, enqueue]
    split
    · rename_i v s _ _
      split
      · rename_i heap granted
        unfold Heap.enqueue at granted
        cases claimed : w.heap.claim v with
        | error e =>
          rw [claimed] at granted
          cases granted
        | ok mid =>
          rw [claimed] at granted
          cases granted
          have made : NoneNew w.heap mid := claim_noneNew claimed
          exact made
      · exact NoneNew.refl _
    · exact NoneNew.refl _
  | revive name slot =>
    simp only [apply, revive]
    split
    · exact shared_noneNew w _ _
    · exact NoneNew.refl _
  | dropPin name =>
    simp only [apply, dropPin]
    split
    · exact dropPin_noneNew _ _
    · exact NoneNew.refl _

theorem run_noneNew {ops : List Op} (none : ∀ op ∈ ops, op.MakesNone) :
    NoneNew w.heap (w.run ops).heap := by
  induction ops generalizing w with
  | nil => exact NoneNew.refl _
  | cons op ops ih =>
    exact (apply_noneNew (none op (by simp))).trans
      (ih fun o ho => none o (List.mem_cons_of_mem _ ho))

theorem fail_heap (p : Pass) (v : Value) (f : Option FinalizerFailure) :
    (p.fail v f).workspace.heap = p.workspace.heap := by
  cases f <;> rfl

theorem surrender_noneNew (p : Pass) (v : Value) (keep : Option String) :
    NoneNew p.workspace.heap (p.surrender v keep).workspace.heap := by
  cases keep with
  | none => exact release_noneNew _ _
  | some name => exact NoneNew.refl _

theorem finalize_noneNew (none : ∀ w v, ∀ op ∈ (dispatch w v).ops, op.MakesNone) (v : Value) :
    NoneNew p.workspace.heap (p.finalize dispatch v).workspace.heap := by
  let w := { p.workspace with heap := p.workspace.heap.share v }
  have shared : NoneNew p.workspace.heap w.heap := share_noneNew _ v
  simp only [Pass.finalize]
  split
  · rename_i name _
    rw [fail_heap]
    exact (shared.trans (store_noneNew w name v)).trans (run_noneNew (none w v))
  · refine (shared.trans (run_noneNew (none w v))).trans ?_
    have gone := surrender_noneNew (Pass.fail
      { p with
        workspace := w.run (dispatch w v).ops
        stats := { p.stats with finalized := p.stats.finalized + 1 }
        events := p.events ++ [.finalize v (w.heap.refs v)] } v (dispatch w v).failure) v
      (dispatch w v).keepAs
    rw [fail_heap] at gone
    exact gone

theorem destroy_noneNew (none : ∀ w v, ∀ op ∈ farewell w v, op.MakesNone) (v : Value) :
    NoneNew p.workspace.heap (p.destroy farewell v).workspace.heap :=
  (run_noneNew (none p.workspace v)).trans (dropPin_noneNew _ _)

theorem foldl_noneNew {α : Type} {f : Pass → α → Pass} (xs : List α)
    (step : ∀ (p : Pass) x, NoneNew p.workspace.heap (f p x).workspace.heap) (p : Pass) :
    NoneNew p.workspace.heap (xs.foldl f p).workspace.heap := by
  induction xs generalizing p with
  | nil => exact NoneNew.refl _
  | cons x xs ih => exact (step p x).trans (ih (f p x))

theorem storeAll_noneNew (w : Workspace) (kept : List (String × Value)) :
    NoneNew w.heap (w.storeAll kept).heap := by
  induction kept generalizing w with
  | nil => exact NoneNew.refl _
  | cons nv kept ih => exact (store_noneNew w nv.1 nv.2).trans (ih _)

theorem drain_noneNew (queue : w.queue = some s)
    (drains : (Deed.drain dispatch farewell).DrainsOnly) :
    NoneNew w.heap (w.drain dispatch farewell).workspace.heap := by
  rw [drain_eq queue]
  refine NoneNew.trans ?_ (storeAll_noneNew _ _)
  refine NoneNew.trans ?_ (foldl_noneNew _ (fun p v => destroy_noneNew drains.2 v) _)
  exact foldl_noneNew _ (fun p v => finalize_noneNew drains.1 v) (Pass.opened s w)

/-! ## Whose finalizers a pass starts -/

theorem finalize_events (dispatch : Dispatcher) (p : Pass) (v : Value) :
    (p.finalize dispatch v).events = p.events ++ callEvents dispatch (p.called v) v := by
  simp only [Pass.finalize, callEvents]
  split
  · rw [Pass.fail_events]
    exact List.append_assoc _ _ _
  · rw [Pass.surrender_events, Pass.fail_events]
    exact List.append_assoc _ _ _

/-- A pass starts the finalizers of what is in the queue when it begins. -/
theorem finalize_of_drain (queue : w.queue = some s) {v : Value} {refs : Nat}
    (h : .finalize v refs ∈ (w.drain dispatch farewell).events) :
    v ∈ (w.heap.entries s).map Entry.value := by
  have started : ∀ (fresh : List Value) (p : Pass),
      .finalize v refs ∈ (fresh.foldl (Pass.finalize dispatch) p).events →
      .finalize v refs ∈ p.events ∨ v ∈ fresh := by
    intro fresh
    induction fresh with
    | nil => exact fun p mem => Or.inl mem
    | cons u fresh ih =>
      intro p mem
      rcases ih _ mem with mem | later
      · rw [finalize_events, List.mem_append, callEvents, List.mem_cons] at mem
        rcases mem with old | same | failed
        · exact Or.inl old
        · cases same
          exact Or.inr List.mem_cons_self
        · obtain ⟨_, -, same⟩ := List.mem_map.1 failed
          cases same
      · exact Or.inr (List.mem_cons_of_mem _ later)
  have destroyed : ∀ (done : List Value) (p : Pass),
      .finalize v refs ∈ (done.foldl (Pass.destroy farewell) p).events →
      .finalize v refs ∈ p.events := by
    intro done
    induction done with
    | nil => exact fun p mem => mem
    | cons u done ih =>
      intro p mem
      simpa [Pass.destroy, Pass.note] using ih _ mem
  rw [drain_eq queue] at h
  simp only at h
  rcases started _ _ (destroyed _ (Pass.turned s _) h) with old | fresh
  · cases old
  · obtain ⟨e, he, rfl⟩ := List.mem_map.1 fresh
    exact List.mem_map_of_mem (List.mem_filter.1 he).1

end Workspace
end MooCore
