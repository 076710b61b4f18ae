import MooCore.Proofs.Finalization.PassOrder
import MooCore.Proofs.Finalization.Tended
/-!
# Finalizers that hand back what they are given

A finalizer may share the reference it is given, look inside its value, queue what it finds and let
go of everything again, under names of its own. As long as none of these is left when it is through
and it makes nothing, what a queue holds stays with the queue.
-/

set_option autoImplicit false
namespace MooCore.Workspace

open Heap

/-- Operations on references under some names only. They make nothing and pin nothing but what they
queue. -/
def Op.Handles (mine : List String) : Op → Prop
  | .share a b | .child a _ b => a ∈ mine ∧ b ∈ mine
  | .release a | .enqueue a => a ∈ mine
  | .make .. | .discard _ | .claim .. | .take _ | .revive .. | .dropPin _ | .dropQueue => False

/-- Nothing stands under the names. -/
def Unused (mine : List String) (w : Workspace) : Prop := ∀ n ∈ mine, w.slots.get? n = none

/-- A workspace when a finalizer that was called in it has done its work. -/
def Finalizing.work (f : Finalizing) (w : Workspace) (v : Value) : Workspace :=
  match f.holdAs with
  | some name => (w.store name v).run f.ops
  | none => w.run f.ops

/-- A finalizer that neither keeps nor makes values. -/
structure Finalizing.HandsBack (mine : List String) (f : Finalizing) (w : Workspace) (v : Value) :
    Prop where
  held : ∀ n, f.holdAs = some n → n ∈ mine
  handles : ∀ op ∈ f.ops, op.Handles mine
  keeps_none : f.keepAs = none
  left : Unused mine w → Unused mine (f.work w v)

/-- A pass whose finalizers and farewells neither keep nor make values. -/
def Deed.HandsBack (mine : List String) : Deed → Prop
  | .drain dispatch farewell =>
    (∀ w v, (dispatch w v).HandsBack mine w v) ∧ ∀ w v, ∀ op ∈ farewell w v, op.Handles mine
  | .act _ | .restore _ => False

variable {s : SinkId} {P : Value → Prop} {mine : List String} {w : Workspace} {p : Pass}
  {own pin pending fresh done origin : List Value} {past : List Happening} {v : Value}
  {dispatch : Dispatcher} {farewell : Farewell} {slots pins : Named String Value}

theorem Op.Handles.makesNone {op : Op} (handles : op.Handles mine) : op.MakesNone := by
  cases op <;> trivial

theorem Deed.HandsBack.drainsOnly {d : Deed} (hands : d.HandsBack mine) : d.DrainsOnly := by
  cases d with
  | act op => exact hands.elim
  | restore source => exact hands.elim
  | drain dispatch farewell =>
    exact ⟨fun w v op hop => ((hands.1 w v).handles op hop).makesNone,
      fun w v op hop => (hands.2 w v op hop).makesNone⟩

/-! ## Names of one's own -/

theorem run_unused {ops : List Op} (handles : ∀ op ∈ ops, op.Handles mine)
    (unused : Unused mine w) : w.run ops = w := by
  induction ops with
  | nil => rfl
  | cons op ops ih =>
    have nothing : (w.apply op).2 = w := by
      have own := handles op (by simp)
      cases op with
      | share a b => simp only [apply, Workspace.share, unused a own.1]
      | child a i b => simp only [apply, Workspace.child, unused a own.1, Option.bind_none]
      | release a => simp only [apply, Workspace.release, unused a own]
      | enqueue a => simp only [apply, Workspace.enqueue, unused a own]
      | make | discard | claim | take | revive | dropPin | dropQueue => exact own.elim
    change (w.apply op).2.run ops = w
    rw [nothing]
    exact ih fun o ho => handles o (List.mem_cons_of_mem _ ho)

/-- What stands under names: what stood there before, and under one's own names what belongs to the
queue. -/
def Lent (mine : List String) (P : Value → Prop) (slots slots' : Named String Value) : Prop :=
  ∀ x ∈ slots', x ∈ slots ∨ x.1 ∈ mine ∧ P x.2

theorem Lent.found {slots' : Named String Value} (lent : Lent mine P slots slots')
    (unused : ∀ n ∈ mine, slots.get? n = none) {name : String} (own : name ∈ mine)
    (found : slots'.get? name = some v) : P v := by
  rcases lent _ (Named.mem_of_get? found) with before | ⟨-, its⟩
  · exact absurd (List.mem_map_of_mem before) (Named.get?_eq_none.1 (unused name own))
  · exact its

theorem Lent.returned {slots' : Named String Value} (lent : Lent mine P slots slots')
    (unused : ∀ n ∈ mine, slots'.get? n = none) : slots' ⊆ slots := by
  intro x hx
  rcases lent x hx with before | ⟨own, -⟩
  · exact before
  · exact absurd (List.mem_map_of_mem hx) (Named.get?_eq_none.1 (unused x.1 own))

/-- A workspace in which a finalizer is at work. -/
structure AtWork (s : SinkId) (P : Value → Prop) (mine : List String)
    (slots pins : Named String Value) (own : List Value) (w : Workspace) : Prop where
  sound : Sound s w own []
  tended : Tended s P [] [] w.heap
  lent : Lent mine P slots w.slots
  pins : w.pins = pins

theorem storePins (w : Workspace) (name : String) (v : Value) : (w.store name v).pins = w.pins := by
  unfold store
  cases w.slots.get? name <;> rfl

theorem AtWork.store (domain : Domain s P) (unused : ∀ n ∈ mine, slots.get? n = none)
    (b : Balanced w.heap (v :: (w.owned ++ own)) (w.pinned ++ [])) (queue : w.queue = some s)
    (tended : Tended s P [] [] w.heap) (lent : Lent mine P slots w.slots) (same : w.pins = pins)
    {name : String} (mem : name ∈ mine) (hP : P v) :
    AtWork s P mine slots pins own (w.store name v) := by
  have stored : _ ∧ Later (fun _ => False) _ _ := store_sound b queue tended.alive name
  have moved := w.slots.set_values_perm name v
  have still : Lent mine P slots (w.slots.set name v) := by
    intro x hx
    rcases Named.mem_set hx with old | rfl
    · exact lent x old
    · exact Or.inr ⟨mem, hP⟩
  refine ⟨stored.1, ?_, ?_, (storePins w name v).trans same⟩
  · unfold Workspace.store
    cases found : w.slots.get? name with
    | none => exact tended
    | some old =>
      rw [found] at moved
      have apart : Balanced w.heap (old :: ((w.slots.set name v).map Prod.snd ++ own))
          (w.pinned ++ []) := b.perm (moved.append_right own) (List.Perm.refl _)
      exact (tended.release domain apart (List.forall_mem_nil _)
        (lent.found unused mem found)).1
  · unfold Workspace.store
    cases w.slots.get? name <;> exact still

theorem AtWork.shared (domain : Domain s P) (unused : ∀ n ∈ mine, slots.get? n = none)
    (work : AtWork s P mine slots pins own w) (mem : v ∈ w.owned ++ w.heap.inside) (hP : P v)
    {name : String} (own_name : name ∈ mine) :
    AtWork s P mine slots pins own ({ w with heap := w.heap.share v }.store name v) := by
  have shared : Balanced (w.heap.share v) (v :: (w.owned ++ own)) (w.pinned ++ []) := by
    refine share_balanced work.sound.balanced (List.mem_append_left _ ?_)
    simp only [List.mem_append] at mem ⊢
    tauto
  exact AtWork.store (w := { w with heap := w.heap.share v }) domain unused shared
    work.sound.queue (work.tended.share v) work.lent work.pins own_name hP

theorem AtWork.release (domain : Domain s P) (unused : ∀ n ∈ mine, slots.get? n = none)
    (work : AtWork s P mine slots pins own w) {name : String} (own_name : name ∈ mine) :
    AtWork s P mine slots pins own (w.apply (.release name)).2 := by
  have leaves : (Op.release name).LeavesQueue := trivial
  have sound := (apply_sound work.sound leaves).1
  simp only [Workspace.apply, Workspace.release] at sound ⊢
  split at sound
  · rename_i v found
    have apart : Balanced w.heap (v :: ((w.slots.erase name).map Prod.snd ++ own))
        (w.pinned ++ []) := work.sound.balanced.perm
      ((Named.erase_values_perm found).append_right own) (List.Perm.refl _)
    refine ⟨sound, (work.tended.release domain apart (List.forall_mem_nil _)
      (work.lent.found unused own_name found)).1, fun x hx => ?_, work.pins⟩
    exact work.lent x (List.mem_of_mem_eraseP hx)
  · exact work

theorem AtWork.enqueue (unused : ∀ n ∈ mine, slots.get? n = none)
    (work : AtWork s P mine slots pins own w) {name : String} (own_name : name ∈ mine) :
    AtWork s P mine slots pins own (w.apply (.enqueue name)).2 := by
  have leaves : (Op.enqueue name).LeavesQueue := trivial
  have sound := (apply_sound work.sound leaves).1
  simp only [Workspace.apply, Workspace.enqueue, work.sound.queue] at sound ⊢
  split at sound
  · rename_i v t found same
    obtain rfl : s = t := Option.some.inj same
    split at sound
    · rename_i heap granted
      refine ⟨sound, ?_, work.lent, work.pins⟩
      unfold Heap.enqueue at granted
      cases claimed : w.heap.claim v with
      | error e =>
        rw [claimed] at granted
        cases granted
      | ok mid =>
        rw [claimed] at granted
        cases granted
        obtain ⟨c, cell, cv, at_c, -, -, -, rfl⟩ := claim_ok work.sound.balanced
          (v := v) (by simp [mem_owned_of_get? found]) claimed
        exact work.tended.push at_c cv (work.lent.found unused own_name found) false
    · exact work
  · exact work

theorem AtWork.apply (domain : Domain s P) (unused : ∀ n ∈ mine, slots.get? n = none)
    (work : AtWork s P mine slots pins own w) {op : Op} (handles : op.Handles mine) :
    AtWork s P mine slots pins own (w.apply op).2 := by
  cases op with
  | share a b =>
    simp only [Workspace.apply, Workspace.share]
    split
    · rename_i u found
      exact work.shared domain unused (List.mem_append_left _ (mem_owned_of_get? found))
        (work.lent.found unused handles.1 found) handles.2
    · exact work
  | child a i b =>
    simp only [Workspace.apply, Workspace.child]
    split
    · rename_i u found
      obtain ⟨v, hv, hu⟩ := Option.bind_eq_some_iff.1 found
      exact work.shared domain unused
        (List.mem_append_right _ (child_mem_inside work.sound.fair hv hu))
        (domain.inner v (work.lent.found unused handles.1 hv) u (child?_mem hu)) handles.2
    · exact work
  | release a => exact work.release domain unused handles
  | enqueue a => exact work.enqueue unused handles
  | make | discard | claim | take | revive | dropPin | dropQueue => exact handles.elim

theorem AtWork.run (domain : Domain s P) (unused : ∀ n ∈ mine, slots.get? n = none)
    (work : AtWork s P mine slots pins own w) {ops : List Op}
    (handles : ∀ op ∈ ops, op.Handles mine) : AtWork s P mine slots pins own (w.run ops) := by
  induction ops generalizing w with
  | nil => exact work
  | cons op ops ih =>
    exact ih (work.apply domain unused (handles op (by simp)))
      fun o ho => handles o (List.mem_cons_of_mem _ ho)

/-! ## In a pass -/

/-- A pass in which whoever owned something still does, and nobody owns anything else. -/
structure Pass.Tending (s : SinkId) (P : Value → Prop) (slots pins : Named String Value)
    (pending : List Value) (p : Pass) : Prop where
  tended : Tended s P [] pending p.workspace.heap
  slots : p.workspace.slots ⊆ slots
  pins : p.workspace.pins = pins
  kept : p.kept = []

theorem Unused.of_subset (unused : ∀ n ∈ mine, slots.get? n = none) (fewer : w.slots ⊆ slots) :
    Unused mine w := fun n hn => Named.get?_eq_none.2 fun used =>
  Named.get?_eq_none.1 (unused n hn) (List.map_subset Prod.fst fewer used)

theorem fail_workspace (p : Pass) (v : Value) (f : Option FinalizerFailure) :
    (p.fail v f).workspace = p.workspace ∧ (p.fail v f).kept = p.kept := by
  cases f <;> exact ⟨rfl, rfl⟩

theorem surrender_workspace (p : Pass) (v : Value) (f : Option FinalizerFailure) :
    let q := (p.fail v f).surrender v none
    q.workspace = { p.workspace with heap := p.workspace.heap.release v } ∧ q.kept = p.kept := by
  cases f <;> exact ⟨rfl, rfl⟩

theorem finalize_held {name : String} (hold : (dispatch (p.called v) v).holdAs = some name) :
    (p.finalize dispatch v).workspace = (dispatch (p.called v) v).work (p.called v) v ∧
      (p.finalize dispatch v).kept = p.kept := by
  simp only [Pass.called] at hold
  simp only [Pass.finalize, Finalizing.work, Pass.called, hold]
  exact fail_workspace _ v _

theorem finalize_given_up (hold : (dispatch (p.called v) v).holdAs = none)
    (keep : (dispatch (p.called v) v).keepAs = none) :
    let w := (dispatch (p.called v) v).work (p.called v) v
    (p.finalize dispatch v).workspace = { w with heap := w.heap.release v } ∧
      (p.finalize dispatch v).kept = p.kept := by
  simp only [Pass.called] at hold keep
  simp only [Pass.finalize, Finalizing.work, Pass.called, hold, keep]
  exact surrender_workspace _ v _

namespace Pass.Tending

theorem finalize (domain : Domain s P) (unused : ∀ n ∈ mine, slots.get? n = none)
    (hands : ∀ w v, (dispatch w v).HandsBack mine w v)
    (under : Pass.Underway s past origin p [] (v :: fresh) [])
    (tending : Pass.Tending s P slots pins [] p) :
    Pass.Tending s P slots pins [] (p.finalize dispatch v) := by
  have called := under.call { p.stats with finalized := p.stats.finalized + 1 }
  have hP : P v :=
    (tending.tended.entered _ (under.ledger.marked v (by simp)).2).resolve_left List.not_mem_nil
  have shared : Tended s P [] [] (p.called v).heap := tending.tended.share v
  have free : Unused mine (p.called v) := Unused.of_subset unused tending.slots
  have b : Balanced (p.called v).heap (v :: ((p.called v).owned ++ []))
      ((p.called v).pinned ++ []) := by
    have b := called.sound.balanced
    rw [show p.kept = [] from tending.kept] at b
    exact b.perm List.perm_middle.symm (List.Perm.refl _)
  obtain ⟨held, handles, keeps_none, left⟩ := hands (p.called v) v
  have back := left free
  cases hold : (dispatch (p.called v) v).holdAs with
  | some name =>
    obtain ⟨workspace, kept⟩ := finalize_held hold
    rw [Finalizing.work, hold] at back workspace
    have stored := AtWork.store domain unused b called.sound.queue shared
      (fun x hx => Or.inl (tending.slots hx)) tending.pins (held name hold) hP
    have done := stored.run domain unused handles
    refine ⟨?_, ?_, ?_, kept.trans tending.kept⟩ <;> rw [workspace]
    · exact done.tended
    · exact done.lent.returned back
    · exact done.pins
  | none =>
    obtain ⟨workspace, kept⟩ := finalize_given_up hold keeps_none
    simp only [Finalizing.work, hold, run_unused handles free] at workspace
    refine ⟨?_, ?_, ?_, kept.trans tending.kept⟩ <;> rw [workspace]
    · exact (shared.release domain b (List.forall_mem_nil _) hP).1
    · exact tending.slots
    · exact tending.pins

theorem finalizeAll (domain : Domain s P) (unused : ∀ n ∈ mine, slots.get? n = none)
    (hands : ∀ w v, (dispatch w v).HandsBack mine w v)
    (under : Pass.Underway s past origin p [] fresh [])
    (tending : Pass.Tending s P slots pins [] p) :
    Pass.Tending s P slots pins [] (fresh.foldl (Pass.finalize dispatch) p) := by
  induction fresh generalizing p with
  | nil => exact tending
  | cons v fresh ih =>
    refine ih (under.finalize fun w v op hop => ?_) (finalize domain unused hands under tending)
    exact ((hands w v).handles op hop).makesNone.leavesQueue

theorem turned (alive : ∃ es, p.workspace.heap.queue? s = some es)
    (tending : Pass.Tending s P slots pins [] p) :
    Pass.Tending s P slots pins (p.workspace.heap.endPass s).1 (p.turned s) := by
  obtain ⟨es, hs⟩ := alive
  have queue := endPass_queue hs
  have entries : (p.turned s).workspace.heap.entries s = _ := entries_eq queue
  refine ⟨⟨⟨_, queue⟩, fun e he => ?_, fun c cell hc hP queued => ?_⟩, tending.slots, tending.pins,
    tending.kept⟩
  · rw [entries] at he
    exact tending.tended.entered e (List.mem_filter.1 he).1
  · have filed := tending.tended.filed c cell hc hP queued
    rw [List.append_nil] at filed
    have parts := List.filter_append_perm p.workspace.heap.isDone (p.workspace.heap.entries s)
    rw [entries, mentions_append, Nat.add_comm, Heap.endPass, ← mentions_append, ← List.map_append,
      mentions_perm (parts.map Entry.value)]
    exact filed

theorem destroy (domain : Domain s P) (unused : ∀ n ∈ mine, slots.get? n = none)
    (hands : ∀ w v, ∀ op ∈ farewell w v, op.Handles mine)
    (under : Pass.Underway s past origin p [] [] (v :: done)) (hP : P v)
    (kind : v.isFinalizable = true) (tending : Pass.Tending s P slots pins (v :: done) p) :
    Pass.Tending s P slots pins done (p.destroy farewell v) ∧
      Keeps (fun u => P u ∧ u ≠ v) p.workspace.heap (p.destroy farewell v).workspace.heap := by
  have idle : p.workspace.run (farewell p.workspace v) = p.workspace :=
    run_unused (hands p.workspace v) (Unused.of_subset unused tending.slots)
  obtain ⟨c, hc⟩ := Value.cell?_of_isFinalizable kind
  have b : Balanced p.workspace.heap (p.workspace.owned ++ ([] ++ p.kept.map Prod.snd))
      (v :: (p.workspace.pinned ++ done)) :=
    under.sound.balanced.perm (List.Perm.refl _) List.perm_middle.symm
  obtain ⟨tended, keeps⟩ := tending.tended.dropPin domain b
    (fun u hu => List.mem_append_right _ hu) hP hc
    ((under.ledger.finished v (by simp)).2.2 c hc)
  have same : (p.destroy farewell v).workspace =
      { p.workspace with heap := p.workspace.heap.dropPin v } := by
    rw [Pass.destroy]
    simp only [note, idle]
  refine ⟨⟨?_, ?_, ?_, tending.kept⟩, ?_⟩
  · rw [same]
    exact tended
  · rw [same]
    exact tending.slots
  · rw [same]
    exact tending.pins
  · rw [same]
    exact keeps

theorem destroyAll (domain : Domain s P) (unused : ∀ n ∈ mine, slots.get? n = none)
    (hands : ∀ w v, ∀ op ∈ farewell w v, op.Handles mine)
    (under : Pass.Underway s past origin p [] [] done) (hP : ∀ v ∈ done, P v)
    (kind : ∀ v ∈ done, v.isFinalizable = true) (tending : Pass.Tending s P slots pins done p) :
    let q := done.foldl (Pass.destroy farewell) p
    Pass.Tending s P slots pins [] q ∧
      Keeps (fun u => P u ∧ u ∉ done) p.workspace.heap q.workspace.heap := by
  induction done generalizing p with
  | nil => exact ⟨tending, Keeps.refl _⟩
  | cons v done ih =>
    obtain ⟨first, keeps⟩ :=
      destroy domain unused hands under (hP v (by simp)) (kind v (by simp)) tending
    have next := under.destroy fun w v op hop => (hands w v op hop).makesNone.leavesQueue
    obtain ⟨rest, keeps'⟩ := ih next (fun u hu => hP u (List.mem_cons_of_mem _ hu))
      (fun u hu => kind u (List.mem_cons_of_mem _ hu)) first
    refine ⟨rest, fun c cell hc ⟨hPc, out⟩ kind => ?_⟩
    rw [List.mem_cons, not_or] at out
    obtain ⟨cell', hc', value⟩ := keeps c cell hc ⟨hPc, out.1⟩ kind
    obtain ⟨cell'', hc'', value'⟩ :=
      keeps' c cell' hc' ⟨value ▸ hPc, value ▸ out.2⟩ (value ▸ kind)
    exact ⟨cell'', hc'', value'.trans value⟩

end Pass.Tending

end MooCore.Workspace
