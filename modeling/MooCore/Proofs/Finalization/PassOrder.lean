import MooCore.Proofs.Finalization.Creation
import MooCore.Proofs.Finalization.Dealings
/-!
# The order of a pass

A pass calls the finalizers of the entries that waited when it began, in their order. Then it
destroys, in their order, those of the entries it began with that nothing refers to any more. What
comes into the queue meanwhile stands behind the entries that were there, as it came.
-/

set_option autoImplicit false
namespace MooCore

def Entry.marked (e : Entry) : Entry := { e with finalized := true }

namespace Heap

variable {still : CellId → Prop} {h h' : Heap} {own pin : List Value} {v : Value} {c : CellId}

theorem Later.gone (later : Later still h h') (lt : c < h.cells.size) (none : h.cell? c = none) :
    h'.cell? c = Option.none := by
  cases at_c : h'.cell? c with
  | none => rfl
  | some cell' =>
    obtain ⟨cell, there, -⟩ := later.old c cell' lt at_c
    rw [none] at there
    cases there

theorem dropPin_gone (b : Balanced h own (v :: pin)) (hv : v.cell? = some c)
    (asleep : h.Asleep c) : (h.dropPin v).cell? c = none := by
  obtain ⟨cell, hc, -, -, one⟩ := b.toCounted.cell_of_pinned (v := v) (by simp) hv
  have gone : h.unpin c = (true, h.erase c) :=
    (unpin_eq hc).trans (if_pos ⟨asleep.2 cell hc, Nat.le_of_eq one⟩)
  have erased : (h.erase c).cell? c = none := by rw [cell?_erase hc, if_pos rfl]
  have rest : Later (fun _ => False) (h.erase c) (h.dropPin v) := by
    rw [dropPin_eq h hv, gone]
    exact releaseAll_later _ _
  exact rest.gone (by rw [size_erase]; exact cell?_lt hc) erased

theorem refs_share (hv : v.cell? = some c) (there : (h.cell? c).isSome = true) :
    (h.share v).refs v = h.refs v + 1 := by
  obtain ⟨cell, hc⟩ := Option.isSome_iff_exists.1 there
  have after : (h.put c { cell with refs := cell.refs + 1 }).cell? c =
      some { cell with refs := cell.refs + 1 } := by rw [cell?_put hc, if_pos rfl]
  rw [share, modify_eq hv hc]
  simp [refs, refs?, cellOf?, hv, hc, after]

end Heap

namespace Workspace

open Heap

/-- The values whose finalizers have not been started, in their order. -/
def waiting (s : SinkId) (w : Workspace) : List Value :=
  ((w.heap.entries s).filter fun e => !e.finalized).map Entry.value

/-- The calls that a pass makes for some values: what the dispatcher sees, and the value. -/
def Pass.calls (dispatch : Dispatcher) (p : Pass) : List Value → List (Workspace × Value)
  | [] => []
  | v :: vs => (p.called v, v) :: calls dispatch (p.finalize dispatch v) vs

/-- A pass when its finalizers are through. -/
def finalizers (dispatch : Dispatcher) (s : SinkId) (w : Workspace) : Pass :=
  (w.waiting s).foldl (Pass.finalize dispatch) (Pass.opened s w)

/-- Of the entries in the queue when a pass begins, those that nothing refers to when its finalizers
are through. -/
def gone (dispatch : Dispatcher) (s : SinkId) (w : Workspace) : List Entry :=
  (w.heap.entries s).filter fun e => (w.finalizers dispatch s).workspace.heap.refs e.value == 0

/-- The others. -/
def staying (dispatch : Dispatcher) (s : SinkId) (w : Workspace) : List Entry :=
  (w.heap.entries s).filter fun e => !((w.finalizers dispatch s).workspace.heap.refs e.value == 0)

/-- One pass over a queue, into which some entries come while it goes on. -/
structure OnePass (dispatch : Dispatcher) (farewell : Farewell) (s : SinkId) (w : Workspace)
    (arrivals : List Entry) : Prop where
  /-- each waiting value is called for once, in the order of the queue -/
  called : ((Pass.opened s w).calls dispatch (w.waiting s)).map Prod.snd = w.waiting s ∧
    (w.waiting s).Pairwise fun u v => u.cell? ≠ v.cell?
  /-- a finalizer gets a reference of its own -/
  counted : ∀ before v after, w.waiting s = before ++ v :: after →
    let p := before.foldl (Pass.finalize dispatch) (Pass.opened s w)
    (p.called v).heap.refs v = p.workspace.heap.refs v + 1
  events : (w.drainOnce dispatch farewell s).events =
    (((Pass.opened s w).calls dispatch (w.waiting s)).flatMap fun (w, v) =>
      callEvents dispatch w v) ++ (w.gone dispatch s).map fun e => .destroy e.value 0
  stats : (w.drainOnce dispatch farewell s).stats =
    { finalized := (w.waiting s).length
      failed := ((Pass.opened s w).calls dispatch (w.waiting s)).countP fun (w, v) =>
        (dispatch w v).failure.isSome
      freed := (w.gone dispatch s).length }
  /-- what was destroyed is not there any more -/
  freed : ∀ e ∈ w.gone dispatch s,
    (w.drainOnce dispatch farewell s).workspace.heap.cellOf? e.value = none
  entries : (w.drainOnce dispatch farewell s).workspace.heap.entries s =
    (w.staying dispatch s).map Entry.marked ++ arrivals
  length : ((w.drainOnce dispatch farewell s).workspace.heap.entries s).length +
    (w.gone dispatch s).length = (w.heap.entries s).length + arrivals.length
  /-- what came in is new and was left alone -/
  fresh : ∀ e ∈ arrivals, e.finalized = false ∧
    ∀ old ∈ w.heap.entries s, e.value.cell? ≠ old.value.cell?
  /-- after any of the finalizers, what has come in until then stands behind the old entries -/
  early : ∀ first rest, w.waiting s = first ++ rest → ∃ soFar, soFar <+: arrivals ∧
    (first.foldl (Pass.finalize dispatch) (Pass.opened s w)).workspace.heap.entries s =
      (w.heap.entries s).map Entry.marked ++ soFar
  /-- and so it does after any of the farewells, behind the entries that stay -/
  late : ∀ first rest, (w.gone dispatch s).map Entry.value = first ++ rest →
    ∃ soFar, soFar <+: arrivals ∧
      (first.foldl (Pass.destroy farewell)
        ((w.finalizers dispatch s).turned s)).workspace.heap.entries s =
          (w.staying dispatch s).map Entry.marked ++ soFar

variable {s : SinkId} {past : List Happening} {w : Workspace} {p : Pass}
  {origin fresh done : List Value} {v : Value} {dispatch : Dispatcher} {farewell : Farewell}

/-! ## What is recorded -/

theorem Pass.calls_values (dispatch : Dispatcher) (p : Pass) (vs : List Value) :
    (p.calls dispatch vs).map Prod.snd = vs := by
  induction vs generalizing p with
  | nil => rfl
  | cons v vs ih => rw [calls, List.map_cons, ih]

theorem Pass.fail_stats (p : Pass) (v : Value) (f : Option FinalizerFailure) :
    (p.fail v f).stats =
      { p.stats with failed := p.stats.failed + if f.isSome then 1 else 0 } := by
  cases f <;> rfl

theorem Pass.surrender_stats (p : Pass) (v : Value) (keep : Option String) :
    (p.surrender v keep).stats = p.stats := by
  cases keep <;> rfl

theorem Pass.finalize_stats (dispatch : Dispatcher) (p : Pass) (v : Value) :
    (p.finalize dispatch v).stats =
      { p.stats with
        finalized := p.stats.finalized + 1
        failed := p.stats.failed + if (dispatch (p.called v) v).failure.isSome then 1 else 0 } := by
  simp only [Pass.finalize]
  split
  · rw [Pass.fail_stats]
    rfl
  · rw [Pass.surrender_stats, Pass.fail_stats]
    rfl

theorem Pass.finalizeAll_events (dispatch : Dispatcher) (p : Pass) (vs : List Value) :
    (vs.foldl (Pass.finalize dispatch) p).events =
      p.events ++ (p.calls dispatch vs).flatMap fun (w, v) => callEvents dispatch w v := by
  induction vs generalizing p with
  | nil => exact (List.append_nil _).symm
  | cons v vs ih => rw [List.foldl_cons, ih, finalize_events, calls, List.flatMap_cons,
      List.append_assoc]

theorem Pass.finalizeAll_stats (dispatch : Dispatcher) (p : Pass) (vs : List Value) :
    (vs.foldl (Pass.finalize dispatch) p).stats =
      { p.stats with
        finalized := p.stats.finalized + vs.length
        failed := p.stats.failed +
          (p.calls dispatch vs).countP fun (w, v) => (dispatch w v).failure.isSome } := by
  induction vs generalizing p with
  | nil => rfl
  | cons v vs ih =>
    rw [List.foldl_cons, ih, Pass.finalize_stats, calls, List.countP_cons, List.length_cons]
    simp only [DrainStats.mk.injEq, and_true]
    omega

theorem Pass.destroyAll_stats (farewell : Farewell) (p : Pass) (vs : List Value) :
    (vs.foldl (Pass.destroy farewell) p).stats =
      { p.stats with freed := p.stats.freed + vs.length } := by
  induction vs generalizing p with
  | nil => rfl
  | cons v vs ih =>
    rw [List.foldl_cons, ih, List.length_cons, Nat.add_comm vs.length, ← Nat.add_assoc]
    rfl

namespace Pass.Underway

theorem called_refs (under : Pass.Underway s past origin p [] (v :: fresh) []) :
    (p.called v).heap.refs v = p.workspace.heap.refs v + 1 := by
  have marked := (under.ledger.marked v (by simp)).2
  obtain ⟨c, hc⟩ := Value.cell?_of_isFinalizable (under.ledger.kind _ marked)
  obtain ⟨cell, at_c, -⟩ := under.sound.balanced.toCounted.cell_of_pinned
    (List.mem_append_right _ (mem_queued_of_entry marked)) hc
  exact refs_share hc (Option.isSome_iff_exists.2 ⟨cell, at_c⟩)

theorem destroyAll_events (leave : ∀ w v, ∀ op ∈ farewell w v, op.LeavesQueue)
    (under : Pass.Underway s past origin p [] [] done) :
    (done.foldl (Pass.destroy farewell) p).events =
      p.events ++ done.map fun v => PassEvent.destroy v 0 := by
  induction done generalizing p with
  | nil => exact (List.append_nil _).symm
  | cons v done ih =>
    have zero := refs_of_asleep (under.ledger.finished v (by simp)).2.2
    rw [List.foldl_cons, ih (under.destroy leave), List.map_cons, List.append_cons]
    exact congrArg (p.events ++ [PassEvent.destroy v ·] ++ _) zero

/-! ## What comes in -/

theorem finalize_later (leave : ∀ w v, ∀ op ∈ (dispatch w v).ops, op.LeavesQueue)
    (under : Pass.Underway s past origin p [] (v :: fresh) []) :
    Later (Held []) p.workspace.heap (p.finalize dispatch v).workspace.heap := by
  have called := under.call { p.stats with finalized := p.stats.finalized + 1 }
  have shared : Later (Held []) p.workspace.heap (p.called v).heap :=
    share_later fun c _ held => absurd held (by simp [Held])
  have unfailed (q : Pass) (f : Option FinalizerFailure) :
      (q.fail v f).workspace = q.workspace := by
    cases f <;> rfl
  have let_go (q : Pass) (keep : Option String) :
      Later (Held []) q.workspace.heap (q.surrender v keep).workspace.heap := by
    cases keep with
    | some name => exact Later.refl _
    | none => exact release_later _ v
  refine shared.trans ?_
  simp only [Pass.finalize]
  split
  · rename_i name _
    have stored : Sound s ((p.called v).store name v) ([] ++ p.kept.map Prod.snd) [] ∧
        Later (Held []) (p.called v).heap ((p.called v).store name v).heap := store_sound
      (called.sound.balanced.perm List.perm_middle.symm (List.Perm.refl _)) called.sound.queue
      called.sound.alive name
    rw [unfailed]
    exact stored.2.trans (run_sound (leave (p.called v) v) stored.1).2
  · refine Later.trans ?_ (let_go _ _)
    rw [unfailed]
    exact (run_sound (leave (p.called v) v) called.sound).2

theorem finalizeSome_later {first : List Value}
    (leave : ∀ w v, ∀ op ∈ (dispatch w v).ops, op.LeavesQueue)
    (under : Pass.Underway s past origin p [] (first ++ fresh) []) :
    Later (Held []) p.workspace.heap
      (first.foldl (Pass.finalize dispatch) p).workspace.heap := by
  induction first generalizing p with
  | nil => exact Later.refl _
  | cons v first ih => exact (under.finalize_later leave).trans (ih (under.finalize leave))

theorem destroy_later (leave : ∀ w v, ∀ op ∈ farewell w v, op.LeavesQueue)
    (under : Pass.Underway s past origin p [] [] (v :: done)) :
    Later (fun _ => False) p.workspace.heap (p.destroy farewell v).workspace.heap := by
  obtain ⟨grown, old, claimed, -, queues⟩ := (run_sound (leave p.workspace v) under.sound).2
  exact Later.trans ⟨grown, old, claimed, fun _ never => never.elim, queues⟩ (dropPin_later _ v)

theorem destroySome_later {first : List Value}
    (leave : ∀ w v, ∀ op ∈ farewell w v, op.LeavesQueue)
    (under : Pass.Underway s past origin p [] [] (first ++ done)) :
    Later (fun _ => False) p.workspace.heap
      (first.foldl (Pass.destroy farewell) p).workspace.heap := by
  induction first generalizing p with
  | nil => exact Later.refl _
  | cons v first ih => exact (under.destroy_later leave).trans (ih (under.destroy leave))

theorem destroyAll_gone (leave : ∀ w v, ∀ op ∈ farewell w v, op.LeavesQueue)
    (under : Pass.Underway s past origin p [] [] done) {v : Value} (hv : v ∈ done) {c : CellId}
    (hc : v.cell? = some c) :
    (done.foldl (Pass.destroy farewell) p).workspace.heap.cell? c = none := by
  induction done generalizing p with
  | nil => cases hv
  | cons u done ih =>
    rcases List.mem_cons.1 hv with rfl | hv
    · obtain ⟨sound, ran⟩ := run_sound (leave p.workspace v) under.sound
      have asleep : (p.workspace.run (farewell p.workspace v)).heap.Asleep c :=
        ran.asleep c (mentions_pos (List.mem_cons_self ..) hc)
          ((under.ledger.finished v (by simp)).2.2 c hc)
      have dropped : (p.destroy farewell v).workspace.heap.cell? c = none :=
        dropPin_gone (sound.balanced.perm (List.Perm.refl _) List.perm_middle.symm) hc asleep
      have later : Later (fun _ => False) _ (p.destroy farewell v).workspace.heap :=
        dropPin_later _ v
      have next : Pass.Underway s past origin (p.destroy farewell v) [] [] (done ++ []) := by
        rw [List.append_nil]
        exact under.destroy leave
      have size : c < (p.destroy farewell v).workspace.heap.cells.size :=
        lt_of_lt_of_le asleep.1 later.grown
      have rest := destroySome_later leave next
      exact rest.gone size dropped
    · exact ih (under.destroy leave) hv

end Pass.Underway

/-! ## The whole pass -/

theorem drainOnce_eq (dispatch : Dispatcher) (farewell : Farewell) (s : SinkId) (w : Workspace) :
    w.drainOnce dispatch farewell s =
      ((w.finalizers dispatch s).workspace.heap.endPass s).1.foldl (Pass.destroy farewell)
        ((w.finalizers dispatch s).turned s) := rfl

theorem filter_isDone (h : Heap) (es : List Entry) {new : List Entry}
    (unmarked : ∀ e ∈ new, e.finalized = false) :
    (es.map Entry.marked ++ new).filter h.isDone =
        (es.filter fun e => h.refs e.value == 0).map Entry.marked ∧
      ((es.map Entry.marked ++ new).filter fun e => !h.isDone e) =
        (es.filter fun e => !(h.refs e.value == 0)).map Entry.marked ++ new := by
  have none_done : new.filter h.isDone = [] :=
    List.filter_eq_nil_iff.2 fun e he => by simp [isDone, unmarked e he]
  have all_stay : new.filter (fun e => !h.isDone e) = new :=
    List.filter_eq_self.2 fun e he => by simp [isDone, unmarked e he]
  rw [List.filter_append, List.filter_append, none_done, all_stay, List.append_nil,
    List.filter_map, List.filter_map]
  exact ⟨rfl, rfl⟩

theorem grows {f : Pass → Value → Pass} {vs : List Value} {still : CellId → Prop}
    (alive : ∃ es, p.workspace.heap.queue? s = some es)
    (later : ∀ first rest, vs = first ++ rest →
      Later still p.workspace.heap (first.foldl f p).workspace.heap ∧
      Later still (first.foldl f p).workspace.heap (vs.foldl f p).workspace.heap) :
    ∃ new, (vs.foldl f p).workspace.heap.entries s = p.workspace.heap.entries s ++ new ∧
      (∀ e ∈ new, p.workspace.heap.Unclaimed e) ∧
      ∀ first rest, vs = first ++ rest → ∃ soFar, soFar <+: new ∧
        (first.foldl f p).workspace.heap.entries s = p.workspace.heap.entries s ++ soFar := by
  obtain ⟨new, entries, unclaimed⟩ :=
    entries_of_later (later vs [] (List.append_nil vs).symm).1 alive
  refine ⟨new, entries, unclaimed, fun first rest cut => ?_⟩
  obtain ⟨until_here, from_here⟩ := later first rest cut
  obtain ⟨soFar, early, -⟩ := entries_of_later until_here alive
  obtain ⟨left, late, -⟩ := entries_of_later from_here (alive_of_later until_here alive)
  refine ⟨soFar, ⟨left, ?_⟩, early⟩
  rw [early, entries, List.append_assoc] at late
  exact (List.append_cancel_left late).symm

/-- What comes in while the finalizers are called. -/
theorem Resting.during (rest : Resting s past w)
    (leave : ∀ w v, ∀ op ∈ (dispatch w v).ops, op.LeavesQueue) :
    (∀ c, w.heap.Claimed c → (w.finalizers dispatch s).workspace.heap.Claimed c) ∧
    ∃ new, (w.finalizers dispatch s).workspace.heap.entries s =
        (w.heap.entries s).map Entry.marked ++ new ∧
      (∀ e ∈ new, w.heap.Unclaimed e) ∧
      ∀ first others, w.waiting s = first ++ others → ∃ soFar, soFar <+: new ∧
        (first.foldl (Pass.finalize dispatch) (Pass.opened s w)).workspace.heap.entries s =
          (w.heap.entries s).map Entry.marked ++ soFar := by
  have opened : Pass.Underway s past _ (Pass.opened s w) [] (w.waiting s) [] :=
    Pass.Underway.opened rest.sound rest.ledger
  have marked : (Pass.opened s w).workspace.heap.entries s =
      (w.heap.entries s).map Entry.marked := by
    obtain ⟨es, hs⟩ := rest.sound.alive
    exact entries_eq (beginPass_queue hs)
  rw [← marked]
  have halves : ∀ first others, w.waiting s = first ++ others →
      Later (Held []) (Pass.opened s w).workspace.heap
        (first.foldl (Pass.finalize dispatch) (Pass.opened s w)).workspace.heap ∧
      Later (Held []) (first.foldl (Pass.finalize dispatch) (Pass.opened s w)).workspace.heap
        (w.finalizers dispatch s).workspace.heap := by
    intro first others cut
    rw [cut] at opened
    refine ⟨opened.finalizeSome_later leave, ?_⟩
    rw [finalizers, cut, List.foldl_append]
    have begun := opened.finalizeSome leave
    rw [← List.append_nil others] at begun
    exact begun.finalizeSome_later leave
  -- marking the entries changes no cell
  have whole := (halves (w.waiting s) [] (List.append_nil _).symm).1
  obtain ⟨new, entries, unclaimed, early⟩ := grows opened.sound.alive halves
  exact ⟨whole.claimed, new, entries, unclaimed, early⟩

/-- What comes in while values are destroyed. -/
theorem Resting.afterwards (rest : Resting s past w)
    (leave : (Deed.drain dispatch farewell).LeavesQueue) :
    let p := w.finalizers dispatch s
    ∃ new, (w.drainOnce dispatch farewell s).workspace.heap.entries s =
        (p.turned s).workspace.heap.entries s ++ new ∧
      (∀ e ∈ new, p.workspace.heap.Unclaimed e) ∧
      (∀ v ∈ (p.workspace.heap.endPass s).1, ∀ c, v.cell? = some c →
        (w.drainOnce dispatch farewell s).workspace.heap.cell? c = none) ∧
      ∀ first others, (p.workspace.heap.endPass s).1 = first ++ others → ∃ soFar, soFar <+: new ∧
        (first.foldl (Pass.destroy farewell) (p.turned s)).workspace.heap.entries s =
          (p.turned s).workspace.heap.entries s ++ soFar := by
  intro p
  have through : Pass.Underway s past _ p [] [] [] :=
    (Pass.Underway.opened rest.sound rest.ledger).finalizeAll leave.1
  have turned := through.turned
  have halves : ∀ first others, (p.workspace.heap.endPass s).1 = first ++ others →
      Later (fun _ => False) (p.turned s).workspace.heap
        (first.foldl (Pass.destroy farewell) (p.turned s)).workspace.heap ∧
      Later (fun _ => False)
        (first.foldl (Pass.destroy farewell) (p.turned s)).workspace.heap
        ((p.workspace.heap.endPass s).1.foldl (Pass.destroy farewell)
          (p.turned s)).workspace.heap := by
    intro first others cut
    rw [cut] at turned
    refine ⟨turned.destroySome_later leave.2, ?_⟩
    rw [cut, List.foldl_append]
    have begun := turned.destroySome leave.2
    rw [← List.append_nil others] at begun
    exact begun.destroySome_later leave.2
  obtain ⟨new, entries, unclaimed, early⟩ := grows turned.sound.alive halves
  exact ⟨new, entries, unclaimed, fun v hv c hc => turned.destroyAll_gone leave.2 hv hc, early⟩

theorem Resting.parted (rest : Resting s past w)
    (leave : ∀ w v, ∀ op ∈ (dispatch w v).ops, op.LeavesQueue) :
    ((w.finalizers dispatch s).workspace.heap.endPass s).1 = (w.gone dispatch s).map Entry.value ∧
    ∀ came, (w.finalizers dispatch s).workspace.heap.entries s =
        (w.heap.entries s).map Entry.marked ++ came →
      ((w.finalizers dispatch s).turned s).workspace.heap.entries s =
        (w.staying dispatch s).map Entry.marked ++ came := by
  have through : Pass.Underway s past _ (w.finalizers dispatch s) [] [] [] :=
    (Pass.Underway.opened rest.sound rest.ledger).finalizeAll leave
  obtain ⟨es, hs⟩ := through.sound.alive
  obtain ⟨-, came, entries, unclaimed, -⟩ := rest.during leave
  obtain ⟨out, stay⟩ := filter_isDone (w.finalizers dispatch s).workspace.heap
    (w.heap.entries s) fun e he => (unclaimed e he).1
  rw [← entries] at out stay
  refine ⟨?_, fun came' same => ?_⟩
  · rw [Heap.endPass, out, List.map_map]
    rfl
  · rw [entries] at same
    rw [← List.append_cancel_left same]
    exact (entries_eq (endPass_queue hs)).trans stay

theorem Resting.onePass (rest : Resting s past w)
    (leave : (Deed.drain dispatch farewell).LeavesQueue) :
    ∃ arrivals, OnePass dispatch farewell s w arrivals := by
  obtain ⟨through, came, entries, unclaimed, early⟩ := rest.during leave.1
  obtain ⟨left, entries', unclaimed', freed, late⟩ := rest.afterwards leave
  have opened := Pass.Underway.opened rest.sound rest.ledger
  have turned : Pass.Underway s past _ ((w.finalizers dispatch s).turned s) [] []
      ((w.finalizers dispatch s).workspace.heap.endPass s).1 := (opened.finalizeAll leave.1).turned
  have claimed : ∀ e ∈ w.heap.entries s, ∀ c, e.value.cell? = some c → w.heap.Claimed c :=
    fun e he c hc => claimed_of_pinned rest.sound.balanced
      (List.mem_append_right _ (mem_queued_of_entry he)) hc
  obtain ⟨done, stays⟩ := rest.parted leave.1
  have stays := stays came entries
  rw [done] at freed late turned
  rw [stays] at entries' late
  have last : w.drainOnce dispatch farewell s =
      ((w.gone dispatch s).map Entry.value).foldl (Pass.destroy farewell)
        ((w.finalizers dispatch s).turned s) := by
    rw [drainOnce_eq, done]
  refine ⟨came ++ left, ⟨Pass.calls_values .., ?_⟩, ?_, ?_, ?_, ?_, ?_, ?_, ?_, ?_, ?_⟩
  · exact (rest.ledger.beginPass rest.sound.balanced rest.sound.alive).apart
  · intro before v after cut p
    have waits : (w.heap.beginPass s).1 = before ++ v :: after := cut
    rw [waits] at opened
    exact (opened.finalizeSome leave.1).called_refs
  · rw [last, turned.destroyAll_events leave.2, List.map_map]
    exact congrArg (· ++ _) (Pass.finalizeAll_events dispatch (Pass.opened s w) (w.waiting s))
  · rw [last, Pass.destroyAll_stats, List.length_map]
    have called : (w.finalizers dispatch s).stats = _ :=
      Pass.finalizeAll_stats dispatch (Pass.opened s w) (w.waiting s)
    simp only [Pass.turned, called, Pass.opened, Nat.zero_add]
  · intro e he
    cases hc : e.value.cell? with
    | none => simp [cellOf?, hc]
    | some c =>
      rw [cellOf?, hc, Option.bind_some]
      exact freed e.value (List.mem_map_of_mem he) c hc
  · rw [entries', List.append_assoc]
  · have parts := (List.filter_append_perm
      (fun e => (w.finalizers dispatch s).workspace.heap.refs e.value == 0)
      (w.heap.entries s)).length_eq
    rw [List.length_append] at parts
    rw [entries', List.length_append, List.length_append, List.length_append, List.length_map,
      gone, staying]
    omega
  · -- the values of the old entries were claimed before the pass, and claims are not taken back
    intro e he
    rcases List.mem_append.1 he with he | he
    · obtain ⟨flag, -, c, hc, free⟩ := unclaimed e he
      exact ⟨flag, fun old hold same => free (claimed old hold c (same ▸ hc))⟩
    · obtain ⟨flag, -, c, hc, free⟩ := unclaimed' e he
      exact ⟨flag, fun old hold same => free (through c (claimed old hold c (same ▸ hc)))⟩
  · intro first others cut
    obtain ⟨soFar, front, now⟩ := early first others cut
    exact ⟨soFar, front.trans (List.prefix_append ..), now⟩
  · intro first others cut
    obtain ⟨soFar, front, now⟩ := late first others cut
    refine ⟨came ++ soFar, ?_, now.trans (List.append_assoc ..)⟩
    exact (List.prefix_append_right_inj came).2 front

theorem OnePass.destroyed {arrivals : List Entry} (pass : OnePass dispatch farewell s w arrivals)
    {refs : Nat} (mem : .destroy v refs ∈ (w.drainOnce dispatch farewell s).events) :
    ∃ e ∈ w.gone dispatch s, e.value = v := by
  rw [pass.events] at mem
  rcases List.mem_append.1 mem with called | gone
  · obtain ⟨⟨w', u⟩, -, event⟩ := List.mem_flatMap.1 called
    rcases List.mem_cons.1 event with started | failed
    · cases started
    · obtain ⟨f, -, same⟩ := List.mem_map.1 failed
      cases same
  · obtain ⟨e, he, same⟩ := List.mem_map.1 gone
    cases same
    exact ⟨e, he, rfl⟩

/-! ## In every state of a queue -/

theorem carryOut_fair (fair : Fair w [] []) (right : (w.estate [] []).Sound) (ds : List Deed)
    (orderly : ∀ d ∈ ds, d.Orderly) :
    Fair (carryOut w ds).2 [] [] ∧ ((carryOut w ds).2.estate [] []).Sound := by
  induction ds generalizing w with
  | nil => exact ⟨fair, right⟩
  | cons d ds ih =>
    obtain ⟨now, run⟩ := deed_leads fair (orderly d (by simp)) right
    exact ih (deed_fair fair right (orderly d (by simp))) (run.sound right)
      fun d hd => orderly d (List.mem_cons_of_mem _ hd)

theorem start_right : (start.estate [] []).Sound :=
  (Estate.Step.openQueue {} [] [] []).sound Estate.start_sound

/-- Whatever was done to a workspace before, and whatever the finalizers and farewells of a pass do
but take entries out of the queue behind its back: there are entries that arrive during the pass,
and with these it goes in order. -/
theorem every_pass_in_order (deeds : List Deed) (orderly : ∀ d ∈ deeds, d.Orderly)
    (queue : (carryOut start deeds).2.queue = some s)
    (leave : (Deed.drain dispatch farewell).LeavesQueue) :
    ∃ arrivals, OnePass dispatch farewell s (carryOut start deeds).2 arrivals := by
  obtain ⟨fair, right⟩ := carryOut_fair start_sound.fair start_right deeds orderly
  have rest : Resting s _ (carryOut start deeds).2 :=
    ⟨fair.sound queue, Fair.ledger (fair.sound queue) right⟩
  exact rest.onePass leave

/-- A waif that holds an anonymous object, and another anonymous object, are let go of. -/
def twoLetGo : List Deed :=
  [.act (.make "w" (.waif 2 ⟨0⟩ ⟨0⟩ [.shape (.anon 1 ⟨0⟩)]) true),
    .act (.make "a" (.shape (.anon 3 ⟨0⟩)) true), .act (.release "w"), .act (.release "a")]

/-- The finalizer of the waif makes a value and drops it. The other one fails, and keeps its value
all the same. -/
def makingAndKeeping : Dispatcher := fun _ v =>
  if v.finalizableId? = some 2 then { ops := [.discard (.shape (.anon 4 ⟨0⟩))] }
  else { keepAs := some "k", failure := some ⟨"E_PERM"⟩ }

/-- Two entries arrive: what the finalizer dropped, and what was in the waif. -/
theorem twoLetGo_in_order :
    (∀ d ∈ twoLetGo, d.Orderly) ∧ (carryOut start twoLetGo).2.queue = some 0 ∧
      ∃ arrivals, OnePass makingAndKeeping (fun _ _ => []) 0 (carryOut start twoLetGo).2 arrivals ∧
        arrivals.map (fun e => e.value.finalizableId?) = [some 4, some 1] := by
  have orderly : ∀ d ∈ twoLetGo, d.Orderly := by simp [twoLetGo, Deed.Orderly]
  have leave : (Deed.drain makingAndKeeping fun _ _ => []).LeavesQueue := by
    refine ⟨fun w v op hop => ?_, by simp⟩
    unfold makingAndKeeping at hop
    split at hop
    · obtain rfl := List.mem_singleton.1 hop
      trivial
    · exact absurd hop List.not_mem_nil
  obtain ⟨arrivals, pass⟩ := every_pass_in_order (s := 0) twoLetGo orderly rfl leave
  refine ⟨orderly, rfl, arrivals, pass, ?_⟩
  have entries := congrArg (List.map fun e => e.value.finalizableId?) pass.entries
  rw [List.map_append] at entries
  have after : ((drainOnce makingAndKeeping (fun _ _ => []) 0
      (carryOut start twoLetGo).2).workspace.heap.entries 0).map
        (fun e => e.value.finalizableId?) = [some 3] ++ [some 4, some 1] := by decide +kernel
  have stays : (((carryOut start twoLetGo).2.staying makingAndKeeping 0).map Entry.marked).map
      (fun e => e.value.finalizableId?) = [some 3] := by decide +kernel
  rw [after, stays] at entries
  exact (List.append_cancel_left entries).symm

end Workspace
end MooCore
