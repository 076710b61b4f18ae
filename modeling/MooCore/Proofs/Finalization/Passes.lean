import MooCore.Proofs.Finalization.Ledger
/-!
# Passes

A pass keeps the ledger, whatever finalizers and farewells do, as long as they leave the queue to
it. What was in the queue when it began is in the queue when it ends, or was destroyed by it.
-/

set_option autoImplicit false
namespace MooCore.Workspace

open Heap

/-- A pass under way over a queue that held `origin`: it holds some references itself, and some values
are still to be finalized, or some still to be destroyed. -/
structure Pass.Underway (s : SinkId) (past : List Happening) (origin : List Value) (p : Pass)
    (own fresh done : List Value) : Prop where
  sound : Sound s p.workspace (own ++ p.kept.map Prod.snd) done
  ledger : Ledger s (past ++ p.events.map .pass) p.workspace.heap fresh done
  followed : ∀ u ∈ origin, u ∈ (p.workspace.heap.entries s).map Entry.value ∨ u ∈ done ∨
    ∃ refs, PassEvent.destroy u refs ∈ p.events

/-- A pass that has marked the entries, and nothing else. -/
def Pass.opened (s : SinkId) (w : Workspace) : Pass :=
  { workspace := { w with heap := (w.heap.beginPass s).2 } }

/-- A pass that has taken out what it is going to destroy. -/
def Pass.turned (s : SinkId) (p : Pass) : Pass :=
  { p with workspace := { p.workspace with heap := (p.workspace.heap.endPass s).2 } }

/-- What a dispatcher sees when the finalizer of a value is called: a fresh reference to it. -/
def Pass.called (p : Pass) (v : Value) : Workspace :=
  { p.workspace with heap := p.workspace.heap.share v }

/-- What a finalizer is recorded to have done: it was called, and perhaps failed. -/
def callEvents (dispatch : Dispatcher) (w : Workspace) (v : Value) : List PassEvent :=
  .finalize v (w.heap.refs v) :: (dispatch w v).failure.toList.map (PassEvent.failed v)

theorem Pass.fail_events (p : Pass) (v : Value) (f : Option FinalizerFailure) :
    (p.fail v f).events = p.events ++ f.toList.map (PassEvent.failed v) := by
  cases f with
  | none => exact (List.append_nil _).symm
  | some f => rfl

theorem Pass.surrender_events (p : Pass) (v : Value) (keep : Option String) :
    (p.surrender v keep).events = p.events := by
  cases keep <;> rfl

/-- Dispatchers and farewells that leave the queue to the pass. -/
def Deed.LeavesQueue : Deed → Prop
  | .act op => op.LeavesQueue
  | .drain dispatch farewell =>
    (∀ w v, ∀ op ∈ (dispatch w v).ops, op.LeavesQueue) ∧
      ∀ w v, ∀ op ∈ farewell w v, op.LeavesQueue
  | .restore _ => True

variable {s : SinkId} {past : List Happening} {w : Workspace} {p : Pass}
  {origin own pin fresh done : List Value} {v : Value} {dispatch : Dispatcher}
  {farewell : Farewell} {still : CellId → Prop}

theorem entries_of_later {h h' : Heap} (later : Later still h h')
    (alive : ∃ es, h.queue? s = some es) : ∃ new, h'.entries s = h.entries s ++ new ∧
      ∀ e ∈ new, h.Unclaimed e := by
  obtain ⟨es, hs⟩ := alive
  obtain ⟨new, hs', unclaimed⟩ := later.queues s es hs
  exact ⟨new, by rw [entries_eq hs', entries_eq hs], unclaimed⟩

theorem values_of_later {h h' : Heap} (later : Later still h h')
    (alive : ∃ es, h.queue? s = some es) {u : Value} (hu : u ∈ (h.entries s).map Entry.value) :
    u ∈ (h'.entries s).map Entry.value := by
  obtain ⟨new, entries, -⟩ := entries_of_later later alive
  rw [entries, List.map_append]
  exact List.mem_append_left _ hu

namespace Pass.Underway

theorem map_note (p : Pass) (e : PassEvent) :
    (p.note e).events.map Happening.pass = p.events.map .pass ++ [.pass e] := by
  simp [note]

theorem followed_of_later {h h' : Heap} {events events' : List PassEvent}
    (followed : ∀ u ∈ origin, u ∈ (h.entries s).map Entry.value ∨ u ∈ done ∨
      ∃ refs, PassEvent.destroy u refs ∈ events)
    (later : Later still h h') (alive : ∃ es, h.queue? s = some es)
    (more : ∀ e ∈ events, e ∈ events') :
    ∀ u ∈ origin, u ∈ (h'.entries s).map Entry.value ∨ u ∈ done ∨
      ∃ refs, PassEvent.destroy u refs ∈ events' := by
  intro u hu
  rcases followed u hu with queued | gone | ⟨refs, destroyed⟩
  · exact Or.inl (values_of_later later alive queued)
  · exact Or.inr (Or.inl gone)
  · exact Or.inr (Or.inr ⟨refs, more _ destroyed⟩)

theorem work (under : Pass.Underway s past origin p own fresh done) {w : Workspace}
    {own' : List Value} (sound : Sound s w (own' ++ p.kept.map Prod.snd) done)
    (later : Later (Held done) p.workspace.heap w.heap) :
    Pass.Underway s past origin { p with workspace := w } own' fresh done :=
  ⟨sound, under.ledger.later later under.sound.alive,
    followed_of_later under.followed later under.sound.alive fun _ he => he⟩

theorem runOps (under : Pass.Underway s past origin p own fresh done) {ops : List Op}
    (leave : ∀ op ∈ ops, op.LeavesQueue) :
    Pass.Underway s past origin { p with workspace := p.workspace.run ops } own fresh done :=
  under.work (run_sound leave under.sound).1 (run_sound leave under.sound).2

theorem call (under : Pass.Underway s past origin p [] (v :: fresh) []) (stats : DrainStats) :
    let w := { p.workspace with heap := p.workspace.heap.share v }
    Pass.Underway s past origin
      { { p with workspace := w, stats }.note (.finalize v (w.heap.refs v)) with
        workspace := w } [v] fresh [] := by
  have mem := mem_queued_of_entry (under.ledger.marked v (by simp)).2
  have shared := share_balanced under.sound.balanced (v := v) (by
    simp only [List.mem_append]
    exact Or.inr (Or.inr mem))
  have later : Later (Held []) p.workspace.heap (p.workspace.heap.share v) :=
    share_later fun c _ held => absurd held (by simp [Held])
  refine ⟨⟨shared.perm List.perm_middle (List.Perm.refl _), under.sound.queue,
    alive_of_later later under.sound.alive⟩, ?_, ?_⟩
  · change Ledger s (past ++ (p.note _).events.map .pass) _ _ _
    rw [map_note, ← List.append_assoc]
    exact (under.ledger.later later under.sound.alive).finalize shared _
  · exact followed_of_later under.followed later under.sound.alive
      fun _ he => List.mem_append_left _ he

theorem fail (under : Pass.Underway s past origin p own fresh done) {refs : Nat}
    (started : PassEvent.finalize v refs ∈ p.events) (f : Option FinalizerFailure) :
    Pass.Underway s past origin (p.fail v f) own fresh done := by
  cases f with
  | none => exact under
  | some f =>
    refine ⟨under.sound, ?_, ?_⟩
    · change Ledger s (past ++ (p.note (.failed v f)).events.map .pass) _ _ _
      rw [map_note, ← List.append_assoc]
      exact under.ledger.failed (List.mem_append_right _ (List.mem_map_of_mem started)) f
    · have same : Later (fun _ => False) p.workspace.heap p.workspace.heap := Later.refl _
      exact followed_of_later under.followed same under.sound.alive
        fun _ he => List.mem_append_left _ he

theorem surrender (under : Pass.Underway s past origin p [v] fresh done) (keep : Option String) :
    Pass.Underway s past origin (p.surrender v keep) [] fresh done := by
  cases keep with
  | none =>
    have later : Later (Held done) p.workspace.heap (p.workspace.heap.release v) :=
      release_later _ _
    refine under.work ⟨release_balanced ?_, under.sound.queue,
      alive_of_later later under.sound.alive⟩ later
    exact under.sound.balanced.perm List.perm_middle.symm (List.Perm.refl _)
  | some name =>
    refine ⟨⟨?_, under.sound.queue, under.sound.alive⟩, under.ledger, under.followed⟩
    refine under.sound.balanced.perm ?_ (List.Perm.refl _)
    refine List.Perm.append_left _ ?_
    simp [Pass.surrender]

theorem finalize (under : Pass.Underway s past origin p [] (v :: fresh) [])
    (leave : ∀ w v, ∀ op ∈ (dispatch w v).ops, op.LeavesQueue) :
    Pass.Underway s past origin (p.finalize dispatch v) [] fresh [] := by
  have called := under.call { p.stats with finalized := p.stats.finalized + 1 }
  let w := { p.workspace with heap := p.workspace.heap.share v }
  have started : PassEvent.finalize v (w.heap.refs v) ∈
      (p.note (.finalize v (w.heap.refs v))).events := by simp [note]
  simp only [Pass.finalize]
  split
  · rename_i name _
    have stored : Sound s (w.store name v) ([] ++ p.kept.map Prod.snd) [] ∧
        Later (Held []) w.heap (w.store name v).heap := store_sound
      (called.sound.balanced.perm List.perm_middle.symm (List.Perm.refl _)) called.sound.queue
      called.sound.alive name
    exact ((called.work stored.1 stored.2).runOps (leave w v)).fail started _
  · exact ((called.runOps (leave w v)).fail started _).surrender _

theorem finalizeSome {first : List Value}
    (leave : ∀ w v, ∀ op ∈ (dispatch w v).ops, op.LeavesQueue)
    (under : Pass.Underway s past origin p [] (first ++ fresh) []) :
    Pass.Underway s past origin (first.foldl (Pass.finalize dispatch) p) [] fresh [] := by
  induction first generalizing p with
  | nil => exact under
  | cons v first ih => exact ih (under.finalize leave)

theorem finalizeAll (leave : ∀ w v, ∀ op ∈ (dispatch w v).ops, op.LeavesQueue)
    (under : Pass.Underway s past origin p [] fresh []) :
    Pass.Underway s past origin (fresh.foldl (Pass.finalize dispatch) p) [] [] [] :=
  finalizeSome leave (by rwa [List.append_nil])

theorem destroy (under : Pass.Underway s past origin p [] [] (v :: done))
    (leave : ∀ w v, ∀ op ∈ farewell w v, op.LeavesQueue) :
    Pass.Underway s past origin (p.destroy farewell v) [] [] done := by
  let w := p.workspace.run (farewell p.workspace v)
  have ran := run_sound (leave p.workspace v) under.sound
  have weaker : Later (Held done) p.workspace.heap w.heap := by
    refine ⟨ran.2.grown, ran.2.old, ran.2.claimed, fun c held => ran.2.asleep c ?_, ran.2.queues⟩
    unfold Held at held ⊢
    rw [mentions_cons]
    omega
  have dropped : Later (Held done) w.heap (w.heap.dropPin v) := dropPin_later _ _
  have later := weaker.trans dropped
  refine ⟨⟨dropPin_balanced ?_, ran.1.queue, alive_of_later dropped ran.1.alive⟩, ?_, ?_⟩
  · exact ran.1.balanced.perm (List.Perm.refl _) List.perm_middle.symm
  · change Ledger s (past ++ (p.note _).events.map .pass) _ _ _
    rw [map_note, ← List.append_assoc]
    exact (under.ledger.destroy under.sound.balanced).later later under.sound.alive
  · intro u hu
    rcases under.followed u hu with queued | gone | ⟨refs, destroyed⟩
    · exact Or.inl (values_of_later later under.sound.alive queued)
    · rcases List.mem_cons.1 gone with rfl | gone
      · exact Or.inr (Or.inr ⟨_, List.mem_append_right _ (List.mem_singleton.2 rfl)⟩)
      · exact Or.inr (Or.inl gone)
    · exact Or.inr (Or.inr ⟨refs, List.mem_append_left _ destroyed⟩)

theorem destroySome {first : List Value} (leave : ∀ w v, ∀ op ∈ farewell w v, op.LeavesQueue)
    (under : Pass.Underway s past origin p [] [] (first ++ done)) :
    Pass.Underway s past origin (first.foldl (Pass.destroy farewell) p) [] [] done := by
  induction first generalizing p with
  | nil => exact under
  | cons v first ih => exact ih (under.destroy leave)

theorem destroyAll (leave : ∀ w v, ∀ op ∈ farewell w v, op.LeavesQueue)
    (under : Pass.Underway s past origin p [] [] done) :
    Pass.Underway s past origin (done.foldl (Pass.destroy farewell) p) [] [] [] :=
  destroySome leave (by rwa [List.append_nil])

theorem opened (sound : Sound s w [] []) (ledger : Ledger s past w.heap [] []) :
    Pass.Underway s past ((w.heap.entries s).map Entry.value) (Pass.opened s w) []
      (w.heap.beginPass s).1 [] := by
  obtain ⟨es, hs⟩ := sound.alive
  have values : ((w.heap.entries s).map fun e => { e with finalized := true }).map Entry.value =
      (w.heap.entries s).map Entry.value := by
    simp [Function.comp_def]
  have queue := beginPass_queue hs
  refine ⟨⟨sound.balanced.requeue rfl rfl (putQueue_moved hs ?_), sound.queue, _, queue⟩, ?_, ?_⟩
  · rw [values, entries_eq hs]
    exact List.Perm.refl _
  · simpa [Pass.opened] using ledger.beginPass sound.balanced ⟨es, hs⟩
  · intro u hu
    refine Or.inl ?_
    change u ∈ ((w.heap.beginPass s).2.entries s).map Entry.value
    rw [entries_eq queue, values]
    exact hu

theorem turned (under : Pass.Underway s past origin p [] [] []) :
    Pass.Underway s past origin (p.turned s) [] [] (p.workspace.heap.endPass s).1 := by
  obtain ⟨es, hs⟩ := under.sound.alive
  have queue := endPass_queue hs
  refine ⟨⟨under.sound.balanced.requeue rfl rfl (putQueue_moved hs ?_), under.sound.queue, _, queue⟩,
    under.ledger.endPass under.sound.balanced under.sound.alive, ?_⟩
  · have parts := List.filter_append_perm p.workspace.heap.isDone (p.workspace.heap.entries s)
    rw [List.append_assoc, ← entries_eq hs, List.append_nil]
    refine List.Perm.append_left _ ?_
    rw [Heap.endPass, ← List.map_append]
    exact parts.map _
  · intro u hu
    rcases under.followed u hu with queued | gone | destroyed
    · obtain ⟨e, he, rfl⟩ := List.mem_map.1 queued
      cases isDone : p.workspace.heap.isDone e with
      | true => exact Or.inr (Or.inl (List.mem_map_of_mem (List.mem_filter.2 ⟨he, isDone⟩)))
      | false =>
        refine Or.inl ?_
        change e.value ∈ ((p.workspace.heap.endPass s).2.entries s).map Entry.value
        rw [entries_eq queue]
        exact List.mem_map_of_mem (List.mem_filter.2 ⟨he, by simp [isDone]⟩)
    · cases gone
    · exact Or.inr (Or.inr destroyed)

theorem storeAll (kept : List (String × Value))
    (sound : Sound s w (kept.map Prod.snd) []) :
    Sound s (w.storeAll kept) [] [] ∧ Later (Held []) w.heap (w.storeAll kept).heap := by
  induction kept generalizing w with
  | nil => exact ⟨sound, Later.refl _⟩
  | cons nv kept ih =>
    obtain ⟨name, v⟩ := nv
    have first : Sound s _ (kept.map Prod.snd) [] ∧ Later (Held []) _ _ := store_sound
      (sound.balanced.perm List.perm_middle.symm (List.Perm.refl _)) sound.queue sound.alive name
    have rest := ih first.1
    exact ⟨rest.1, first.2.trans rest.2⟩

end Pass.Underway

theorem drain_eq (queue : w.queue = some s) (dispatch : Dispatcher) (farewell : Farewell) :
    w.drain dispatch farewell =
      let p := (w.heap.beginPass s).1.foldl (Pass.finalize dispatch) (Pass.opened s w)
      let q := (p.workspace.heap.endPass s).1.foldl (Pass.destroy farewell) (p.turned s)
      { q with workspace := q.workspace.storeAll q.kept } := by
  simp only [drain, queue]
  rfl

theorem drain_underway (sound : Sound s w [] []) (ledger : Ledger s past w.heap [] [])
    (leave : (Deed.drain dispatch farewell).LeavesQueue) :
    let p := w.drain dispatch farewell
    Sound s p.workspace [] [] ∧ Ledger s (past ++ p.events.map .pass) p.workspace.heap [] [] ∧
      ∀ e ∈ w.heap.entries s, e.value ∈ (p.workspace.heap.entries s).map Entry.value ∨
        ∃ refs, PassEvent.destroy e.value refs ∈ p.events := by
  have under := (((Pass.Underway.opened sound ledger).finalizeAll leave.1).turned).destroyAll leave.2
  have stored := Pass.Underway.storeAll _ under.sound
  rw [drain_eq sound.queue]
  refine ⟨stored.1, under.ledger.later stored.2 under.sound.alive, fun e he => ?_⟩
  rcases under.followed e.value (List.mem_map_of_mem he) with queued | gone | destroyed
  · exact Or.inl (values_of_later stored.2 under.sound.alive queued)
  · cases gone
  · exact Or.inr destroyed

end MooCore.Workspace
