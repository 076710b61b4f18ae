import Mathlib
import MooCore.Builtin.Task
import MooCore.Proofs.Checkpoint.RoundTrip
import MooCore.Proofs.Finalization.Passes
import MooCore.Proofs.Scheduler.Completeness
import MooCore.Proofs.Scheduler.Register
/-!
# The last checkpoint

A server that ends writes its finalization queue into a last checkpoint and only then lets go of
what its tasks, its turns and its channel still hold. What goes into the queue by that comes too
late for the checkpoint: the queue that goes away in the end holds what was written and, behind it,
what was handed off since. After a wait that was not cut short there is nothing to let go of.
-/

set_option autoImplicit false
namespace MooCore

theorem Heap.releaseAll_append (h : Heap) (vs ws : List Value) :
    h.releaseAll (vs ++ ws) = (h.releaseAll vs).releaseAll ws := by
  induction vs generalizing h with
  | nil => rw [List.nil_append, releaseAll]
  | cons v vs ih => rw [List.cons_append, releaseAll, releaseAll, ih]

/-- The values that a task holds until its next step. -/
def Task.held (t : Task) : List Value := t.body.elim [] Body.held

namespace Scheduler
open Background Checkpoint

variable {s s' s'' : Scheduler} {vs ws : List Value}

/-- What is let go once the last checkpoint is written: what the tasks that are left hold, what
those whose turn it is were to be resumed with, and the results in the channel. -/
def leftover (s : Scheduler) : List Value :=
  (s.tasks.flatMap fun x => x.2.held) ++ Register.results s.ready ++
    s.channel.map Completion.result

/-! ## Letting go -/

/-- Some values were let go, in this order, and nothing else was done to values, turns and
results. -/
structure LetsGo (vs : List Value) (s s' : Scheduler) : Prop where
  heap : s'.heap = s.heap.releaseAll vs
  queue : s'.queue = s.queue
  directory : s'.directory = s.directory
  ready : s'.ready = s.ready
  channel : s'.channel = s.channel

def estate (s : Scheduler) := (s.heap, s.queue, s.directory, s.ready, s.channel)

theorem LetsGo.same (same : s'.estate = s.estate) : LetsGo [] s s' := by
  simp only [estate, Prod.mk.injEq] at same
  obtain ⟨heap, queue, directory, ready, channel⟩ := same
  exact ⟨by rw [heap, Heap.releaseAll], queue, directory, ready, channel⟩

theorem LetsGo.refl (s : Scheduler) : LetsGo [] s s := .same rfl

theorem LetsGo.trans (first : LetsGo vs s s') (second : LetsGo ws s' s'') :
    LetsGo (vs ++ ws) s s'' :=
  ⟨by rw [second.heap, first.heap, Heap.releaseAll_append], second.queue.trans first.queue,
    second.directory.trans first.directory, second.ready.trans first.ready,
    second.channel.trans first.channel⟩

theorem LetsGo.foldl {α : Type} {f : Scheduler → α → Scheduler} {held : α → List Value}
    (each : ∀ s x, LetsGo (held x) s (f s x)) (xs : List α) (s : Scheduler) :
    LetsGo (xs.flatMap held) s (xs.foldl f s) := by
  induction xs generalizing s with
  | nil => exact .refl s
  | cons x xs ih => exact (each s x).trans (ih _)

theorem releaseAll_letsGo (s : Scheduler) (vs : List Value) : LetsGo vs s (s.releaseAll vs) :=
  ⟨rfl, rfl, rfl, rfl, rfl⟩

theorem answer_letsGo (s : Scheduler) (task : TaskId) (fault : TaskFault) :
    LetsGo [] s (s.answer task (.error fault)) := by
  unfold answer
  split <;> exact .same rfl

theorem abandon_letsGo (s : Scheduler) (entry : TaskId × Task) :
    LetsGo entry.2.held s (s.abandon entry) := by
  unfold abandon
  dsimp only
  split
  · exact (s.answer_letsGo entry.1 .shuttingDown).trans (releaseAll_letsGo _ _)
  · exact s.releaseAll_letsGo _

theorem abandonAll_letsGo (s : Scheduler) :
    LetsGo (s.tasks.flatMap fun x => x.2.held) s s.abandonAll := by
  have emptied : LetsGo [] s { s with tasks := [] } := .same rfl
  exact emptied.trans (LetsGo.foldl abandon_letsGo s.tasks _)

theorem clearReady_letsGo (s : Scheduler) :
    LetsGo (Register.results s.ready) { s with ready := [] } s.clearReady := by
  have each (s : Scheduler) (entry : TaskId × Input) :
      LetsGo entry.2.result?.toList s (s.releaseInput entry.2) := by
    obtain ⟨id, _ | v⟩ := entry
    · exact .refl s
    · have alone : s.release v = s.releaseAll [v] := by
        simp only [release, releaseAll, onHost, Host.drop, Host.dropAll, Heap.releaseAll]
      exact (congrArg (LetsGo [v] s) alone).mpr (s.releaseAll_letsGo [v])
  have results : Register.results s.ready = s.ready.flatMap fun x => x.2.result?.toList :=
    List.filterMap_eq_flatMap_toList _ _
  rw [results]
  exact LetsGo.foldl each s.ready _

theorem failWaiting_letsGo (s : Scheduler) :
    LetsGo [] s s.failWaiting ∧ s.failWaiting.tasks = s.tasks := by
  have told (answers : List (Ticket × Checkpoint.Verdict)) (s : Scheduler) :
      LetsGo [] s (s.tellAll answers) ∧ (s.tellAll answers).tasks = s.tasks := by
    induction answers generalizing s with
    | nil => exact ⟨.refl s, rfl⟩
    | cons answer answers ih =>
      have first : LetsGo [] s (s.tell answer.1 answer.2) := .same rfl
      obtain ⟨rest, same⟩ := ih (s.tell answer.1 answer.2)
      exact ⟨first.trans rest, same⟩
  have failed (coordinator : Coordinator) : LetsGo [] s { s with coordinator } := .same rfl
  obtain ⟨rest, same⟩ := told (s.coordinator.failWaiting .shuttingDown).1
    { s with coordinator := (s.coordinator.failWaiting .shuttingDown).2 }
  exact ⟨(failed _).trans rest, same⟩

/-! ## Writing -/

theorem finalCheckpoint_keeps (s : Scheduler) :
    s.finalCheckpoint.2.heap = s.heap ∧ s.finalCheckpoint.2.queue = s.queue ∧
      s.finalCheckpoint.2.tasks = s.tasks ∧ s.finalCheckpoint.2.ready = s.ready ∧
      s.finalCheckpoint.2.channel = s.channel := by
  unfold finalCheckpoint checkpoint writeCheckpoint
  cases s.directory with
  | none => exact ⟨rfl, rfl, rfl, rfl, rfl⟩
  | some d =>
    dsimp only
    generalize d.write _ _ none = result
    obtain ⟨_ | name, d'⟩ := result <;> exact ⟨rfl, rfl, rfl, rfl, rfl⟩

theorem writeCheckpoint_eq (s : Scheduler) (reason : Reason) {d : Directory}
    (there : s.directory = some d) :
    let wrote := d.write (stampOf s.now.1) (lines reason s.gateway.live s.database s.entries) none
    (s.writeCheckpoint reason).1 = wrote.1.mapError .io ∧
      (s.writeCheckpoint reason).2.directory = some wrote.2 := by
  rw [writeCheckpoint, there]
  exact ⟨rfl, rfl⟩

theorem finalCheckpoint_written (s : Scheduler) {name : String}
    (named : s.finalCheckpoint.1 = some name) : ∃ d d', s.directory = some d ∧
      s.finalCheckpoint.2.directory = some d' ∧
      d.write (stampOf s.now.1) (lines .shutdown s.gateway.live s.database s.entries) none =
        (.ok name, d') := by
  cases there : s.directory with
  | none =>
    rw [finalCheckpoint, if_neg (by rw [there]; exact Bool.false_ne_true)] at named
    cases named
  | some d =>
    obtain ⟨result, directory⟩ := s.writeCheckpoint_eq .shutdown there
    rw [finalCheckpoint, if_pos (by rw [there]; rfl), checkpoint] at named ⊢
    generalize wrote : d.write _ _ none = outcome at result directory
    generalize s.writeCheckpoint .shutdown = written at named result directory ⊢
    obtain ⟨e | n, s'⟩ := written
    · cases named
    · obtain ⟨e | m, d'⟩ := outcome
      · cases result
      · obtain rfl := Except.ok.inj result
        obtain rfl := Option.some.inj named
        exact ⟨d, d', rfl, directory, wrote⟩

theorem conclude_heap (s : Scheduler) (timedOut : Bool) {q : SinkId} (queue : s.queue = some q) :
    (s.conclude timedOut).2.heap = (s.heap.releaseAll s.leftover).dropQueue q := by
  obtain ⟨heap, same, tasks, ready, channel⟩ := s.finalCheckpoint_keeps
  rw [conclude]
  dsimp only
  generalize s.finalCheckpoint.2 = s₁ at heap same tasks ready channel ⊢
  obtain ⟨failed, still⟩ := s₁.failWaiting_letsGo
  have given_up := s₁.failWaiting.abandonAll_letsGo
  have cleared := s₁.failWaiting.abandonAll.clearReady_letsGo
  generalize s₁.failWaiting = s₂ at failed still given_up cleared ⊢
  generalize s₂.abandonAll = s₃ at given_up cleared ⊢
  generalize s₃.clearReady = s₄ at cleared ⊢
  have left : s.leftover = (s₂.tasks.flatMap fun x => x.2.held) ++ Register.results s₃.ready ++
      s₄.channel.map Completion.result := by
    rw [leftover, cleared.channel, given_up.channel, given_up.ready, failed.channel, failed.ready,
      still, tasks, ready, channel]
  have all : s₄.heap.releaseAll (s₄.channel.map Completion.result) =
      s.heap.releaseAll s.leftover := by
    have before : s₂.heap = s.heap := by rw [failed.heap, Heap.releaseAll, heap]
    have between : s₄.heap = s₃.heap.releaseAll (Register.results s₃.ready) := cleared.heap
    rw [left, Heap.releaseAll_append, Heap.releaseAll_append, between, given_up.heap, before]
  have last : s₄.queue = some q := by
    have between : s₄.queue = s₃.queue := cleared.queue
    rw [between, given_up.queue, failed.queue, same, queue]
  rw [← all]
  simp only [onHost, Host.close, Host.workspace, Workspace.apply, Workspace.dropQueue,
    Host.stopListening, Host.dropAll, last]

theorem conclude_directory (s : Scheduler) (timedOut : Bool) :
    (s.conclude timedOut).2.directory = s.finalCheckpoint.2.directory := by
  rw [conclude]
  dsimp only
  generalize s.finalCheckpoint.2 = s₁
  have cleared : s₁.failWaiting.abandonAll.clearReady.directory =
      s₁.failWaiting.abandonAll.directory := (clearReady_letsGo _).directory
  rw [(abandonAll_letsGo _).directory, (failWaiting_letsGo _).1.directory] at cleared
  exact cleared

theorem Drain.Sound.leftover {start : Scheduler} {d : Drain} (sound : d.Sound start)
    (closed : d.stage = .closed) (in_time : d.timedOut = false) : d.server.leftover = [] := by
  obtain ⟨channel, ready⟩ := sound.settled (sound.last closed) in_time (closed ▸ rfl)
  rw [Scheduler.leftover, sound.none_left closed in_time, ready, channel]
  rfl

/-- If a server that ends names a last checkpoint, the checkpoint holds what was in the queue when
threads were no longer waited for, in its order and with its flags. The queue that goes away holds
that and, behind it, what was handed off for the first time since, of what was still to be let go;
after a wait that was not cut short that is nothing. -/
theorem last_checkpoint_holds (s : Scheduler) (timedOut : Bool) {name : String}
    (named : (s.conclude timedOut).1.checkpoint = some name) :
    (∃ d, (s.conclude timedOut).2.directory = some d ∧
      d.find name =
        .ok (.file (Text.lineBytes (lines .shutdown s.gateway.live s.database s.entries))) ∧
      ∀ db' found h h₁ t, s.gateway.live ≤ Text.wordLimit → s.entries.length ≤ Text.wordLimit →
        (∀ e ∈ s.entries, Storable e) → (∃ held, h.queue? t = some held) →
        s.database.ReadsBack db' t found h h₁ →
        ∃ h' new,
          d.load name t db' h =
            (.ok ⟨s.gateway.live, s.entries.length⟩, db'.load found, h') ∧
          h'.queue? t = some (h.entries t ++ new) ∧
          List.Forall₂ (Heap.CameBack t h') s.entries new) ∧
    (∀ q es, s.queue = some q → s.heap.queue? q = some es →
      (s.conclude timedOut).2.heap = (s.heap.releaseAll s.leftover).dropQueue q ∧
      ∃ later, (s.heap.releaseAll s.leftover).queue? q = some (s.entries ++ later) ∧
        (∀ e ∈ later, s.heap.Unclaimed e) ∧ (s.leftover = [] → later = [])) ∧
    ∀ c database (parser : CommandParser) clock (deeds : List Deed) (turns : List Drain.Turn),
      parser.Calm → database.Calm → (∀ deed ∈ deeds, deed.Calm) →
      (∀ turn ∈ turns, turn.Calm) →
      let d := ((ofConfig c database parser clock).carryOut deeds).wait turns
      d.server = s → d.stage = .closed → d.timedOut = false →
        s.gateway.longest < Gateway.handleLimit → s.leftover = [] := by
  refine ⟨?_, fun q es queue alive => ⟨s.conclude_heap timedOut queue, ?_⟩, ?_⟩
  · obtain ⟨d, d', -, directory, wrote⟩ := s.finalCheckpoint_written named
    have found := Directory.write_find wrote
    refine ⟨d', (s.conclude_directory timedOut).trans directory, found, ?_⟩
    intro db' section' h h₁ t small few storable alive readable
    have same : h₁.queue? t = h.queue? t := by rw [Heap.queue?, readable.queues, Heap.queue?]
    obtain ⟨new, taken⟩ := Heap.renewAll_takesIn (s := t) (by rwa [same])
      fun e he => (storable e he).renewable
    refine ⟨h₁.renewAll t s.entries, new, ?_, ?_, taken.back⟩
    · simp only [Directory.load, found]
      rw [restore_lines _ small readable few (fun e he => (storable e he).kind)
        fun e he => (storable e he).fits]
    · rw [taken.queue, Heap.entries, same, Heap.entries]
  · have entries : s.entries = es := by
      rw [Workspace.entries, queue]
      exact Heap.entries_eq alive
    have later : Heap.Later (fun _ => False) s.heap (s.heap.releaseAll s.leftover) :=
      Heap.releaseAll_later _ _
    obtain ⟨more, grown, unclaimed⟩ := later.queues q es alive
    refine ⟨more, entries ▸ grown, unclaimed, fun none_left => ?_⟩
    rw [none_left, Heap.releaseAll, alive] at grown
    exact List.self_eq_append_right.1 (Option.some.inj grown)
  · intro c database parser clock deeds turns parser_calm database_calm calm turns_calm d its closed
      in_time few
    subst its
    have longer : ((ofConfig c database parser clock).carryOut deeds).gateway.longest ≤
        d.server.gateway.longest :=
      Drain.run_longest { server := ((ofConfig c database parser clock).carryOut deeds).beginDrain }
        turns turns_calm
    have orderly := (carryOut_onward calm _).orderly trivial (longer.trans_lt few)
      (ofConfig_orderly c clock parser_calm database_calm)
    have whole : Whole (ofConfig c database parser clock) _ := carryOut_whole _ deeds
    have begun := Drain.Sound.beginDrain orderly (whole.rested rfl)
    exact (begun.run turns_calm few).leftover closed in_time

/-- A server with a checkpoint directory. -/
def saving : Scheduler :=
  ofConfig { checkpoint := { outputPath := some "state" } } (.placeholders 0 [] .succeed)
    Command.read 0

/-- The same with an object that waits for its finalizer. -/
def savingOne : Scheduler :=
  { saving with toWorkspace := saving.toWorkspace.discard (.shape (.anon 5 .system)) }

theorem savingOne_holds :
    ∃ name d h' new, (savingOne.conclude false).1.checkpoint = some name ∧
      (savingOne.conclude false).2.directory = some d ∧
      d.load name 0 (.placeholders 0 [] .absent) Directory.heldHeap =
        (.ok ⟨0, 1⟩, (Database.placeholders 0 [] .absent).load (some 0), h') ∧
      List.Forall₂ (Heap.CameBack 0 h') [⟨.anon 0 (some 0) 5 .system, false⟩] new ∧
      (savingOne.heap.releaseAll savingOne.leftover).queue? 0 =
        some [⟨.anon 0 (some 0) 5 .system, false⟩] := by
  have written : (savingOne.conclude false).1.checkpoint.isSome = true := by decide +kernel
  obtain ⟨name, named⟩ := Option.isSome_iff_exists.1 written
  have entries : savingOne.entries = [⟨.anon 0 (some 0) 5 .system, false⟩] := rfl
  obtain ⟨⟨d, directory, -, read⟩, kept, -⟩ := last_checkpoint_holds savingOne false named
  rw [entries] at read kept
  obtain ⟨h', new, loaded, -, back⟩ :=
    read (.placeholders 0 [] .absent) (some 0) Directory.heldHeap Directory.heldHeap 0 (by decide)
      (by decide)
      (fun e he => by
        obtain rfl := List.mem_singleton.1 he
        exact ⟨rfl, trivial, trivial, trivial⟩)
      ⟨_, rfl⟩ (Database.placeholders_readsBack (by decide) 0 [] [] .succeed .absent 0 _)
  obtain ⟨-, later, queue, -, none_left⟩ := kept 0 _ rfl rfl
  rw [none_left rfl] at queue
  exact ⟨name, d, h', new, named, directory, loaded, back, queue⟩

def keeping : Body where
  description := "keep"
  step
    | _, .start =>
      .effect .newId fun id => .effect (.make (.shape (.anon id .system))) fun v =>
        .background { title := "echo", argument := .int 7 } (fun _ v => .finish v) [v]
          fun _ _ => .complete .none
    | _, .resume v => .complete v

/-- A thread is not done in time. The object that its task keeps is handed to the queue when the
task is given up, and is not in the checkpoint that was written by then. -/
theorem keeping_tooLate :
    let s := saving.carryOut [.submit .system none keeping, .tick false]
    let written := (s.beginDrain.drain []).2.catchUp
    s.shutdown [] = written.conclude true ∧ (s.shutdown []).1.timedOut = true ∧
      (s.shutdown []).1.checkpoint.isSome = true ∧
      written.entries.length = 0 ∧
      ((written.heap.releaseAll written.leftover).entries 0).map
        (fun e => (e.value.finalizableId?, e.finalized)) = [(some 1, false)] := by
  intro s written
  have late : (s.beginDrain.drain []).1 = true := by decide +kernel
  have ends : s.shutdown [] = written.conclude (s.beginDrain.drain []).1 := rfl
  rw [late] at ends
  refine ⟨ends, ?_, ?_, ?_, ?_⟩ <;> decide +kernel

end Scheduler
end MooCore
