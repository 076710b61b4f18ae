import MooCore.Proofs.Scheduler.Roster
import MooCore.Scheduler.Client
import MooCore.Scheduler.Shutdown
/-!
# Order among the tasks

In an orderly scheduler the tasks, their turns and their errands agree, every waiter of a task that
is there is wanted, and every thread that is still to be started is calm. What a scheduler has taken
out of its queues to work on is in its hand.
-/

set_option autoImplicit false
namespace MooCore
open Background

/-! ## Calm tasks -/

/-- A step of a task whose callbacks make no requests of their own and kill nothing. -/
inductive Act.Calm : Act → Prop
  | complete (result : Value) : Calm (.complete result)
  | abort (message : String) : Calm (.abort message)
  | effect (e : Effect) (next : e.Answer → Act) (going_on : ∀ a, Calm (next a)) :
      Calm (.effect e next)
  | background (envelope : Envelope) (callback : Callback) (held : List Value)
      (next : Caller → Input → Act) (callback_calm : Callback.Calm callback)
      (going_on : ∀ caller input, Calm (next caller input)) :
      Calm (.background envelope callback held next)

def Body.Calm (b : Body) : Prop := ∀ caller input, (b.step caller input).Calm

def Draft.Calm (d : Draft) : Prop := ∀ vs, (d.body vs).Calm

def Message.Calm : Message → Prop
  | .submit _ _ body => body.Calm
  | .kill _ | .checkpoint | .shutdown _ | .waiters | .queueStats => True

def CommandParser.Calm (parser : CommandParser) : Prop :=
  ∀ line d, parser line = .ok d → d.Calm

def Database.Calm (d : Database) : Prop := ∀ v b, d.finalizer v = some b → b.Calm

namespace Scheduler

structure Calm (s : Scheduler) : Prop where
  bodies : ∀ x ∈ s.tasks, ∀ b, x.2.body = some b → b.Calm
  jobs : ∀ j ∈ s.jobs, ∀ r, j.stage = .ready r → Callback.Calm r.callback
  messages : ∀ m ∈ s.messages, m.2.Calm
  parser : CommandParser.Calm s.parser
  database : s.database.Calm

/-! ## Order -/

/-- What a scheduler works on: the turns and the errands that it has taken up, the task that it
steps, and the tasks that it is about to kill. -/
structure Hand where
  batch : List TaskId := []
  out : List Errand := []
  free : Option TaskId := none
  condemned : List TaskId := []

def turns (s : Scheduler) (hand : Hand) : List TaskId := hand.batch ++ s.ready.map Prod.fst

def abroad (s : Scheduler) (hand : Hand) : List Errand := s.errands ++ hand.out

structure Orderly (s : Scheduler) (hand : Hand) : Prop where
  kept : Kept s.toHost []
  listening : s.listening = true
  fine : ∀ e ∈ s.trace, e.isFine = true
  roster : Roster s.tasks s.lastTask (s.turns hand) (s.abroad hand) hand.free
  live : ∀ x ∈ s.ready, x.1 ∈ s.tasks.map Prod.fst
  wanted : ∀ w ∈ s.gateway.waiters,
    w.active = true ∨ w.task ∉ s.tasks.map Prod.fst ∨ w.task ∈ hand.condemned
  resumed : ∀ id v, (id, .resume v) ∈ s.ready →
    ∃ c, .taken c ∈ s.trace ∧ c.task = id ∧ c.result = v
  calm : s.Calm

/-- On some condition order is kept, as long as the handles do not run out. -/
structure Onward (p : Prop) (s : Scheduler) (hand : Hand) (s' : Scheduler) (hand' : Hand) :
    Prop where
  longest : s.gateway.longest ≤ s'.gateway.longest
  orderly : p → s'.gateway.longest < Gateway.handleLimit → s.Orderly hand → s'.Orderly hand'

variable {p : Prop} {s s' s'' : Scheduler} {hand hand' hand'' : Hand}

theorem Onward.refl (s : Scheduler) (hand : Hand) : Onward p s hand s hand :=
  ⟨Nat.le_refl _, fun _ _ orderly => orderly⟩

theorem Onward.trans (first : Onward p s hand s' hand') (second : Onward p s' hand' s'' hand'') :
    Onward p s hand s'' hand'' where
  longest := first.longest.trans second.longest
  orderly := fun given few orderly => second.orderly given few
    (first.orderly given (second.longest.trans_lt few) orderly)

theorem Onward.given (onward : Onward (p ∧ s.Orderly hand) s hand s' hand') :
    Onward p s hand s' hand' where
  longest := onward.longest
  orderly := fun given few orderly => onward.orderly ⟨given, orderly⟩ few orderly

theorem Onward.foldl {α : Type} {f : Scheduler → α → Scheduler} {xs : List α}
    (each : ∀ x ∈ xs, ∀ s, Onward p s hand (f s x) hand) (s : Scheduler) :
    Onward p s hand (xs.foldl f s) hand := by
  induction xs generalizing s with
  | nil => exact Onward.refl s hand
  | cons x xs ih =>
    exact (each x (List.mem_cons_self ..) s).trans
      (ih (fun y hy => each y (List.mem_cons_of_mem _ hy)) _)

/-- Nothing that order depends on has changed. -/
structure Alike (s s' : Scheduler) : Prop where
  host : Beside s.toHost s'.toHost
  tasks : s'.tasks = s.tasks
  ready : s'.ready = s.ready
  lastTask : s'.lastTask = s.lastTask
  messages : s'.messages = s.messages
  parser : s'.parser = s.parser
  finalizer : s'.database.finalizer = s.database.finalizer

theorem Alike.of_host {h : Host} (beside : Beside s.toHost h) : Alike s { s with toHost := h } :=
  ⟨beside, rfl, rfl, rfl, rfl, rfl, rfl⟩

theorem Alike.refl (s : Scheduler) : Alike s s := Alike.of_host (Beside.refl _)

theorem Alike.trans (first : Alike s s') (second : Alike s' s'') : Alike s s'' where
  host := first.host.trans second.host
  tasks := second.tasks.trans first.tasks
  ready := second.ready.trans first.ready
  lastTask := second.lastTask.trans first.lastTask
  messages := second.messages.trans first.messages
  parser := second.parser.trans first.parser
  finalizer := second.finalizer.trans first.finalizer

theorem Alike.orderly (alike : Alike s s') (orderly : s.Orderly hand) : s'.Orderly hand where
  kept := alike.host.kept orderly.kept
  listening := alike.host.listening.trans orderly.listening
  fine := alike.host.trace.all orderly.fine
  roster := by
    have errands : s'.errands = s.errands := alike.host.errands
    rw [alike.tasks, alike.lastTask, turns, abroad, alike.ready, errands]
    exact orderly.roster
  live := by
    rw [alike.ready, alike.tasks]
    exact orderly.live
  wanted := by
    rw [alike.host.waiters, alike.tasks]
    exact orderly.wanted
  resumed := fun id v hx => by
    rw [alike.ready] at hx
    obtain ⟨c, taken, its⟩ := orderly.resumed id v hx
    exact ⟨c, alike.host.trace.subset taken, its⟩
  calm := by
    obtain ⟨bodies, jobs, messages, parser, database⟩ := orderly.calm
    refine ⟨?_, ?_, ?_, ?_, ?_⟩
    · rwa [alike.tasks]
    · rwa [alike.host.jobs]
    · rwa [alike.messages]
    · rwa [alike.parser]
    · unfold Database.Calm
      rwa [alike.finalizer]

theorem Alike.onward (alike : Alike s s') (hand : Hand) : Onward p s hand s' hand :=
  ⟨alike.host.longest.ge, fun _ _ orderly => alike.orderly orderly⟩

/-! ## What leaves the order alone -/

theorem note_alike (s : Scheduler) {e : Event} (mute : e.mark? = none) (fine : e.isFine = true) :
    Alike s (s.note e) := Alike.of_host (s.toHost.note_beside mute fine)

theorem releaseAll_alike (s : Scheduler) (vs : List Value) : Alike s (s.releaseAll vs) :=
  Alike.of_host (s.toHost.dropAll_aside vs).beside

theorem release_alike (s : Scheduler) (v : Value) : Alike s (s.release v) :=
  Alike.of_host (s.toHost.drop_aside v).beside

theorem releaseInput_alike (s : Scheduler) (input : Input) : Alike s (s.releaseInput input) := by
  cases input with
  | start => exact Alike.refl s
  | resume v => exact s.release_alike v

theorem releaseOutcome_alike (s : Scheduler) (outcome : StepOutcome) :
    Alike s (s.releaseOutcome outcome) := by
  rcases outcome with (_ | v) | _ | _
  · exact Alike.refl s
  · exact s.release_alike v
  · exact Alike.refl s
  · exact Alike.refl s

def bearing (s : Scheduler) :=
  ((s.gateway.waiters, s.gateway.next, s.gateway.streak, s.gateway.longest),
    (s.made, s.trace, s.jobs, s.channel, s.listening),
    s.tasks, s.ready, s.lastTask, s.messages, s.parser, s.database.finalizer)

theorem Alike.of_same (same : s'.bearing = s.bearing) : Alike s s' := by
  simp only [bearing, Prod.mk.injEq] at same
  obtain ⟨⟨waiters, next, streak, longest⟩, ⟨made, trace, jobs, channel, listening⟩, tasks, ready,
    lastTask, messages, parser, finalizer⟩ := same
  exact ⟨Beside.of_same waiters next streak longest made trace jobs channel listening, tasks,
    ready, lastTask, messages, parser, finalizer⟩

theorem now_alike (s : Scheduler) : Alike s s.now.2 := .of_same rfl

theorem keep_alike (s : Scheduler) (v : Value) : Alike s (s.onHost (·.keep v)) := .of_same rfl

theorem heap_alike (s : Scheduler) (heap : Heap) : Alike s { s with heap } := .of_same rfl

theorem sessions_alike (s : Scheduler) (sessions : Sessions) : Alike s { s with sessions } :=
  .of_same rfl

theorem coordinator_alike (s : Scheduler) (coordinator : Checkpoint.Coordinator) :
    Alike s { s with coordinator } := .of_same rfl

theorem handles_alike (s : Scheduler) (handles : Named TaskId (Option TaskAnswer)) :
    Alike s { s with handles } := .of_same rfl

theorem stats_alike (s : Scheduler) (stats : SchedulerStats) : Alike s { s with stats } :=
  .of_same rfl

theorem sendLine_alike (s : Scheduler) (session : SessionId) (line : String) :
    Alike s (s.sendLine session line).2 := .of_same rfl

theorem prepare_alike (s : Scheduler) (d : Draft) : Alike s (s.prepare d).2 :=
  Alike.of_host (s.toHost.buildAll_aside d.recipes).beside

theorem perform_alike (s : Scheduler) (e : Effect) : Alike s (s.perform e).2 := by
  cases e with
  | kill task =>
    simp only [perform]
    split
    · exact .of_same rfl
    · exact Alike.refl s
  | release vs => exact s.releaseAll_alike vs
  | remark r => exact s.note_alike rfl rfl
  | acquire _ | login _ _ | send _ _ | push _ _ | disconnect _ | waiters | maxThreads
  | setMaxThreads _ | setThreading _ | requestCheckpoint _ | requestShutdown _ | owner _
  | isWizard _ | newId | make _ | tryMake _ | keep _ | workspace _ | queueStats =>
    exact .of_same rfl

theorem answer_alike (s : Scheduler) (task : TaskId) (result : TaskAnswer) :
    Alike s (s.answer task result) := by
  unfold answer
  split
  · exact (s.handles_alike _).trans (note_alike _ rfl rfl)
  · cases result with
    | ok v => exact s.release_alike v
    | error f => exact Alike.refl s

end Scheduler
end MooCore
