import Mathlib
import MooCore.Builtin.Task
import MooCore.Proofs.Scheduler.Answers
import MooCore.Proofs.Scheduler.Drain
import MooCore.Proofs.Scheduler.Killing
import MooCore.Scheduler.Quiet
/-!
# Newcomers

A task comes in because a client submits it, because a line of input asks for it, or because a value
is to be finalized. Once the server is to shut down nobody is let in by the first way. Lines that
are handed out are still taken up, until threads are waited for; from then on nobody comes in at
all.
-/

set_option autoImplicit false
namespace MooCore
open Background

/-- What a task came in for. -/
inductive Way where
  | line (session : SessionId) (text : String)
  | finalizer (v : Value)

structure Newcomer where
  task : TaskId
  way : Way

namespace Register
open Trace

variable {r r' : Register} {es : List Event}

theorem Step.numbered (step : Step r es r') : r'.last = r.last + (creations es).length := by
  cases step with
  | submitted | hired | summoned => rfl
  | killed | ended => simp [Event.created?, (told_endings _ _ _ _).1]
  | picked _ input => cases input <;> rfl
  | rested | home | stepped | parked | missed | reentered | unclaimed | claimed | takenUp
  | detached => rfl

theorem Runs.numbered (runs : Runs r es r') : r'.last = r.last + (creations es).length := by
  induction runs with
  | nil => rfl
  | cons step _ ih => rw [ih, step.numbered, creations_append, List.length_append, Nat.add_assoc]

end Register

namespace Scheduler
open Trace

variable {s s' s'' : Scheduler} {p p' : Place}

/-! ## When nobody comes in -/

/-- Nobody came in, and a server that is to shut down still is. -/
structure Barred (s s' : Scheduler) : Prop where
  last : s'.lastTask = s.lastTask
  closing : s.isClosing = true → s'.isClosing = true
  unseen : creations s'.trace = creations s.trace

theorem Barred.same (last : s'.lastTask = s.lastTask) (closing : s'.isClosing = s.isClosing)
    (trace : s'.trace = s.trace) : Barred s s' :=
  ⟨last, fun before => closing.trans before, congrArg creations trace⟩

theorem Barred.refl (s : Scheduler) : Barred s s := .same rfl rfl rfl

theorem Barred.trans (first : Barred s s') (second : Barred s' s'') : Barred s s'' :=
  ⟨second.last.trans first.last, fun before => second.closing (first.closing before),
    second.unseen.trans first.unseen⟩

theorem Barred.of_enters (enters : s.Enters p s' p') (last : s'.lastTask = s.lastTask)
    (closing : s.isClosing = true → s'.isClosing = true) : Barred s s' := by
  refine ⟨last, closing, ?_⟩
  obtain ⟨es, trace, runs⟩ := enters
  have numbered : s'.lastTask = s.lastTask + (creations (es.filter Event.isOwn)).length :=
    runs.numbered
  have none : creations es = [] := by
    rw [← creations_own]
    exact List.eq_nil_of_length_eq_zero (Nat.left_eq_add.1 (last.symm.trans numbered))
  rw [trace, creations_append, none, List.append_nil]

theorem Barred.of_host {h : Host} (apart : Apart s.toHost h) : Barred s { s with toHost := h } :=
  .of_enters (.of_host (p := {}) apart) rfl id

theorem Barred.foldl {α : Type} {f : Scheduler → α → Scheduler} (each : ∀ s x, Barred s (f s x))
    (xs : List α) (s : Scheduler) : Barred s (xs.foldl f s) := by
  induction xs generalizing s with
  | nil => exact .refl s
  | cons x xs ih => exact (each s x).trans (ih _)

theorem note_barred (s : Scheduler) {e : Event} (other : e.created? = none) :
    Barred s (s.note e) := by
  refine ⟨rfl, id, ?_⟩
  rw [show (s.note e).trace = s.trace ++ [e] from rfl, creations_append, creations_cons, other]
  exact List.append_nil _

theorem release_barred (s : Scheduler) (v : Value) : Barred s (s.release v) := .same rfl rfl rfl

theorem releaseAll_barred (s : Scheduler) (vs : List Value) : Barred s (s.releaseAll vs) :=
  .same rfl rfl rfl

theorem releaseInput_barred (s : Scheduler) (input : Input) : Barred s (s.releaseInput input) := by
  cases input with
  | start => exact .refl s
  | resume v => exact s.release_barred v

theorem releaseOutcome_barred (s : Scheduler) (outcome : StepOutcome) :
    Barred s (s.releaseOutcome outcome) := by
  rcases outcome with (_ | v) | _ | _
  · exact .refl s
  · exact s.release_barred v
  · exact .refl s
  · exact .refl s

theorem perform_barred (s : Scheduler) (e : Effect) : Barred s (s.perform e).2 := by
  refine .of_enters (p := {}) (s.perform_enters {} e) (s.perform_alike e).lastTask fun closing => ?_
  cases e with
  | requestShutdown farewell => exact Bool.or_true _
  | requestCheckpoint reason =>
    simp only [perform, Checkpoint.Coordinator.request]
    split <;> exact closing
  | kill task =>
    simp only [perform]
    split <;> exact closing
  | acquire _ | login _ _ | send _ _ | push _ _ | disconnect _ | waiters | maxThreads
  | setMaxThreads _ | setThreading _ | owner _ | isWizard _ | newId | make _ | tryMake _ | keep _
  | workspace _ | queueStats | release _ | remark _ => exact closing

/-! ## Steps -/

def door (s : Scheduler) := (s.lastTask, s.coordinator, s.draining)

theorem Barred.of_door (enters : s.Enters p s' p') (same : s'.door = s.door) : Barred s s' := by
  simp only [door, Prod.mk.injEq] at same
  obtain ⟨last, coordinator, draining⟩ := same
  refine .of_enters enters last fun closing => ?_
  rwa [isClosing, coordinator, draining]

theorem answer_door (s : Scheduler) (task : TaskId) (result : TaskAnswer) :
    (s.answer task result).door = s.door := by
  unfold answer
  repeat' split
  all_goals rfl

theorem kill_door (s : Scheduler) (task : TaskId) : (s.kill task).2.door = s.door := by
  have same := s.kill_others task
  simp only [others, Prod.mk.injEq] at same
  simp only [door, same]

theorem kill_barred (s : Scheduler) (task : TaskId) : Barred s (s.kill task).2 :=
  .of_door (s.kill_enters {} task) (s.kill_door task)

theorem killAsked_barred (s : Scheduler) : Barred s s.killAsked := by
  have rested : Barred s { s with asked := [] } := .same rfl rfl rfl
  exact rested.trans (Barred.foldl (fun s task => s.kill_barred task) s.asked _)

theorem killAll_barred (tasks : List TaskId) (s : Scheduler) : Barred s (s.killAll tasks).2 := by
  induction tasks generalizing s with
  | nil => exact .refl s
  | cons task tasks ih =>
    have first := s.kill_barred task
    rw [killAll]
    split
    all_goals
      rename_i killed
      rw [killed] at first
      exact first.trans (ih _)

theorem complete_door (s : Scheduler) (task : TaskId) (result : Except String Value) :
    (s.complete task result).door = s.door := by
  unfold complete
  split
  · rfl
  · dsimp only
    cases result <;> dsimp only <;> repeat' split
    all_goals first | rfl | exact answer_door _ _ _

theorem finish_barred (s : Scheduler) (task : TaskId) (result : Except String Value) :
    Barred s (s.finish task result).2 := by
  have completed : Barred s (s.complete task result) :=
    .of_door (s.complete_enters { under := some task } task result rfl) (s.complete_door task result)
  exact completed.trans (killAsked_barred _)

theorem pick_barred (s : Scheduler) (task : TaskId) (input : Input) :
    Barred s (s.pick task input).2 := by
  refine .of_door (s.pick_enters { batch := [(task, input)] } task input [] rfl rfl) ?_
  unfold pick
  cases input <;> repeat' split
  all_goals rfl

theorem move_barred (act : Act) (caller : Caller) (s : Scheduler) :
    Barred s (act.move caller s).2 := by
  cases act with
  | complete v => exact s.finish_barred caller.task (.ok v)
  | abort message => exact s.finish_barred caller.task (.error message)
  | effect e next => exact s.perform_barred e
  | background envelope callback held next =>
    rw [Act.move]
    dsimp only
    have put : Barred s (s.putBack caller.task held next) := .same rfl rfl rfl
    generalize s.putBack caller.task held next = s' at put ⊢
    have asked : Barred s' (s'.askHost (·.suspend caller.task { envelope with callback })).2 :=
      .of_host (s'.toHost.suspend_apart _ _)
    generalize s'.askHost (·.suspend caller.task { envelope with callback }) = answer at asked ⊢
    obtain ⟨response, s''⟩ := answer
    have plain : Barred s'' (s''.immediate? response).2 := by
      rcases response with _ | _ | _ <;> exact .same rfl rfl rfl
    refine put.trans (asked.trans (plain.trans ?_))
    generalize s''.immediate? response = answer
    obtain ⟨handle | v, s⟩ := answer
    · have parked : Barred s (s.park caller.task handle) := .same rfl rfl rfl
      exact parked.trans (killAsked_barred _)
    · refine s.killAsked_barred.trans ?_
      dsimp only
      split
      · have away : Barred s.killAsked
            (s.killAsked.updateTask caller.task fun t => { t with body := none }) :=
          .same rfl rfl rfl
        exact away.trans (note_barred _ rfl)
      · exact release_barred _ v

/-! ## Turns of the loop -/

theorem submit_closing (closing : s.isClosing = true) (player : Obj)
    (session : Option SessionId) (body : Body) :
    s.submit player session body = (.error .shuttingDown, s.releaseAll body.held) :=
  if_pos closing

theorem handleMessage_barred (closing : s.isClosing = true) (ticket : Checkpoint.Ticket)
    (m : Message) : Barred s (s.handleMessage ticket m) := by
  cases m with
  | submit player session body =>
    rw [handleMessage, submit_closing closing]
    exact (s.releaseAll_barred body.held).trans (note_barred _ rfl)
  | kill task =>
    have killed := s.kill_barred task
    rw [handleMessage]
    split
    all_goals
      rename_i answer
      rw [answer] at killed
      exact killed.trans (note_barred _ rfl)
  | checkpoint =>
    rw [handleMessage]
    split
    · exact s.note_barred rfl
    · refine .of_enters (p := {}) (.same rfl rfl) rfl fun _ => ?_
      simp only [isClosing, Checkpoint.Coordinator.requestAnswer, Checkpoint.Coordinator.request]
      split <;> exact closing
  | shutdown farewell =>
    have asked : Barred s { s with coordinator := s.coordinator.requestShutdown farewell } :=
      ⟨rfl, fun _ => Bool.or_true _, rfl⟩
    exact asked.trans (note_barred _ rfl)
  | waiters | queueStats => exact s.note_barred rfl

theorem takeMessage_barred (closing : s.isClosing = true) : Barred s s.takeMessage := by
  unfold takeMessage
  split
  · exact .refl s
  · rename_i ticket m rest _
    have taken : Barred s { s with messages := rest } := .same rfl rfl rfl
    exact taken.trans (handleMessage_barred (taken.closing closing) ticket m)

theorem takeCompletion_barred (s : Scheduler) : Barred s s.takeCompletion := by
  refine .of_door (s.takeCompletion_enters {}) ?_
  unfold takeCompletion handleCompletion
  dsimp only
  repeat' split
  all_goals rfl

theorem tellAll_barred (s : Scheduler)
    (answers : List (Checkpoint.Ticket × Checkpoint.Verdict)) : Barred s (s.tellAll answers) :=
  Barred.foldl (fun s _ => s.note_barred rfl) answers s

theorem checkpoint_barred (s : Scheduler) (reason : Checkpoint.Reason) :
    Barred s (s.checkpoint reason).2 := by
  refine .of_door (s.checkpoint_enters {} reason) ?_
  have written : (s.writeCheckpoint reason).2.door = s.door := by
    unfold writeCheckpoint
    split <;> rfl
  unfold checkpoint
  split
  all_goals
    rename_i answer
    rw [answer] at written
    exact written

theorem takeSignal_stopping (c : Checkpoint.Coordinator) : c.takeSignal.stopping = c.stopping := by
  unfold Checkpoint.Coordinator.takeSignal Checkpoint.Coordinator.request
  repeat' split
  all_goals rfl

theorem poll_stopping (c : Checkpoint.Coordinator) (now : Instant) :
    (c.poll now).2.stopping = c.stopping := by
  rw [← takeSignal_stopping c, Checkpoint.Coordinator.poll, Checkpoint.Coordinator.begin,
    Checkpoint.Coordinator.takeTimer]
  repeat' split
  all_goals rfl

theorem finish_stopping (c : Checkpoint.Coordinator) (now : Instant)
    (verdict : Checkpoint.Verdict) : (c.finish now verdict).2.stopping = c.stopping := by
  unfold Checkpoint.Coordinator.finish Checkpoint.Coordinator.settle
  repeat' split
  all_goals grind [Checkpoint.Coordinator.answer]

theorem coordinator_barred (s : Scheduler) {coordinator : Checkpoint.Coordinator}
    (stands : coordinator.stopping = s.coordinator.stopping) :
    Barred s { s with coordinator } :=
  .same rfl (by rw [isClosing, isClosing, stands]) rfl

theorem finishCheckpoint_barred (s : Scheduler) (verdict : Checkpoint.Verdict) :
    Barred s (s.finishCheckpoint verdict) := by
  have now : Barred s s.now.2 := .same rfl rfl rfl
  have settled := now.trans (s.now.2.coordinator_barred
    (finish_stopping s.coordinator s.now.1 verdict))
  unfold finishCheckpoint
  dsimp only
  split
  · exact settled.trans ((tellAll_barred _ _).trans (note_barred _ rfl))
  · exact settled.trans (tellAll_barred _ _)

theorem pollCheckpoint_barred (s : Scheduler) : Barred s s.pollCheckpoint := by
  have now : Barred s s.now.2 := .same rfl rfl rfl
  have polled := now.trans (s.now.2.coordinator_barred (poll_stopping s.coordinator s.now.1))
  unfold pollCheckpoint
  dsimp only
  split
  · exact polled
  · exact polled.trans ((checkpoint_barred _ _).trans (finishCheckpoint_barred _ _))

theorem detach_barred (s : Scheduler) (task : TaskId) : Barred s (s.detach task).2 := by
  unfold detach
  repeat' split
  all_goals exact .same rfl rfl rfl

theorem restoreLatest_barred (s : Scheduler) : Barred s s.restoreLatest.2 := by
  refine .of_door (s.restoreLatest_enters {}) ?_
  unfold restoreLatest
  repeat' split
  all_goals rfl

/-! ## The end -/

theorem beginDrain_barred (s : Scheduler) : Barred s s.beginDrain :=
  ⟨rfl, fun _ => Bool.true_or _, rfl⟩

theorem beginDrain_closing (s : Scheduler) : s.beginDrain.isClosing = true := Bool.true_or _

theorem proceed_barred (d : Drain) (closing : d.server.isClosing = true) :
    Barred d.server d.proceed.server := by
  unfold Drain.proceed
  split
  · split
    · exact .refl _
    · exact takeMessage_barred closing
  · split
    · exact .same rfl rfl rfl
    · exact takeCompletion_barred _
  · exact .refl _
  · rename_i task input batch _
    have picked := d.server.pick_barred task input
    split
    all_goals
      rename_i answer
      rw [answer] at picked
      exact picked
  · rename_i caller act batch _
    have moved := move_barred act caller d.server
    split
    all_goals rename_i answer; rw [answer] at moved
    · exact moved
    · exact moved.trans (releaseOutcome_barred _ _)
  · split <;> exact .refl _
  · exact .refl _
  · exact .refl _

theorem waitForEvent_barred (eager : Bool) (closing : s.isClosing = true) :
    Barred s (s.waitForEvent eager) := by
  unfold waitForEvent
  split
  · exact takeCompletion_barred _
  · exact takeMessage_barred closing

theorem take_barred (d : Drain) (turn : Drain.Turn) (closing : d.server.isClosing = true) :
    Barred d.server (d.take turn).server := by
  cases turn with
  | post ticket m | elsewhere w l clock => exact .same rfl rfl rfl
  | work handle => exact .of_host (d.server.toHost.step_apart handle)
  | proceed => exact proceed_barred d closing
  | wake eager =>
    rw [Drain.take]
    split
    · exact waitForEvent_barred eager closing
    · exact .refl _
  | timeUp =>
    rw [Drain.take]
    repeat' split
    all_goals exact .refl _

theorem run_barred (turns : List Drain.Turn) (d : Drain) (closing : d.server.isClosing = true) :
    Barred d.server (d.run turns).server := by
  induction turns generalizing d with
  | nil => exact .refl _
  | cons turn turns ih =>
    have first := take_barred d turn closing
    exact first.trans (ih (d.take turn) (first.closing closing))

theorem answer_barred (s : Scheduler) (task : TaskId) (result : TaskAnswer) :
    Barred s (s.answer task result) := by
  unfold answer
  split
  · have told : Barred s { s with handles := s.handles.set task (some result) } :=
      .same rfl rfl rfl
    exact told.trans (note_barred _ rfl)
  · cases result <;> exact .same rfl rfl rfl

theorem abandon_barred (s : Scheduler) (entry : TaskId × Task) : Barred s (s.abandon entry) := by
  unfold abandon
  dsimp only
  split
  · exact (s.answer_barred entry.1 _).trans (releaseAll_barred _ _)
  · exact s.releaseAll_barred _

theorem conclude_barred (s : Scheduler) (timedOut : Bool) : Barred s (s.conclude timedOut).2 := by
  have written : Barred s s.finalCheckpoint.2 := by
    unfold finalCheckpoint
    split
    · exact s.checkpoint_barred .shutdown
    · exact .refl s
  have failed (s : Scheduler) : Barred s s.failWaiting := by
    have settled : Barred s
        { s with coordinator := (s.coordinator.failWaiting .shuttingDown).2 } :=
      s.coordinator_barred rfl
    exact settled.trans (tellAll_barred _ _)
  have abandoned (s : Scheduler) : Barred s s.abandonAll := by
    have emptied : Barred s { s with tasks := [] } := .same rfl rfl rfl
    exact emptied.trans (Barred.foldl abandon_barred _ _)
  have cleared (s : Scheduler) : Barred s s.clearReady := by
    have emptied : Barred s { s with ready := [] } := .same rfl rfl rfl
    exact emptied.trans (Barred.foldl (fun s (_, input) => s.releaseInput_barred input) _ _)
  exact written.trans ((failed _).trans ((abandoned _).trans ((cleared _).trans (.same rfl rfl rfl))))

theorem run_act_barred (act : Act) (caller : Caller) (s : Scheduler) :
    Barred s (act.run caller s).2 := by
  induction act using Act.move_induct generalizing s with
  | moves act ih =>
    have first := move_barred act caller s
    rw [Act.run_eq]
    generalize next : act.move caller s = moved at first
    obtain ⟨act' | outcome, s'⟩ := moved
    · exact first.trans (ih caller s act' (congrArg Prod.fst next) s')
    · exact first

theorem runOne_barred (s : Scheduler) (entry : TaskId × Input) : Barred s (s.runOne entry) := by
  have picked := s.pick_barred entry.1 entry.2
  rw [runOne, stepTask_eq]
  generalize s.pick entry.1 entry.2 = taken at picked
  obtain ⟨_ | ⟨caller, act⟩, s'⟩ := taken
  · exact picked
  · exact picked.trans ((run_act_barred act caller s').trans (releaseOutcome_barred _ _))

theorem catchUp_barred (closing : s.isClosing = true) : Barred s s.catchUp := by
  have told (n : Nat) : ∀ {s : Scheduler}, s.isClosing = true → Barred s (takeMessages n s) := by
    induction n with
    | zero => exact fun _ => .refl _
    | succ n ih =>
      exact fun closing => (takeMessage_barred closing).trans
        (ih ((takeMessage_barred closing).closing closing))
  have taken (n : Nat) (s : Scheduler) : Barred s (takeCompletions n s) := by
    induction n generalizing s with
    | zero => exact .refl s
    | succ n ih => exact s.takeCompletion_barred.trans (ih _)
  have emptied (s : Scheduler) : Barred s { s with ready := [] } := .same rfl rfl rfl
  exact (told _ closing).trans ((taken _ _).trans ((emptied _).trans (Barred.foldl runOne_barred _ _)))

theorem drain_barred (rounds : List Round) (closing : s.isClosing = true) :
    Barred s (s.drain rounds).2 := by
  induction rounds generalizing s with
  | nil => exact catchUp_barred closing
  | cons r rounds ih =>
    have caught := catchUp_barred closing
    have meanwhile : Barred s.catchUp (s.catchUp.meanwhile r) := by
      have came : Barred s.catchUp { s.catchUp with messages := s.catchUp.messages ++ r.messages } :=
        .same rfl rfl rfl
      have worked (handles : List Handle) (s : Scheduler) :
          Barred s (s.onHost fun h => handles.foldl Host.step h) := by
        induction handles generalizing s with
        | nil => exact .refl s
        | cons handle handles ih =>
          exact (Barred.of_host (s.toHost.step_apart handle)).trans (ih _)
      exact came.trans (worked r.steps _)
    rw [drain]
    split
    · exact caught
    · have busy := meanwhile.closing (caught.closing closing)
      have woken := waitForEvent_barred r.eager busy
      exact caught.trans (meanwhile.trans (woken.trans (ih (woken.closing busy))))

theorem shutdown_barred (s : Scheduler) (rounds : List Round) :
    Barred s (s.shutdown rounds).2 := by
  have drained := drain_barred rounds s.beginDrain_closing
  have caught := catchUp_barred (drained.closing s.beginDrain_closing)
  exact s.beginDrain_barred.trans (drained.trans (caught.trans (conclude_barred _ _)))

/-! ## Those who come in -/

theorem startCommand_read (s : Scheduler) {session : SessionId} {text : String} {d : Draft}
    (filled : (Text.trim text).isEmpty = false) (read : s.parser (Text.trim text) = .ok d) :
    s.startCommand (session, text) =
      let s' := (s.prepare d).2
      (s'.createTask (((s.sessions.get? session).bind Session.player).getD .nothing)
        (some session) (s.prepare d).1 false).2.enqueue (s'.lastTask + 1) .start := by
  simp only [startCommand, filled, read, Bool.false_eq_true, if_false]
  rfl

theorem startCommand_made (s : Scheduler) {session : SessionId} {text : String} {d : Draft}
    (filled : (Text.trim text).isEmpty = false) (read : s.parser (Text.trim text) = .ok d) :
    creations (s.startCommand (session, text)).trace =
        creations s.trace ++ [s.lastTask + 1] ∧
      (s.isClosing = true → (s.startCommand (session, text)).isClosing = true) := by
  have prepared : Barred s (s.prepare d).2 := .of_host (s.toHost.buildAll_apart d.recipes)
  rw [s.startCommand_read filled read]
  refine ⟨?_, prepared.closing⟩
  rw [← prepared.unseen, ← prepared.last]
  exact creations_append _ _

theorem startCommand_barred (s : Scheduler) {session : SessionId} {text : String}
    (unread : ∀ d, (Text.trim text).isEmpty = false → s.parser (Text.trim text) ≠ .ok d) :
    Barred s (s.startCommand (session, text)) := by
  unfold startCommand
  dsimp only
  split
  · exact .refl s
  · rename_i filled
    split
    · rename_i d read
      exact absurd read (unread d (Bool.eq_false_iff.2 filled))
    · exact .same rfl rfl rfl

theorem summon_made (s : Scheduler) (body : Body) :
    creations (s.createTask .system none body false).2.trace =
        creations s.trace ++ [s.lastTask + 1] :=
  creations_append _ _

end Scheduler

namespace Work
open Trace

/-- A beat, or somebody asks for a checkpoint or for the end. -/
inductive Stir : Work → Work → Prop where
  | beat {w w' : Work} {given : List TaskId} (beat : Beat w given w') : Stir w w'
  | asked (s : Scheduler) (batch act) (coordinator : Checkpoint.Coordinator)
      (stands : s.coordinator.stopping = true → coordinator.stopping = true) :
      Stir ⟨s, batch, act⟩ ⟨{ s with coordinator }, batch, act⟩

abbrev Stirs : Work → Work → Prop := Relation.ReflTransGen Stir

/-- Who comes in at one moment of a server that is to shut down: nobody, the task that a line asks
for, or the finalizer of a value. -/
inductive Admits : Work → List Newcomer → Work → Prop where
  | nobody {w w' : Work} (stir : Stir w w') (barred : w.server.Barred w'.server) : Admits w [] w'
  | line (s : Scheduler) (batch) (session : SessionId) (text : String) (d : Draft)
      (filled : (Text.trim text).isEmpty = false) (read : s.parser (Text.trim text) = .ok d) :
      Admits ⟨s, batch, none⟩ [⟨s.lastTask + 1, .line session text⟩]
        ⟨s.startCommand (session, text), batch, none⟩
  | finalizer (s : Scheduler) (batch) (v : Value) (body : Body)
      (its : s.database.finalizer v = some body) :
      Admits ⟨s, batch, none⟩ [⟨s.lastTask + 1, .finalizer v⟩]
        ⟨(s.createTask .system none body false).2, batch ++ [(s.lastTask + 1, .start)], none⟩

/-- Those who come in one after another. -/
inductive Admitted : Work → List Newcomer → Work → Prop where
  | refl (w : Work) : Admitted w [] w
  | tail {w w' w'' : Work} {ns ns' : List Newcomer} (first : Admitted w ns w')
      (next : Admits w' ns' w'') : Admitted w (ns ++ ns') w''

variable {w w' : Work} {ns : List Newcomer}

theorem Admits.closing (admits : Admits w ns w') (closing : w.server.isClosing = true) :
    w'.server.isClosing = true := by
  cases admits with
  | nobody _ barred => exact barred.closing closing
  | line s _ _ _ _ filled read => exact (s.startCommand_made filled read).2 closing
  | finalizer => exact closing

theorem Admits.made (admits : Admits w ns w') :
    creations w'.server.trace = creations w.server.trace ++ ns.map Newcomer.task := by
  cases admits with
  | nobody _ barred => exact barred.unseen.trans (List.append_nil _).symm
  | line s _ _ _ _ filled read => exact (s.startCommand_made filled read).1
  | finalizer s _ _ body => exact s.summon_made body

theorem Turn.admits (turn : Turn w w') (closing : w.server.isClosing = true) :
    ∃ ns, Admits w ns w' := by
  have nobody (barred : w.server.Barred w'.server) : ∃ ns, Admits w ns w' :=
    ⟨[], .nobody (.beat (.turn turn)) barred⟩
  cases turn with
  | message s => exact nobody (Scheduler.takeMessage_barred closing)
  | result s => exact nobody s.takeCompletion_barred
  | poll s => exact nobody s.pollCheckpoint_barred
  | values s | takeLines s | takeUp s | sweep s => exact nobody (.same rfl rfl rfl)
  | destroy s batch v =>
    have told : s.Barred (s.note (.destroyed (v.finalizableId?.getD 0))) := s.note_barred rfl
    exact nobody (told.trans (.same rfl rfl rfl))
  | summon s batch v body its => exact ⟨_, .finalizer s batch v body its⟩
  | command s batch entry =>
    obtain ⟨session, text⟩ := entry
    by_cases wanted : ∃ d, (Text.trim text).isEmpty = false ∧ s.parser (Text.trim text) = .ok d
    · obtain ⟨d, filled, read⟩ := wanted
      exact ⟨_, .line s batch session text d filled read⟩
    · exact nobody (s.startCommand_barred fun d filled read => wanted ⟨d, filled, read⟩)
  | pick s batch id input => exact nobody (s.pick_barred id input)
  | move s batch caller act => exact nobody (Scheduler.move_barred act caller s)

theorem carryOut_barred {s : Scheduler} (closing : s.isClosing = true) (deed : Scheduler.Deed)
    (outside : deed.isLoop = false) : s.Barred (deed.carryOut s) := by
  cases deed with
  | submit player session body =>
    rw [Scheduler.Deed.carryOut, Scheduler.submit_closing closing]
    exact s.releaseAll_barred body.held
  | kill task => exact s.kill_barred task
  | killMatching rule =>
    exact (Scheduler.Barred.of_host (s.toHost.enumerate_apart rule)).trans
      (Scheduler.killAll_barred _ _)
  | detach task => exact s.detach_barred task
  | awaitCheckpoint reason =>
    refine ⟨rfl, fun _ => ?_, rfl⟩
    simp only [Scheduler.Deed.carryOut, Scheduler.awaitCheckpoint, Scheduler.takeTicket,
      Scheduler.isClosing, Checkpoint.Coordinator.requestAnswer, Checkpoint.Coordinator.request]
    split <;> exact closing
  | restoreLatest => exact s.restoreLatest_barred
  | beginDrain => exact s.beginDrain_barred
  | step handle => exact .of_host (s.toHost.step_apart handle)
  | tick _ | phase _ => cases outside
  | post _ | line _ _ | setStarter _ | elsewhere _ _ _ => exact .same rfl rfl rfl

theorem Stir.admits (stir : Stir w w') (closing : w.server.isClosing = true) :
    ∃ ns, Admits w ns w' := by
  cases stir with
  | beat beat =>
    cases beat with
    | turn turn => exact turn.admits closing
    | deed s batch act deed outside =>
      exact ⟨[], .nobody (.beat (.deed s batch act deed outside)) (carryOut_barred closing deed outside)⟩
    | arrive s batch act messages =>
      exact ⟨[], .nobody (.beat (.arrive s batch act messages)) (.same rfl rfl rfl)⟩
  | asked s batch act coordinator stands =>
    refine ⟨[], .nobody (.asked s batch act coordinator stands) ⟨rfl, fun before => ?_, rfl⟩⟩
    rw [Scheduler.isClosing, Bool.or_eq_true] at before ⊢
    exact before.imp_right stands

theorem Stirs.admitted (stirs : Stirs w w') (closing : w.server.isClosing = true) :
    w'.server.isClosing = true ∧ ∃ ns, Admitted w ns w' ∧
      creations w'.server.trace = creations w.server.trace ++ ns.map Newcomer.task := by
  induction stirs with
  | refl => exact ⟨closing, [], .refl w, (List.append_nil _).symm⟩
  | tail _ stir ih =>
    obtain ⟨closed, ns, admitted, made⟩ := ih
    obtain ⟨ns', admits⟩ := stir.admits closed
    refine ⟨admits.closing closed, ns ++ ns', admitted.tail admits, ?_⟩
    rw [admits.made, made, List.map_append, List.append_assoc]

theorem Turns.stirs (turns : Turns w w') : Stirs w w' :=
  Relation.ReflTransGen.mono (fun _ _ turn => .beat (.turn turn)) _ _ turns

/-- Whatever happens to a server that is to shut down, it stays so, and a client that submits a task
is told so. A task comes in only as the finalizer of a value or because of a line of input, and
every line that can be read is taken up. Once threads are waited for, nobody comes in. -/
theorem closing_admits {w w' : Work} (closing : w.server.isClosing = true)
    (stirs : Stirs w w') :
    w'.server.isClosing = true ∧
    (∀ player session body,
      w'.server.submit player session body =
        (.error .shuttingDown, w'.server.releaseAll body.held) ∧
      ∀ ticket, w'.server.handleMessage ticket (.submit player session body) =
        (w'.server.releaseAll body.held).reply ticket (.fault .shuttingDown)) ∧
    (∃ ns, Admitted w ns w' ∧
      creations w'.server.trace = creations w.server.trace ++ ns.map Newcomer.task) ∧
    (∀ session text d, (Text.trim text).isEmpty = false →
      w'.server.parser (Text.trim text) = .ok d →
      creations (w'.server.startCommand (session, text)).trace =
        creations w'.server.trace ++ [w'.server.lastTask + 1]) ∧
    (∀ rounds,
      creations (w'.server.shutdown rounds).2.trace = creations w'.server.trace) ∧
    ∀ turns timedOut,
      let drained := (Scheduler.Drain.run { server := w'.server.beginDrain } turns).server
      creations (drained.conclude timedOut).2.trace = creations w'.server.trace := by
  obtain ⟨closed, came⟩ := stirs.admitted closing
  refine ⟨closed, fun player session body => ?_, came, ?_, ?_, ?_⟩
  · have refused := Scheduler.submit_closing closed player session body
    refine ⟨refused, fun ticket => ?_⟩
    rw [Scheduler.handleMessage, refused]
  · exact fun session text d filled read => (w'.server.startCommand_made filled read).1
  · exact fun rounds => (w'.server.shutdown_barred rounds).unseen
  · intro turns timedOut drained
    have waited := Scheduler.run_barred turns { server := w'.server.beginDrain }
      w'.server.beginDrain_closing
    exact (w'.server.beginDrain_barred.trans (waited.trans
      (drained.conclude_barred timedOut))).unseen

/-- A server that is asked to shut down while a line of input and a value wait. -/
def pressed : Scheduler :=
  let s := Scheduler.ofConfig {} (.placeholders 0 [] .succeed) Command.read 0
  { s with
    toWorkspace := s.toWorkspace.discard (.shape (.anon 5 .system))
    sessions := ((s.sessions.openSession 0 "peer").2.pushInput 0 1 "max_background_threads()").2
    coordinator := s.coordinator.requestShutdown none }

theorem pressed_admits :
    pressed.isClosing = true ∧
      (∃ ns, Admitted (.idle pressed) ns (.idle pressed.tick.2) ∧
        ns.map Newcomer.task = [1, 2]) ∧
      creations (pressed.tick.2.shutdown []).2.trace = [1, 2] := by
  have closing : pressed.isClosing = true := by decide +kernel
  have before : creations pressed.trace = [] := by decide +kernel
  have after : creations pressed.tick.2.trace = [1, 2] := by decide +kernel
  obtain ⟨-, -, ⟨ns, admitted, made⟩, -, ends, -⟩ :=
    closing_admits (w := .idle pressed) closing (tick_turns pressed false).stirs
  refine ⟨closing, ⟨ns, admitted, ?_⟩, (ends []).trans after⟩
  rw [← after]
  exact (made.trans (congrArg (· ++ ns.map Newcomer.task) before)).symm

/-- The line makes a task of its session after the request, and the task is carried out. -/
theorem pressed_takesLine :
    pressed.isClosing = true ∧ creations pressed.trace = [] ∧
      (pressed.tick.2.trace.filterMap fun
        | .created task _ session => some (task, session)
        | _ => none) = [(1, none), (2, some 1)] ∧
      pressed.tick.2.linesTo 1 = ["=> 20"] := by
  decide +kernel

end Work
end MooCore
