import MooCore.Scheduler.State
import MooCore.Value.Literal
/-!
# Stepping tasks

A step carries out what the body does. Kills that the step asked for come after it, once the
task's own end, if it ended, has been told. A request that is refused or done on the spot takes the
task straight into its next step.
-/

set_option autoImplicit false
namespace MooCore
namespace Scheduler
open Background

/-- Carries out one effect. -/
def perform (s : Scheduler) : (e : Effect) → e.Answer × Scheduler
  | .acquire session =>
    let (ok, sessions) := s.sessions.guard session
    (ok, { s with sessions })
  | .login session player =>
    let (ok, sessions) := s.sessions.login session player
    (ok, { s with sessions })
  | .send session line => s.sendLine session line
  | .push session line =>
    let (now, s) := s.now
    let (ok, sessions) := s.sessions.pushInput now session line
    (ok, { s with sessions })
  | .disconnect session =>
    let (ok, sessions) := s.sessions.requestDisconnect session
    (ok, { s with sessions })
  | .waiters =>
    let (now, s) := s.now
    ((s.gateway.waiters, now), s)
  | .maxThreads => (s.gateway.max, s)
  | .setMaxThreads n =>
    let (previous, gateway) := s.gateway.setMax n
    (previous, { s with gateway })
  | .setThreading on =>
    let (previous, gateway) := s.gateway.setThreading on
    (previous, { s with gateway })
  | .requestCheckpoint reason =>
    let (fresh, coordinator) := s.coordinator.request reason
    (fresh, { s with coordinator })
  | .requestShutdown farewell =>
    ((), { s with coordinator := s.coordinator.requestShutdown farewell })
  | .owner task => (s.owner? task, s)
  | .isWizard player => (s.database.isWizard player, s)
  | .kill task =>
    if (s.owner? task).isSome then (true, { s with asked := s.asked ++ [task] }) else (false, s)
  | .newId =>
    let id := s.lastObject + 1
    (id, { s with lastObject := id, drawn := s.drawn ++ [id] })
  | .make recipe => s.askHost (·.build recipe)
  | .tryMake recipe => s.askHost (·.tryBuild recipe)
  | .keep v => ((), s.onHost (·.keep v))
  | .release vs => ((), s.releaseAll vs)
  | .workspace op => s.askHost (·.workspace op)
  | .queueStats => (s.heap.queueStats (s.queue.getD 0), s)
  | .remark r => ((), s.note (.remark r))

/-! ## Ends of tasks -/

/-- Takes the entries of a task out of the ready queue, and gives what they were to be resumed
with. -/
def withdraw (s : Scheduler) (task : TaskId) : List Value × Scheduler :=
  let results := (s.ready.filter (·.1 = task)).filterMap fun
    | (_, .resume v) => some v
    | (_, .start) => none
  (results, { s with ready := s.ready.filter (·.1 ≠ task) })

/-- Kills a task. Its background thread goes on, but its result is thrown away. -/
def kill (s : Scheduler) (task : TaskId) : Except TaskFault Unit × Scheduler :=
  match s.tasks.get? task with
  | none => (.error (.notFound task), s)
  | some t =>
    let s := { s with tasks := s.tasks.erase task }.note (.killed task t.player)
    let (_, s) := s.askHost (·.killWaiters task)
    let (results, s) := s.withdraw task
    let s := s.releaseAll results
    let s := { s with stats := { s.stats with
      discarded := s.stats.discarded + results.length, killed := s.stats.killed + 1 } }
    let s := if t.answerable then s.answer task (.error .cancelled) else s
    (.ok (), s.releaseAll (t.body.elim [] Body.held))

/-- Kills the tasks that were asked for, in order; some may be gone already. -/
def killAsked (s : Scheduler) : Scheduler :=
  s.asked.foldl (fun s task => (s.kill task).2) { s with asked := [] }

/-- Kills tasks one after another, and gives the number of those that were there. -/
def killAll (s : Scheduler) : List TaskId → Nat × Scheduler
  | [] => (0, s)
  | task :: rest =>
    match s.kill task with
    | (.ok (), s) =>
      let (n, s) := killAll s rest
      (n + 1, s)
    | (.error _, s) => killAll s rest

/-- Offers every waiting task to a rule and kills those it picks. Gives what was offered, and the
number of tasks killed. -/
def killMatching (s : Scheduler) (rule : TaskId → String → Verdict) :
    List (TaskId × String) × Nat × Scheduler :=
  let (e, s) := s.askHost (·.enumerate rule)
  (e.seen, s.killAll e.killed)

def farewellLine : Except String Value → String
  | .ok v => "=> " ++ v.literal
  | .error message => "!! " ++ message

def countEnd (stats : SchedulerStats) : Except String Value → SchedulerStats
  | .ok _ => { stats with completed := stats.completed + 1 }
  | .error _ => { stats with aborted := stats.aborted + 1 }

/-- Ends a task and tells its session and whoever holds its handle. The result itself stays with
the caller. -/
def complete (s : Scheduler) (task : TaskId) (result : Except String Value) : Scheduler :=
  match s.tasks.get? task with
  | none => s
  | some t =>
    let s := { s with tasks := s.tasks.erase task, stats := countEnd s.stats result }.note
      (.ended task result)
    let s := match t.session with
      | some session => (s.sendLine session (farewellLine result)).2
      | none => s
    if t.answerable then
      match result with
      | .ok v => (s.onHost (·.keep v)).answer task (.ok v)
      | .error _ => s.answer task (.error .aborted)
    else s

def finish (s : Scheduler) (task : TaskId) (result : Except String Value) :
    StepOutcome × Scheduler :=
  (.finished result, (s.complete task result).killAsked)

/-! ## Steps -/

def putBack (s : Scheduler) (task : TaskId) (held : List Value) (step : Caller → Input → Act) :
    Scheduler :=
  s.updateTask task fun t =>
    { t with body := some { description := t.description, held, step } }

def takeBody (s : Scheduler) (task : TaskId) (resumed : Option Value) : Scheduler :=
  (s.updateTask task fun t => { t with body := none }).note (.stepped task resumed)

def park (s : Scheduler) (task : TaskId) (h : Handle) : Scheduler :=
  s.updateTask task fun t => { t with waiting := some h }

/-- What a task that asked for work is resumed with at once, unless it has to wait. -/
def immediate? (s : Scheduler) : Response → Except Handle Value × Scheduler
  | .ok (.waiting h) => (.error h, s)
  | .ok (.immediate v) => (.ok v, s)
  | .error why =>
    let (v, s) := s.askHost (·.plain why.errorMap)
    (.ok v, s)

end Scheduler

open Scheduler in
/-- Carries out a step, and the ones that follow without waiting. -/
def Act.run (caller : Caller) : Act → Scheduler → StepOutcome × Scheduler
  | .complete v, s => s.finish caller.task (.ok v)
  | .abort message, s => s.finish caller.task (.error message)
  | .effect e next, s =>
    let (a, s) := s.perform e
    run caller (next a) s
  | .background envelope callback held next, s =>
    let s := s.putBack caller.task held next
    let (response, s) := s.askHost (·.suspend caller.task { envelope with callback })
    match s.immediate? response with
    | (.error h, s) => (.parked, (s.park caller.task h).killAsked)
    | (.ok v, s) =>
      let s := s.killAsked
      if (s.tasks.get? caller.task).isSome then
        run caller (next caller (.resume v)) (s.takeBody caller.task (some v))
      else (.gone, s.release v)

namespace Scheduler

def noteDelivery (s : Scheduler) (task : TaskId) : Input → Scheduler
  | .start => s
  | .resume _ => s.note (.delivered task)

/-- Steps a task until it ends or has to wait. -/
def stepTask (s : Scheduler) (task : TaskId) (input : Input) : StepOutcome × Scheduler :=
  match s.tasks.get? task with
  | none => (.gone, s.releaseInput input)
  | some t =>
    match t.body with
    | none => (.gone, (s.note (.reentered task)).releaseInput input)
    | some body =>
      let caller : Caller := { task, player := t.player, session := t.session }
      (body.step caller input).run caller
        ((s.noteDelivery task input).takeBody task input.result?)

def releaseOutcome (s : Scheduler) : StepOutcome → Scheduler
  | .finished (.ok v) => s.release v
  | .finished (.error _) | .parked | .gone => s

def runOne (s : Scheduler) (entry : TaskId × Input) : Scheduler :=
  let (outcome, s) := s.stepTask entry.1 entry.2
  s.releaseOutcome outcome

def runReady (s : Scheduler) : Scheduler := s.ready.foldl runOne { s with ready := [] }

end Scheduler
end MooCore
