import MooCore.Checkpoint.File
import MooCore.Config
import MooCore.Task.Body
/-!
# The scheduler's state

A scheduler owns its tasks, in the order in which they were made, and a queue of those that are
ready, each with what it is to be stepped with. A task that is not ready waits for a background
thread. Clients talk to it by messages and learn of a task's end at a handle they may hold.
-/

set_option autoImplicit false
namespace MooCore

/-- A task. Its body is away while it is being stepped. -/
structure Task where
  player : Obj
  session : Option SessionId
  description : String
  body : Option Body
  waiting : Option Background.Handle := none
  /-- whether somebody asked to be told how it ends -/
  answerable : Bool

structure SchedulerStats where
  started : Nat := 0
  completed : Nat := 0
  aborted : Nat := 0
  killed : Nat := 0
  /-- tasks resumed with the result of a background thread -/
  resumed : Nat := 0
  resumedDuringDrain : Nat := 0
  /-- results thrown away because their task had been killed -/
  discarded : Nat := 0
  checkpoints : Nat := 0
  checkpointFailures : Nat := 0
deriving DecidableEq, Repr

/-- What a client asks for. -/
inductive Message where
  | submit (player : Obj) (session : Option SessionId) (body : Body)
  | kill (task : TaskId)
  | checkpoint
  | shutdown (farewell : Option String)
  | waiters
  | queueStats

abbrev TaskAnswer := Except TaskFault Value

/-- Turns a line of input into a task, or says what is wrong with it. -/
abbrev CommandParser := String → Except String Draft

structure Scheduler extends Background.Host where
  database : Database
  coordinator : Checkpoint.Coordinator := {}
  directory : Option Checkpoint.Directory := none
  parser : CommandParser
  tasks : Named TaskId Task := []
  ready : List (TaskId × Input) := []
  lastTask : TaskId := 0
  lastObject : UInt64
  /-- the numbers that new values have been given, for the record only -/
  drawn : List UInt64 := []
  stats : SchedulerStats := {}
  draining : Bool := false
  messages : List (Checkpoint.Ticket × Message) := []
  tickets : Checkpoint.Ticket := 0
  /-- the handles that somebody still holds, with the answers that have come -/
  handles : Named TaskId (Option TaskAnswer) := []
  /-- kills asked for in the step under way -/
  asked : List TaskId := []

/-- How a step ended. -/
inductive StepOutcome where
  | finished (result : Except String Value)
  | parked
  | gone

namespace Scheduler
open Background

def ofConfig (c : Config) (database : Database) (parser : CommandParser) (clock : Instant) :
    Scheduler :=
  { Workspace.start with
    sessions := { timeout := c.network.connectTimeout.toNanos }
    gateway := { max := c.runtime.maxBackgroundThreads, threading := c.runtime.backgroundThreading }
    clock, database, parser
    coordinator := { interval := c.checkpoint.interval.map Duration.toNanos, lastFinished := clock }
    directory := c.checkpoint.outputPath.map fun path => { path }
    lastObject := UInt64.ofNat database.maxObjectId }

def onHost (s : Scheduler) (f : Host → Host) : Scheduler := { s with toHost := f s.toHost }

def askHost {α : Type} (s : Scheduler) (f : Host → α × Host) : α × Scheduler :=
  let (a, h) := f s.toHost
  (a, { s with toHost := h })

def note (s : Scheduler) (e : Event) : Scheduler := s.onHost (·.note e)

def release (s : Scheduler) (v : Value) : Scheduler := s.onHost (·.drop v)

def releaseAll (s : Scheduler) (vs : List Value) : Scheduler := s.onHost (·.dropAll vs)

def now (s : Scheduler) : Instant × Scheduler := s.askHost Host.now

def sendLine (s : Scheduler) (session : SessionId) (line : String) : Bool × Scheduler :=
  let (ok, sessions) := s.sessions.send session line
  (ok, { s with sessions })

/-- Neither a task nor a handle ends with a value that nobody lets go of. -/
def releaseInput (s : Scheduler) : Input → Scheduler
  | .start => s
  | .resume v => s.release v

/-! ## The table of tasks -/

def owner? (s : Scheduler) (task : TaskId) : Option Obj := (s.tasks.get? task).map Task.player

def updateTask (s : Scheduler) (task : TaskId) (f : Task → Task) : Scheduler :=
  { s with tasks := s.tasks.update task f }

def createTask (s : Scheduler) (player : Obj) (session : Option SessionId) (body : Body)
    (answerable : Bool) : TaskId × Scheduler :=
  let id := s.lastTask + 1
  let t : Task := { player, session, description := body.description, body := some body,
                    answerable }
  let stats := { s.stats with started := s.stats.started + 1 }
  (id, { s with lastTask := id, tasks := s.tasks.set id t, stats }.note (.created id player session))

def enqueue (s : Scheduler) (task : TaskId) (input : Input) : Scheduler :=
  { s with ready := s.ready ++ [(task, input)] }

def isClosing (s : Scheduler) : Bool := s.draining || s.coordinator.stopping

def submit (s : Scheduler) (player : Obj) (session : Option SessionId) (body : Body) :
    Except TaskFault TaskId × Scheduler :=
  if s.isClosing then (.error .shuttingDown, s.releaseAll body.held)
  else
    let (id, s) := s.createTask player session body true
    (.ok id, { s.enqueue id .start with handles := s.handles.set id none })

/-- Makes the values that a task is to hold, and the task's body. -/
def prepare (s : Scheduler) (d : Draft) : Body × Scheduler :=
  let (vs, s) := s.askHost (·.buildAll d.recipes)
  (d.body vs, s)

def detach (s : Scheduler) (task : TaskId) : Bool × Scheduler :=
  match s.handles.get? task with
  | none => (false, s)
  | some answer =>
    let s := { s with handles := s.handles.erase task }
    match answer with
    | some (.ok v) => (true, s.release v)
    | some (.error _) | none => (true, s)

def answer (s : Scheduler) (task : TaskId) (result : TaskAnswer) : Scheduler :=
  if s.handles.has task then
    { s with handles := s.handles.set task (some result) }.note (.answered task result)
  else
    match result with
    | .ok v => s.release v
    | .error _ => s

/-! ## Descriptions -/

/-- The status of a task: the last of its waiters, or that it is ready. -/
def statusOf (seen : List (TaskId × String)) (task : TaskId) : String :=
  match seen.reverse.find? (·.1 = task) with
  | some (_, status) => status
  | none => "ready"

structure TaskSummary where
  task : TaskId
  player : Obj
  description : String
  status : String
deriving DecidableEq, Repr

def describe (s : Scheduler) : List TaskSummary :=
  let seen := (s.gateway.enumerate fun _ _ => .pass).1.seen
  s.tasks.map fun (id, t) =>
    { task := id, player := t.player, description := t.description, status := statusOf seen id }

end Scheduler
end MooCore
