import MooCore.Scheduler.Client
/-!
# A server left to itself

Threads that go on by themselves, and a scheduler that goes round, until nothing more happens. A
task may be held back: its job goes on only once it has been killed.
-/

set_option autoImplicit false
namespace MooCore.Scheduler
open Background

def mayGoOn (s : Scheduler) (heldBack : List TaskId) (j : Job) : Bool :=
  !heldBack.contains j.task || !s.gateway.isActive j.handle

/-- Does the jobs that may go on, and those that they start, for some rounds. -/
def settle (s : Scheduler) (heldBack : List TaskId) : (rounds : Nat) → Scheduler
  | 0 => s
  | n + 1 =>
    match (s.jobs.filter (s.mayGoOn heldBack)).map Job.handle with
    | [] => s
    | handles => settle (s.onHost (·.runJobs handles)) heldBack n

def depth : Nat := 64

def settled (s : Scheduler) (heldBack : List TaskId := []) : Scheduler := s.settle heldBack depth

/-- Goes round a number of times, with all jobs done before each, or until the server is to shut
down. -/
def rest (s : Scheduler) (heldBack : List TaskId) : (rounds : Nat) → Scheduler
  | 0 => s
  | n + 1 =>
    if s.coordinator.stopping then s else rest ((s.settled heldBack).tick).2 heldBack n

def outcome? (s : Scheduler) (task : TaskId) : Option TaskAnswer := (s.handles.get? task).join

/-! ## A connection -/

def linesTo (s : Scheduler) (id : SessionId) : List String :=
  ((s.sessions.handle? id).map (·.transport.sent)).getD []

/-- Goes round until more than `before` lines have been sent to a session. -/
def awaitLine (s : Scheduler) (id : SessionId) (before : Nat) : (rounds : Nat) → Scheduler
  | 0 => s
  | n + 1 =>
    if before < (s.linesTo id).length then s
    else awaitLine s.tick.2.settled id before n

/-- Pushes a line of input and gives the lines that are sent in answer to it. -/
def exchange (s : Scheduler) (id : SessionId) (line : String) : List String × Scheduler :=
  let before := (s.linesTo id).length
  let (now, s) := s.now
  let s := { s with sessions := (s.sessions.pushInput now id line).2 }
  let s := s.awaitLine id before 3
  ((s.linesTo id).drop before, s)

end MooCore.Scheduler
