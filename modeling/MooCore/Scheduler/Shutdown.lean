import MooCore.Scheduler.Tick
/-!
# Shutting down

No new work is let in, background threads get some time to finish, a last checkpoint is written,
tasks that are left are given up, and every connection that nobody holds is closed. The finalization
queue goes away last: what waits in it is let go without a finalizer.
-/

set_option autoImplicit false
namespace MooCore.Scheduler
open Background

/-- What other threads do while the scheduler waits: messages come in and jobs go on, each handle
standing for one step of its job. The scheduler then takes up the first thing that came in, which is
a result rather than a message if it is `eager`. -/
structure Round where
  messages : List (Checkpoint.Ticket × Message) := []
  steps : List Handle := []
  eager : Bool := false

def shutdownLine (farewell : Option String) : String :=
  String.join ["*** Shutting down: ", farewell.getD "shutdown requested", " ***"]

structure ShutdownReport where
  /-- whether background threads were still running when the time was up -/
  timedOut : Bool
  outstanding : Nat
  resumedDuringDrain : Nat
  checkpoint : Option String
  /-- connections that somebody still held -/
  held : Nat
deriving DecidableEq, Repr

def meanwhile (s : Scheduler) (r : Round) : Scheduler :=
  let s := { s with messages := s.messages ++ r.messages }
  s.onHost fun h => r.steps.foldl Host.step h

def catchUp (s : Scheduler) : Scheduler := s.processEvents.runReady

/-- Waits until no background thread is left or the rounds are over; the answer is yes if threads
were left. -/
def drain (s : Scheduler) : List Round → Bool × Scheduler
  | [] => (s.catchUp.gateway.live ≠ 0, s.catchUp)
  | r :: rounds =>
    let s := s.catchUp
    if s.gateway.live = 0 then (false, s)
    else drain ((s.meanwhile r).waitForEvent r.eager) rounds

def abandon (s : Scheduler) (entry : TaskId × Task) : Scheduler :=
  let (id, t) := entry
  let s := if t.answerable then s.answer id (.error .shuttingDown) else s
  s.releaseAll (t.body.elim [] Body.held)

def abandonAll (s : Scheduler) : Scheduler := s.tasks.foldl abandon { s with tasks := [] }

def clearReady (s : Scheduler) : Scheduler :=
  s.ready.foldl (fun s entry => s.releaseInput entry.2) { s with ready := [] }

def beginDrain (s : Scheduler) : Scheduler :=
  let sessions := s.sessions.broadcast (shutdownLine s.coordinator.farewell)
  { s with
    sessions := (sessions.setInputSuspended true).2
    gateway := s.gateway.stopAccepting
    draining := true }

def finalCheckpoint (s : Scheduler) : Option String × Scheduler :=
  if s.directory.isSome then
    let (result, s) := s.checkpoint .shutdown
    (result.toOption, s)
  else (none, s)

def failWaiting (s : Scheduler) : Scheduler :=
  let (answers, coordinator) := s.coordinator.failWaiting .shuttingDown
  { s with coordinator }.tellAll answers

def conclude (s : Scheduler) (timedOut : Bool) : ShutdownReport × Scheduler :=
  let outstanding := s.gateway.live
  let (checkpoint, s) := s.finalCheckpoint
  let s := s.failWaiting.abandonAll.clearReady
  let (held, sessions) := s.sessions.closeAll
  ({ timedOut, outstanding, resumedDuringDrain := s.stats.resumedDuringDrain, checkpoint, held },
    { s.onHost Host.close with sessions })

/-- Shuts the server down, where `rounds` is what other threads do during the wait. -/
def shutdown (s : Scheduler) (rounds : List Round) : ShutdownReport × Scheduler :=
  let (timedOut, s) := s.beginDrain.drain rounds
  s.catchUp.conclude timedOut

end MooCore.Scheduler
