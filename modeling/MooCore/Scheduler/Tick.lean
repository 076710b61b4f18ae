import MooCore.Scheduler.Step
import MooCore.Text.Blank
/-!
# The main loop

One round of the main loop: messages and results that have come in, a checkpoint if one is due,
one pass over the finalization queue, new commands, the tasks that are ready, and the connections
that are to be closed.
-/

set_option autoImplicit false
namespace MooCore.Scheduler
open Background

/-! ## Messages and results -/

def reply (s : Scheduler) (ticket : Checkpoint.Ticket) (a : ClientAnswer) : Scheduler :=
  s.note (.replied ticket a)

def tell (s : Scheduler) (ticket : Checkpoint.Ticket) (v : Checkpoint.Verdict) : Scheduler :=
  s.note (.told ticket v)

def tellAll (s : Scheduler) (answers : List (Checkpoint.Ticket × Checkpoint.Verdict)) :
    Scheduler :=
  answers.foldl (fun s (ticket, v) => s.tell ticket v) s

def handleMessage (s : Scheduler) (ticket : Checkpoint.Ticket) : Message → Scheduler
  | .submit player session body =>
    match s.submit player session body with
    | (.ok id, s) => s.reply ticket (.task id)
    | (.error f, s) => s.reply ticket (.fault f)
  | .kill task =>
    match s.kill task with
    | (.ok (), s) => s.reply ticket .done
    | (.error f, s) => s.reply ticket (.fault f)
  | .checkpoint =>
    if s.draining then s.tell ticket (.error .shuttingDown)
    else { s with coordinator := s.coordinator.requestAnswer .explicit ticket }
  | .shutdown farewell =>
    { s with coordinator := s.coordinator.requestShutdown farewell }.reply ticket .done
  | .waiters => s.reply ticket (.waiters s.gateway.waiters)
  | .queueStats => s.reply ticket (.queue (s.heap.queueStats (s.queue.getD 0)))

def discard (s : Scheduler) (v : Value) : Scheduler :=
  { s with stats := { s.stats with discarded := s.stats.discarded + 1 } }.release v

/-- Makes the task that waits for a result ready; a result that no task waits for is thrown
away. -/
def handleCompletion (s : Scheduler) (c : Completion) : Scheduler :=
  let s := s.note (.taken c)
  match s.tasks.get? c.task with
  | none => s.discard c.result
  | some t =>
    if t.waiting = some c.handle then
      let s := s.updateTask c.task fun t => { t with waiting := none }
      let stats := { s.stats with
        resumed := s.stats.resumed + 1
        resumedDuringDrain := s.stats.resumedDuringDrain + (if s.draining then 1 else 0) }
      { s with stats }.enqueue c.task (.resume c.result)
    else (s.note (.stray c.handle c.task)).discard c.result

def takeMessage (s : Scheduler) : Scheduler :=
  match s.messages with
  | [] => s
  | (ticket, m) :: rest => { s with messages := rest }.handleMessage ticket m

def takeCompletion (s : Scheduler) : Scheduler :=
  match s.channel with
  | [] => s
  | c :: rest => { s with channel := rest }.handleCompletion c

/-- Takes the first thing that came in. When messages and results are there, either may be the
first; `eager` prefers the results. -/
def waitForEvent (s : Scheduler) (eager : Bool) : Scheduler :=
  if s.messages.isEmpty || (eager && !s.channel.isEmpty) then s.takeCompletion else s.takeMessage

def takeMessages : Nat → Scheduler → Scheduler
  | 0, s => s
  | n + 1, s => takeMessages n s.takeMessage

def takeCompletions : Nat → Scheduler → Scheduler
  | 0, s => s
  | n + 1, s => takeCompletions n s.takeCompletion

def processEvents (s : Scheduler) : Scheduler :=
  let s := takeMessages s.messages.length s
  takeCompletions s.channel.length s

/-! ## Checkpoints -/

def stampOf (now : Instant) : Nat := now / millisecond

/-- Writes a checkpoint, while no input is handed out, and gives its name. -/
def writeCheckpoint (s : Scheduler) (reason : Checkpoint.Reason) :
    Except Checkpoint.FileError String × Scheduler :=
  match s.directory with
  | none => (.error .notConfigured, s)
  | some d =>
    let (wasSuspended, sessions) := s.sessions.setInputSuspended true
    let s := { s with sessions }
    let (now, s) := s.now
    let ls := Checkpoint.lines reason s.gateway.live s.database s.entries
    let (result, d) := d.write (stampOf now) ls none
    let (_, sessions) := s.sessions.setInputSuspended wasSuspended
    (result.mapError .io, { s with directory := some d, sessions })

def checkpoint (s : Scheduler) (reason : Checkpoint.Reason) :
    Except TaskFault String × Scheduler :=
  match s.writeCheckpoint reason with
  | (.ok name, s) =>
    (.ok name, { s with stats := { s.stats with checkpoints := s.stats.checkpoints + 1 } })
  | (.error e, s) =>
    (.error (.checkpointFailed e.message),
      { s with stats := { s.stats with checkpointFailures := s.stats.checkpointFailures + 1 } })

def finishCheckpoint (s : Scheduler) (verdict : Checkpoint.Verdict) : Scheduler :=
  let (now, s) := s.now
  let (outcome, coordinator) := s.coordinator.finish now verdict
  let s := { s with coordinator }.tellAll outcome.answers
  match outcome.announcement with
  | some news => s.note (.announced news)
  | none => s

def pollCheckpoint (s : Scheduler) : Scheduler :=
  let (now, s) := s.now
  let (reason, coordinator) := s.coordinator.poll now
  let s := { s with coordinator }
  match reason with
  | none => s
  | some reason =>
    let (result, s) := s.checkpoint reason
    s.finishCheckpoint (result.map fun _ => ())

/-! ## Finalization -/

/-- Runs the finalizer of a value, which gets a reference of its own, as a task of the server. -/
def finalize (s : Scheduler) (v : Value) : Scheduler :=
  let s := s.onHost (·.keep v)
  match s.database.finalizer v with
  | none => s.release v
  | some body =>
    let (id, s) := s.createTask .system none body false
    s.runOne (id, .start)

def destroy (s : Scheduler) (v : Value) : Scheduler :=
  let s := s.note (.destroyed (v.finalizableId?.getD 0))
  { s with heap := s.heap.dropPin v }

def drainOnce (s : Scheduler) : Scheduler :=
  match s.queue with
  | none => s
  | some q =>
    let (fresh, heap) := s.heap.beginPass q
    let s := fresh.foldl finalize { s with heap }
    let (done, heap) := s.heap.endPass q
    done.foldl destroy { s with heap }

/-! ## Commands -/

/-- Starts the task that a line of input asks for, or sends back what is wrong with the line. -/
def startCommand (s : Scheduler) (entry : SessionId × String) : Scheduler :=
  let (session, line) := entry
  let line := Text.trim line
  if line.isEmpty then s
  else
    let player := ((s.sessions.get? session).bind Session.player).getD .nothing
    match s.parser line with
    | .ok draft =>
      let (body, s) := s.prepare draft
      let (id, s) := s.createTask player (some session) body false
      s.enqueue id .start
    | .error message => (s.sendLine session ("!! " ++ message)).2

def startCommands (s : Scheduler) : Scheduler :=
  let (lines, sessions) := s.sessions.takeInput
  lines.foldl startCommand { s with sessions }

def sweep (s : Scheduler) : Scheduler :=
  let (now, s) := s.now
  { s with sessions := (s.sessions.sweep now).2 }

/-! ## The loop -/

/-- One round, in which `eager` takes results before messages. The answer is no once the server is
to shut down. -/
def tick (s : Scheduler) (eager : Bool := false) : Bool × Scheduler :=
  let s := (s.waitForEvent eager).processEvents.pollCheckpoint.drainOnce.startCommands.runReady.sweep
  (!s.coordinator.stopping, s)

/-! ## Restoring -/

def highestQueued (entries : List Entry) : UInt64 :=
  entries.foldl (fun m e => max m (e.value.finalizableId?.getD 0)) 0

/-- Reads the newest checkpoint, if there is one. The numbers of new values start above those that
are taken then. -/
def restoreLatest (s : Scheduler) :
    Except Checkpoint.FileError (Option Checkpoint.Summary) × Scheduler :=
  match s.directory, s.queue with
  | some d, some q =>
    match d.latest with
    | .error e => (.error (.io e), s)
    | .ok none => (.ok none, s)
    | .ok (some name) =>
      let (result, database, heap) := d.load name q s.database s.heap
      let s := { s with database, heap }
      match result with
      | .error e => (.error e, s)
      | .ok summary =>
        let taken := max (highestQueued s.entries) (UInt64.ofNat database.maxObjectId)
        (.ok (some summary), { s with lastObject := max s.lastObject taken })
  | _, _ => (.ok none, s)

end MooCore.Scheduler
