import MooCore.Background.Routine
import MooCore.Checkpoint.Coordinator
/-!
# Events

What happens in a server that somebody outside could notice, in the order in which it happens.
-/

set_option autoImplicit false
namespace MooCore

/-- The extra data that a cleanup is called with; a hold is shown with the activity of its
session. -/
inductive CleanedExtra where
  | value (v : Value)
  | guard (session : SessionId) (activity : Nat)

/-- What a scripted task found out by one of its effects. -/
inductive Finding where
  | nothing
  | flag (b : Bool)
  | number (n : Nat)
  | object (o : Option Obj)
  | reply (r : Workspace.Reply)

/-- A note that a task or a routine leaves by itself. -/
inductive Remark where
  | step (task : TaskId) (player : Obj) (session : Option SessionId) (resumed : Option Value)
  | finding (f : Finding)
  | nested (response : Background.Response)
  | noSession (session : SessionId)
  | resumed (task : TaskId) (v : Value)
  | finalized (id : UInt64)

/-- What a client of the scheduler is told. -/
inductive ClientAnswer where
  | task (task : TaskId)
  | done
  | fault (f : TaskFault)
  | waiters (ws : List Background.Waiter)
  | queue (stats : QueueStats)

/-- What becomes of a request for background work is told under the number of the request. -/
inductive Event where
  /-- a waiter was put into the table and its thread started -/
  | accepted (request : Nat) (handle : Background.Handle) (task : TaskId)
  | refused (request : Nat) (why : Background.Refusal)
  /-- a callback came to its end -/
  | returned (request : Nat) (result : Value)
  /-- the result of a request that was done on the spot was handed over -/
  | immediate (request : Nat) (result : Value)
  /-- a waiter was marked because its task was killed -/
  | silenced (request : Nat)
  /-- the cleanup of a request was called, by a thread that did or did not hold the table's lock -/
  | cleaned (request : Nat) (cleanup : Background.Cleanup) (extra : Option CleanedExtra)
      (locked : Bool)
  /-- a result was put into the channel -/
  | sent (request : Nat) (completion : Background.Completion)
  /-- a result was thrown away because its task had been killed -/
  | discarded (request : Nat) (handle : Background.Handle) (task : TaskId)
  /-- a result was thrown away because nobody reads the channel any more -/
  | lost (request : Nat) (handle : Background.Handle) (task : TaskId)
  /-- a result was thrown away because its waiter was not in the table -/
  | vanished (request : Nat) (handle : Background.Handle) (task : TaskId)
  /-- a result was taken out of the channel -/
  | taken (completion : Background.Completion)
  /-- a result came for a task that does not wait for it -/
  | stray (handle : Background.Handle) (task : TaskId)
  /-- a result from the channel reached its task -/
  | delivered (task : TaskId)
  | remark (r : Remark)
  | created (task : TaskId) (player : Obj) (session : Option SessionId)
  | stepped (task : TaskId) (resumed : Option Value)
  /-- a task was to be stepped while it was being stepped -/
  | reentered (task : TaskId)
  | ended (task : TaskId) (result : Except String Value)
  | killed (task : TaskId) (player : Obj)
  /-- a task's answer arrived where somebody waits for it -/
  | answered (task : TaskId) (result : Except TaskFault Value)
  | replied (ticket : Checkpoint.Ticket) (answer : ClientAnswer)
  | told (ticket : Checkpoint.Ticket) (verdict : Checkpoint.Verdict)
  | announced (news : Checkpoint.Announcement)
  | destroyed (id : UInt64)

end MooCore
