import MooCore.Background.Gateway
import MooCore.Sessions
import MooCore.Workspace
/-!
# What runs in the background

A request names a routine, its argument, data that travels with it and what to do with that data
in the end. A routine is a tree: it asks its surroundings one thing after another, going on with
each answer, and ends with a value or breaks down. It may itself make a request in the name of a
task.
-/

set_option autoImplicit false
namespace MooCore.Background

/-- Data that travels with a request: a value, or a hold on a session. -/
inductive Extra where
  | value (v : Value)
  | guard (session : SessionId)

/-- What is called with the extra data once a request is done with, however it ended. A cleanup
without a label leaves no trace; one that fails has no further effect. -/
structure Cleanup where
  label : Option String
  fails : Bool := false
deriving DecidableEq, Repr

/-- What a request carries beside its routine. -/
structure Envelope where
  title : String
  argument : Value
  extra : Option Extra := none
  cleanup : Option Cleanup := none

/-- What a task that made a request is told: which handle to wait for, or the result. -/
inductive Suspension where
  | waiting (handle : Handle)
  | immediate (result : Value)

abbrev Response := Except Refusal Suspension

/-- One thing a routine can ask its surroundings for. -/
inductive Query where
  /-- whether its task still wants the result -/
  | isActive
  /-- to mark the waiters of a task -/
  | kill (task : TaskId)
  /-- the far end of the session that its extra data holds -/
  | peerName
  /-- a share of its extra value -/
  | extra
  /-- a new value; if attached, its anonymous objects and waifs go to the queue in the end -/
  | make (recipe : Recipe) (attached : Bool)
  /-- a list of values that it takes over -/
  | list (elements : List Value)
  /-- to let go of a value -/
  | release (v : Value)
  /-- to hold a session -/
  | acquire (session : SessionId)
  /-- to leave a note that a session is not there to be held -/
  | noSession (session : SessionId)
  /-- to leave a note of the answer to a request of its own -/
  | report (response : Response)

abbrev Query.Answer : Query → Type
  | isActive | acquire _ => Bool
  | kill _ => Nat
  | peerName => Option String
  | extra => Option Value
  | make .. | list _ => Value
  | release _ | noSession _ | report _ => Unit

inductive Routine where
  | finish (result : Value)
  | crash (message : Option String)
  | ask (q : Query) (next : q.Answer → Routine)
  | suspend (task : TaskId) (envelope : Envelope) (body : Option Handle → Value → Routine)
      (next : Response → Routine)

/-- From a handle, unless the routine runs on the spot, and the argument to the routine. -/
abbrev Callback := Option Handle → Value → Routine

structure Request extends Envelope where
  callback : Callback

/-- A result on its way back to the task that waits for it. -/
structure Completion where
  handle : Handle
  task : TaskId
  result : Value

end MooCore.Background
