import MooCore.Background.Host
/-!
# Task bodies

What a task does in one step is a tree: it has effects on its surroundings, going on with the
answer to each, and then completes, gives up, or asks for work in the background and says how it
goes on with the result. Killing is only asked for; it happens after the step.
-/

set_option autoImplicit false
namespace MooCore

/-- Who runs: the task, the player on whose behalf it runs, and the session it belongs to. -/
structure Caller where
  task : TaskId
  player : Obj
  session : Option SessionId

inductive Input where
  | start
  | resume (result : Value)

def Input.result? : Input → Option Value
  | start => none
  | resume v => some v

/-- One thing a task can do to its surroundings. -/
inductive Effect where
  | acquire (s : SessionId)
  | login (s : SessionId) (player : Obj)
  | send (s : SessionId) (line : String)
  | push (s : SessionId) (line : String)
  | disconnect (s : SessionId)
  /-- the background waiters, and the time -/
  | waiters
  | maxThreads
  | setMaxThreads (n : Nat)
  | setThreading (on : Bool)
  | requestCheckpoint (reason : Checkpoint.Reason)
  | requestShutdown (farewell : Option String)
  /-- the player of a task, if there is such a task -/
  | owner (task : TaskId)
  | isWizard (player : Obj)
  | kill (task : TaskId)
  /-- a number for a new anonymous object or waif -/
  | newId
  | make (recipe : Recipe)
  /-- a value, unless a name in it stands for nothing -/
  | tryMake (recipe : Recipe)
  | keep (v : Value)
  | release (vs : List Value)
  | workspace (op : Workspace.Op)
  | queueStats
  | remark (r : Remark)

abbrev Effect.Answer : Effect → Type
  | acquire _ | login .. | send .. | push .. | disconnect _ => Bool
  | waiters => List Background.Waiter × Instant
  | maxThreads | setMaxThreads _ => Nat
  | setThreading _ | requestCheckpoint _ => Bool
  | requestShutdown _ => Unit
  | owner _ => Option Obj
  | isWizard _ | kill _ => Bool
  | newId => UInt64
  | make _ => Value
  | tryMake _ => Except String Value
  | keep _ | release _ => Unit
  | workspace _ => Workspace.Reply
  | queueStats => QueueStats
  | remark _ => Unit

/-- One step of a task, and how it goes on after work in the background. -/
inductive Act where
  | complete (result : Value)
  | abort (message : String)
  | effect (e : Effect) (next : e.Answer → Act)
  | background (envelope : Background.Envelope) (callback : Background.Callback)
      (held : List Value) (next : Caller → Input → Act)

/-- A task that is ready for its next step, with the values it holds meanwhile. -/
structure Body where
  description : String
  held : List Value := []
  step : Caller → Input → Act

/-- A task yet to be made: values to make for it, and the body that holds them. -/
structure Draft where
  recipes : List Recipe := []
  body : List Value → Body

namespace Act

def andThen (e : Effect) (next : Act) : Act := .effect e fun _ => next

def request (r : Background.Request) (next : Caller → Input → Act) : Act :=
  .background r.toEnvelope r.callback [] next

end Act
end MooCore
