import MooCore.Text.Integer
/-!
# Task faults

Why a task, or a question put to the scheduler, came to nothing.
-/

set_option autoImplicit false
namespace MooCore

abbrev TaskId := Nat

inductive TaskFault where
  | notResponding
  | notFound (task : TaskId)
  | cannotStart
  | aborted
  | cancelled
  | shuttingDown
  | checkpointFailed (reason : String)
deriving DecidableEq, Repr

def TaskFault.message : TaskFault → String
  | notResponding => "Scheduler not responding"
  | notFound task => "Task not found: " ++ Text.natText task
  | cannotStart => "Could not start task (internal error)"
  | aborted => "Task aborted due to error."
  | cancelled => "Task aborted due to cancellation."
  | shuttingDown => "Server is shutting down"
  | checkpointFailed reason => "Checkpoint failed: " ++ reason

end MooCore
