import MooCore.Task.Fault
import MooCore.Value
/-!
# Refusals of background work

Why a request to run work off the scheduler's thread was turned down. Reaching the limit and not
getting a thread look alike to the task that asked.
-/

set_option autoImplicit false
namespace MooCore.Background

inductive Refusal where
  | tooManyThreads (live max : Nat)
  | spawnFailed (reason : String)
  | shuttingDown
  | alreadyWaiting (task : TaskId)
deriving DecidableEq, Repr

namespace Refusal
open Text (natText)

def message : Refusal → String
  | tooManyThreads live max => String.join
      ["Too many background threads (", natText live, " live, maximum ", natText max, ")"]
  | spawnFailed reason => "Could not start background thread: " ++ reason
  | shuttingDown => "Server is shutting down; no new background work accepted"
  | alreadyWaiting task => String.join
      ["Task ", natText task, " is already waiting on a background thread"]

def isExhaustion : Refusal → Bool
  | tooManyThreads .. | spawnFailed _ => true
  | shuttingDown | alreadyWaiting _ => false

def errorCode : Refusal → ErrorCode
  | tooManyThreads .. | spawnFailed _ | shuttingDown => .quota
  | alreadyWaiting _ => .exec

def errorMap (r : Refusal) : Shape := .errorMap r.errorCode r.message

end Refusal
end MooCore.Background
