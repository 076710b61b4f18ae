/-!
# Reasons for a checkpoint
-/

set_option autoImplicit false
namespace MooCore.Checkpoint

inductive Reason where
  | timer
  | signal
  | explicit
  | shutdown
deriving DecidableEq, Repr

namespace Reason

def all : List Reason := [timer, signal, explicit, shutdown]

def name : Reason → String
  | timer => "timer"
  | signal => "signal"
  | explicit => "explicit"
  | shutdown => "shutdown"

def ofName? (s : String) : Option Reason := all.find? fun r => r.name = s

end Reason
end MooCore.Checkpoint
