import MooCore.Event
/-!
# Traces

What a list of events says about one thing.
-/

set_option autoImplicit false
namespace MooCore.Trace

def finalized (es : List Event) : List UInt64 :=
  es.filterMap fun
    | .remark (.finalized id) => some id
    | _ => none

def destroyed (es : List Event) : List UInt64 :=
  es.filterMap fun
    | .destroyed id => some id
    | _ => none

def answers (es : List Event) : List (TaskId × Except TaskFault Value) :=
  es.filterMap fun
    | .answered task result => some (task, result)
    | _ => none

def verdicts (es : List Event) : List (Checkpoint.Ticket × Checkpoint.Verdict) :=
  es.filterMap fun
    | .told ticket verdict => some (ticket, verdict)
    | _ => none

/-- What clients were told; news of a checkpoint is an answer to whoever asked for it. -/
def replies (es : List Event) : List (Checkpoint.Ticket × ClientAnswer) :=
  es.filterMap fun
    | .replied ticket a => some (ticket, a)
    | .told ticket (.ok ()) => some (ticket, .done)
    | .told ticket (.error f) => some (ticket, .fault f)
    | _ => none

def resumes (es : List Event) : List (TaskId × Value) :=
  es.filterMap fun
    | .remark (.resumed task v) => some (task, v)
    | _ => none

end MooCore.Trace
