import MooCore.Checkpoint.Reason
import MooCore.Clock
import MooCore.Task.Fault
/-!
# When to take a checkpoint

A latch that everything that can ask for a checkpoint shares. While a checkpoint is requested and
not yet begun, further requests are folded into it; while one runs, the first request that arrives
is kept for a run of its own. Whoever asked to be told is told by the first checkpoint that begins
after the request. The latch also carries the request to shut down, which is never taken back.

A checkpoint ends in two steps, first the latch and then the answers, between which new requests
may come in.
-/

set_option autoImplicit false
namespace MooCore.Checkpoint

abbrev Ticket := Nat

inductive Phase where
  | idle
  | requested (reason : Reason)
  | running (reason : Reason)
deriving DecidableEq, Repr

def Phase.text : Phase → String
  | idle => "Idle"
  | requested reason => String.join ["Requested(", reason.name.capitalize, ")"]
  | running reason => String.join ["Running(", reason.name.capitalize, ")"]

abbrev Verdict := Except TaskFault Unit

/-- A request for an answer from the checkpoint with this number or a later one. -/
structure Waiting where
  target : Nat
  ticket : Ticket
deriving DecidableEq, Repr

/-- The news of a finished checkpoint, for the listener that is named. -/
structure Announcement where
  listener : String
  reason : Reason
  ok : Bool
deriving DecidableEq, Repr

structure Coordinator where
  phase : Phase := .idle
  followUp : Option Reason := none
  runs : Nat := 0
  interval : Option Nat := none
  lastFinished : Instant := 0
  signalled : Bool := false
  waiting : List Waiting := []
  listener : Option String := none
  stopping : Bool := false
  farewell : Option String := none
deriving Inhabited

namespace Coordinator

/-- Asks for a checkpoint. The answer is no if the request was folded into an earlier one. -/
def request (c : Coordinator) (reason : Reason) : Bool × Coordinator :=
  match c.phase with
  | .idle => (true, { c with phase := .requested reason })
  | .requested _ => (false, c)
  | .running _ => (c.followUp.isNone, { c with followUp := c.followUp <|> some reason })

def requestAnswer (c : Coordinator) (reason : Reason) (ticket : Ticket) : Coordinator :=
  let asked : Waiting := { target := c.runs + 1, ticket }
  ({ c with waiting := c.waiting ++ [asked] }.request reason).2

def signal (c : Coordinator) : Coordinator := { c with signalled := true }

def requestShutdown (c : Coordinator) (farewell : Option String) : Coordinator :=
  { c with stopping := true, farewell := c.farewell <|> farewell }

def takeSignal (c : Coordinator) : Coordinator :=
  if c.signalled then ({ c with signalled := false }.request .signal).2 else c

/-- An idle latch requests a checkpoint by itself once the interval has passed. -/
def isDue (c : Coordinator) (now : Instant) : Bool :=
  c.phase = .idle ∧ c.interval.any fun interval => interval ≤ now - c.lastFinished

def takeTimer (c : Coordinator) (now : Instant) : Coordinator :=
  if c.isDue now then { c with phase := .requested .timer } else c

def begin (c : Coordinator) : Option Reason × Coordinator :=
  match c.phase with
  | .requested reason => (some reason, { c with phase := .running reason, runs := c.runs + 1 })
  | .idle | .running _ => (none, c)

def poll (c : Coordinator) (now : Instant) : Option Reason × Coordinator :=
  (c.takeSignal.takeTimer now).begin

/-- The first step of ending a checkpoint: the latch is free again, or holds the request that
came in meanwhile. -/
def settle (c : Coordinator) (now : Instant) : Option Reason × Coordinator :=
  match c.phase with
  | .running reason =>
    let phase := match c.followUp with
      | some again => .requested again
      | none => .idle
    (some reason, { c with phase, followUp := none, lastFinished := now })
  | .idle | .requested _ => (none, c)

/-- The second step: those whose checkpoint has the number `run` or a smaller one are answered. -/
def answer (c : Coordinator) (run : Nat) (verdict : Verdict) :
    List (Ticket × Verdict) × Coordinator :=
  ((c.waiting.filter (·.target ≤ run)).map fun w => (w.ticket, verdict),
    { c with waiting := c.waiting.filter fun w => !(w.target ≤ run) })

/-- What comes out of a finished checkpoint. -/
structure Outcome where
  answers : List (Ticket × Verdict) := []
  announcement : Option Announcement := none

def finish (c : Coordinator) (now : Instant) (verdict : Verdict) : Outcome × Coordinator :=
  match c.settle now with
  | (none, c) => ({}, c)
  | (some reason, c) =>
    let (answers, c) := c.answer c.runs verdict
    let ok := match verdict with | .ok () => true | .error _ => false
    ({ answers, announcement := c.listener.map fun listener => { listener, reason, ok } }, c)

/-- Answers everybody who still waits, for a checkpoint that is not going to be. -/
def failWaiting (c : Coordinator) (fault : TaskFault) : List (Ticket × Verdict) × Coordinator :=
  (c.waiting.map fun w => (w.ticket, .error fault), { c with waiting := [] })

end Coordinator
end MooCore.Checkpoint
