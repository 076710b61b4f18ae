import MooCore.Background.Refusal
import MooCore.Clock
/-!
# The table of background waiters

One waiter stands in the table for each request whose thread has been started and has not yet
reported back, in the order in which the threads were started. The table also holds the limits
under which new requests are let in. Handles count up from 1 and start again at 1 when the table
is empty.
-/

set_option autoImplicit false
namespace MooCore.Background

abbrev Handle := UInt32

/-- A waiter that is no longer active belongs to a task that was killed. Requests are numbered
through the whole run, so unlike a handle the number of a request never comes again. -/
structure Waiter where
  handle : Handle
  request : Nat
  task : TaskId
  title : String
  active : Bool := true
  started : Instant
deriving DecidableEq, Repr

/-- What is to be done with one of the waiters offered one after another. -/
inductive Verdict where
  | pass
  | kill
  | stop
deriving DecidableEq, Repr

/-- The table and the limits. The last two fields are kept for the record only. -/
structure Gateway where
  waiters : List Waiter := []
  next : Handle := 0
  max : Nat
  threading : Bool
  accepting : Bool := true
  /-- how many waiters were registered since the table was last empty -/
  streak : Nat := 0
  /-- the most that this number has ever been -/
  longest : Nat := 0
deriving Repr

namespace Gateway

def live (g : Gateway) : Nat := g.waiters.length

def handles (g : Gateway) : List Handle := g.waiters.map Waiter.handle

def waiter? (g : Gateway) (h : Handle) : Option Waiter := g.waiters.find? (·.handle = h)

def isWaiting (g : Gateway) (task : TaskId) : Bool := g.waiters.any (·.task = task)

def isActive (g : Gateway) (h : Handle) : Bool := (g.waiter? h).all Waiter.active

def successor (h : Handle) : Handle := if h + 1 = 0 then 1 else h + 1

def fresh (g : Gateway) : Handle := if g.waiters.isEmpty then 1 else g.next

/-- Puts a waiter at the end of the table. A waiter that has the handle already gives way. -/
def register (g : Gateway) (now : Instant) (request : Nat) (task : TaskId) (title : String) :
    Handle × Gateway :=
  let handle := g.fresh
  let w : Waiter := { handle, request, task, title, started := now }
  let waiters := if (g.waiter? handle).isSome
    then g.waiters.map fun old => if old.handle = handle then w else old
    else g.waiters ++ [w]
  let streak := if g.waiters.isEmpty then 1 else g.streak + 1
  (handle, { g with waiters, next := successor handle, streak, longest := Nat.max g.longest streak })

def remove (g : Gateway) (h : Handle) : Gateway :=
  { g with waiters := g.waiters.filter (·.handle ≠ h) }

/-- Why a request of a task is turned down, or whether it runs on the spot or on a thread. -/
inductive Admission where
  | refused (why : Refusal)
  | inline
  | thread
deriving DecidableEq, Repr

/-- What stands against one more waiter: the limit, or a waiter of the same task. -/
def objection (g : Gateway) (task : TaskId) : Option Refusal :=
  if g.max ≤ g.live then some (.tooManyThreads g.live g.max)
  else if g.isWaiting task then some (.alreadyWaiting task)
  else none

/-- The checks in their order: shutdown, threading off, the limit, one waiter per task. -/
def admission (g : Gateway) (task : TaskId) : Admission :=
  if !g.accepting then .refused .shuttingDown
  else if !g.threading then .inline
  else
    match g.objection task with
    | some why => .refused why
    | none => .thread

/-- Marks the waiters of a task as no longer active, and gives their number. -/
def kill (g : Gateway) (task : TaskId) : Nat × Gateway :=
  (g.waiters.countP (·.task = task),
    { g with waiters := g.waiters.map fun w =>
        if w.task = task then { w with active := false } else w })

def deactivate (g : Gateway) (h : Handle) : Gateway :=
  { g with waiters := g.waiters.map fun w =>
      if w.handle = h then { w with active := false } else w }

def status (h : Handle) : String := "waiting on thread " ++ Text.natText h.toNat

/-- What came of offering the waiters: the tasks seen, each with its status, those killed, and the
requests of the waiters that were killed. -/
structure Enumeration where
  seen : List (TaskId × String) := []
  killed : List TaskId := []
  silenced : List Nat := []

/-- Offers waiters one after another until told to stop. -/
def offer (rule : TaskId → String → Verdict) (g : Gateway) : List Waiter → Enumeration × Gateway
  | [] => ({}, g)
  | w :: ws =>
    let seen := (w.task, status w.handle)
    match rule w.task (status w.handle) with
    | .pass =>
      let (e, g) := offer rule g ws
      ({ e with seen := seen :: e.seen }, g)
    | .kill =>
      let (e, g) := offer rule (g.deactivate w.handle) ws
      ({ seen := seen :: e.seen, killed := w.task :: e.killed, silenced := w.request :: e.silenced },
        g)
    | .stop => ({ seen := [seen] }, g)

def enumerate (g : Gateway) (rule : TaskId → String → Verdict) : Enumeration × Gateway :=
  offer rule g g.waiters

def setMax (g : Gateway) (max : Nat) : Nat × Gateway := (g.max, { g with max })

def setThreading (g : Gateway) (threading : Bool) : Bool × Gateway :=
  (g.threading, { g with threading })

def stopAccepting (g : Gateway) : Gateway := { g with accepting := false }

end Gateway
end MooCore.Background
