import MooCore.Builtin.Call
import MooCore.Sha256
/-!
# Functions on background threads

Functions that do their work on a background thread, and those that look after the threads.
-/

set_option autoImplicit false
namespace MooCore.Builtin
open Background

/-- A new text as the result of a request whose argument is no longer needed. -/
def textInstead (argument : Value) (s : String) : Routine :=
  .ask (.make (.shape (.str s)) false) fun v => .ask (.release argument) fun _ => .finish v

def errorInstead (argument : Value) (code : ErrorCode) (message : String) : Routine :=
  .ask (.make (.shape (.errorMap code message)) false) fun v =>
  .ask (.release argument) fun _ => .finish v

/-- Waits, unless its task is killed, and ends with its argument. -/
def waiting (seconds : Nat) : Callback := fun _ message =>
  if seconds = 0 then .finish message
  else .ask .isActive fun active =>
    if active then .finish message
    else errorInstead message .intrpt "background_test() was interrupted"

def backgroundTestCall (f : Frame) : Call Outcome := do
  f.arity 0 2
  let message ← f.stringArg? 0
  let seconds ← if f.has 1 then f.intArg 1 else pure 5
  if seconds < 0 then
    Call.raise .invarg (some "background_test() needs a non-negative duration")
  else
    let argument ← Call.ask (.make (.shape (.str (message.getD "Hello, world."))))
    return .background
      { title := "background_test", argument, callback := waiting seconds.toInt.toNat }

def hashing : Callback := fun _ text =>
  match text with
  | .str _ s => textInstead text (Sha256.hexOf s)
  | _ => errorInstead text .invarg "string_hash() needs a string"

def stringHashCall (f : Frame) : Call Outcome := do
  f.arity 1 1
  let text ← f.stringArg 0
  let argument ← Call.ask (.make (.shape (.str text)))
  return .background { title := "string_hash", argument, callback := hashing }

def lookingUp : Callback := fun _ session =>
  .ask .peerName fun
    | some name => textInstead session name
    | none => errorInstead session .invarg "Could not resolve connection name"

/-- The connection is held until the lookup is done with. -/
def connectionNameLookupCall (f : Frame) : Call Outcome := do
  f.arity 0 0
  match f.caller.session with
  | none => Call.raise .invarg (some "connection_name_lookup() needs a connection")
  | some session =>
    if ← Call.ask (.acquire session) then
      return .background
        { title := "connection_name_lookup", argument := .int (Int64.ofNat session)
          extra := some (.guard session), cleanup := some { label := none }
          callback := lookingUp }
    else Call.raise .invarg (some "Connection is gone")

def threadsCall (f : Frame) : Call Outcome := do
  f.arity 0 0
  f.checkWizard
  let (ws, _) ← Call.ask .waiters
  Call.make (.list (ws.map fun w => .nat w.handle.toNat))

def secondsOf (span : Nat) : Binary64 :=
  Binary64.ofDecimal false { mantissa := span, exponent := -9 }

/-- A waiter as it is listed: handle, task, title, whether it is active, and seconds running. -/
def waiterShape (now : Instant) (w : Waiter) : Shape :=
  .list [.nat w.handle.toNat, .nat w.task, .str w.title, .bool w.active,
    .float (secondsOf (now - w.started))]

def backgroundTasksCall (f : Frame) : Call Outcome := do
  f.arity 0 0
  f.checkWizard
  let (ws, now) ← Call.ask .waiters
  Call.make (.list (ws.map (waiterShape now)))

def setThreadModeCall (f : Frame) : Call Outcome := do
  f.arity 1 1
  f.checkWizard
  let previous ← Call.ask (.setThreading (f.arg 0).isTrue)
  Call.make (.bool previous)

def setMaxBackgroundThreadsCall (f : Frame) : Call Outcome := do
  f.arity 1 1
  f.checkWizard
  let max ← f.intArg 0
  if max ≤ 0 then Call.raise .invarg
  else
    let previous ← Call.ask (.setMaxThreads max.toInt.toNat)
    Call.make (.nat previous)

def maxBackgroundThreadsCall (f : Frame) : Call Outcome := do
  f.arity 0 0
  let max ← Call.ask .maxThreads
  Call.make (.nat max)

end MooCore.Builtin
