import MooCore.Builtin.Call
/-!
# Functions on the server

Checkpoints and shutdown, killing tasks, logging in, and values that are finalized in the end.
-/

set_option autoImplicit false
namespace MooCore.Builtin

def checkpointCall (f : Frame) : Call Outcome := do
  f.arity 0 0
  f.checkWizard
  let fresh ← Call.ask (.requestCheckpoint .explicit)
  Call.make (.bool fresh)

def shutdownCall (f : Frame) : Call Outcome := do
  f.arity 0 1
  f.checkWizard
  let farewell ← f.stringArg? 0
  Call.ask (.requestShutdown farewell)
  return .value .none

/-- A task is killed by its own player or by a wizard. -/
def killTaskCall (f : Frame) : Call Outcome := do
  f.arity 1 1
  let task ← f.intArg 0
  if task < 0 then Call.raise .invarg
  else
    let task := task.toInt.toNat
    match ← Call.ask (.owner task) with
    | none => Call.raise .invarg (some ("No such task: " ++ Text.natText task))
    | some owner =>
      if owner ≠ f.caller.player then f.checkWizard
      let _ ← Call.ask (.kill task)
      return .value .none

/-- Logs the connection of the caller in. Only a wizard becomes another wizard. -/
def connectCall (f : Frame) : Call Outcome := do
  f.arity 1 1
  let player ← f.objArg 0
  if player = .nothing then Call.raise .invarg (some "Cannot connect as #-1")
  else
    match f.caller.session with
    | none => Call.raise .perm
    | some session =>
      if player ≠ f.caller.player then
        if ← Call.ask (.isWizard player) then f.checkWizard
      if ← Call.ask (.login session player) then return .value (.obj player)
      else Call.raise .invarg (some "Connection is gone")

def newWaifCall (f : Frame) : Call Outcome := do
  f.arity 1 1
  let cls ← f.objArg 0
  let id ← Call.ask .newId
  Call.make (.waif id cls f.caller.player [])

def createAnonymousCall (f : Frame) : Call Outcome := do
  f.arity 1 1
  let parent ← f.objArg 0
  let id ← Call.ask .newId
  Call.make (.anon id parent)

def finalizationStatsCall (f : Frame) : Call Outcome := do
  f.arity 0 0
  let stats ← Call.ask .queueStats
  Call.make <| .map
    [(.str "queued", .nat stats.queued),
      (.str "awaiting_finalizer", .nat stats.awaitingFinalizer),
      (.str "awaiting_release", .nat stats.awaitingRelease)]

end MooCore.Builtin
