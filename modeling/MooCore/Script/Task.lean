import MooCore.Script.Request
import MooCore.Task.Body
/-!
# Scripted tasks

Tasks written down as data. A script is a list of steps; a step has effects one after another,
notes what each of them finds, and ends. A step that needs a value by a name that stands for nothing
gives up its task. A simple task makes one request and ends with what comes of it.
-/

set_option autoImplicit false
namespace MooCore.Script
open Background

/-- One effect of a scripted step. -/
inductive Fx where
  | kill (task : TaskId)
  | owner (task : TaskId)
  | wizard (player : Obj)
  | newId
  /-- a new anonymous object under a name -/
  | anon (slot : String)
  | release (slot : String)
  | enqueue (slot : String)
  | checkpoint (reason : Checkpoint.Reason)
  | shutdown (farewell : Option String)
  | send (session : SessionId) (line : String)
  | push (session : SessionId) (line : String)
  | disconnect (session : SessionId)
  | setMax (n : Nat)
  | setThreading (on : Bool)
  | live
  | queued

/-- How a scripted step ends; by itself it completes with what it was resumed with. -/
inductive Ending where
  | background (r : Request)
  | abort (message : String)
  | complete (r : Recipe)
  | resumed

structure Step where
  effects : List Fx := []
  ending : Ending := .resumed

def found (f : Finding) (next : Act) : Act := .andThen (.remark (.finding f)) next

/-- Has an effect and notes what it found. -/
def Fx.run (next : Act) : Fx → Act
  | kill task => .effect (.kill task) fun b => found (.flag b) next
  | owner task => .effect (.owner task) fun o => found (.object o) next
  | wizard player => .effect (.isWizard player) fun b => found (.flag b) next
  | newId => .effect .newId fun id => found (.number id.toNat) next
  | anon slot =>
    .effect .newId fun id =>
    .andThen (.workspace (.make slot (.shape (.anon id .system)) true)) <|
    found (.number id.toNat) next
  | release slot => .effect (.workspace (.release slot)) fun r => found (.flag (r = .done)) next
  | enqueue slot => .effect (.workspace (.enqueue slot)) fun r => found (.reply r) next
  | checkpoint reason => .effect (.requestCheckpoint reason) fun b => found (.flag b) next
  | shutdown farewell => .andThen (.requestShutdown farewell) (found .nothing next)
  | send session line => .effect (.send session line) fun b => found (.flag b) next
  | push session line => .effect (.push session line) fun b => found (.flag b) next
  | disconnect session => .effect (.disconnect session) fun b => found (.flag b) next
  | setMax n => .effect (.setMaxThreads n) fun n => found (.number n) next
  | setThreading on => .effect (.setThreading on) fun b => found (.flag b) next
  | live => .effect .waiters fun (ws, _) => found (.number ws.length) next
  | queued => .effect .queueStats fun stats => found (.number stats.queued) next

def letGo (input : Input) (next : Act) : Act :=
  .andThen (.release input.result?.toList) next

/-- Makes a value for a step. A name that stands for nothing ends the task, which lets go of what it
holds. -/
def supply (input : Input) (held : List Value) (r : Recipe) (next : Value → Act) : Act :=
  .effect (.tryMake r) fun
    | .ok v => next v
    | .error name =>
      .andThen (.release held) (letGo input (.abort ("unknown slot " ++ name)))

def supplyAny (input : Input) (held : List Value) (r : Option Recipe) (next : Option Value → Act) :
    Act :=
  match r with
  | none => next none
  | some r => supply input held r fun v => next (some v)

/-- Settles the extra data of a request: a hold on the session, if one is wanted and the session is
there, takes the place of the value. -/
def guardInstead (guard : Option SessionId) (extra : Option Value)
    (next : Option Extra → Act) : Act :=
  match guard with
  | none => next (extra.map .value)
  | some session =>
    .effect (.acquire session) fun
      | true => .andThen (.release extra.toList) (next (some (.guard session)))
      | false => .andThen (.remark (.noSession session)) (next (extra.map .value))

def Request.gather (input : Input) (r : Request) (next : Background.Request → Act) : Act :=
  supply input [] r.argument fun argument =>
  supplyAny input [argument] r.extra fun extra =>
  guardInstead r.guard extra fun extra => next (r.make argument extra)

def Ending.run (input : Input) (after : Caller → Input → Act) : Ending → Act
  | background r => r.gather input fun r => letGo input (.request r after)
  | abort message => letGo input (.abort message)
  | complete r => supply input [] r fun v => letGo input (.complete v)
  | resumed => .complete (input.result?.getD .none)

def noteStep (caller : Caller) (input : Input) (next : Act) : Act :=
  .andThen (.remark (.step caller.task caller.player caller.session input.result?)) next

/-- Goes through the steps of a script; after the last one it completes with what it is resumed
with. -/
def run : List Step → Caller → Input → Act
  | [], caller, input => noteStep caller input (.complete (input.result?.getD .none))
  | step :: rest, caller, input =>
    noteStep caller input (step.effects.foldr (fun fx next => fx.run next)
      (step.ending.run input (run rest)))

def draft (description : String) (steps : List Step) : Draft where
  body _ := { description, step := run steps }

/-! ## Simple tasks -/

def recordResume (caller : Caller) : Input → Act
  | .start => .abort "started twice"
  | .resume v =>
    .andThen (.keep v) (.andThen (.remark (.resumed caller.task v)) (.complete v))

/-- Has its callback run on its argument. -/
def simple (title : String) (argument : Recipe) (callback : Callback) : Draft where
  recipes := [argument]
  body held :=
    { description := title, held
      step := fun caller input =>
        match input with
        | .start =>
          .request { title, argument := held.headD .none, callback := callback.run }
            recordResume
        | .resume v => recordResume caller (.resume v) }

/-! ## Commands -/

/-- Refuses lines that start with an exclamation mark, and answers other lines with themselves. -/
def echoCommand (line : String) : Except String Draft :=
  match line.toList with
  | '!' :: message => .error (String.ofList message)
  | _ => .ok { body := fun _ => {
      description := "echo"
      step := fun _ _ => .effect (.make (.shape (.str line))) .complete } }

end MooCore.Script
