import MooCore.Background.Host
/-!
# Scripted background work

Requests and callbacks written down as data: enough of them to show everything that background
work can do.
-/

set_option autoImplicit false
namespace MooCore.Script
open Background

/-- What a scripted callback does with its argument. -/
inductive Callback where
  | echo
  | double
  | constant (r : Recipe)
  | crash (message : Option String)
  /-- tells everything a callback can find out about itself -/
  | probe
  | peer
  | kill (task : TaskId)
  | suspend (task : TaskId) (title : String) (argument : Recipe) (extra : Option Recipe)
      (cleanup : Option Cleanup) (guard : Option SessionId) (callback : Callback)
deriving Inhabited

def valueOrNone (v : Option Value) : Value := v.getD .none

def handleValue (handle : Option Handle) : Value :=
  handle.elim .none fun h => .int (Int64.ofNat h.toNat)

def boolValue (b : Bool) : Value := .int (if b then 1 else 0)

def instead (argument result : Value) : Routine :=
  .ask (.release argument) fun _ => .finish result

def insteadMake (argument : Value) (s : Shape) : Routine :=
  .ask (.make (.shape s) false) (instead argument)

def double? : Value → Option Int64
  | .int n =>
    let m := n.toInt * 2
    if Int64.minValue.toInt ≤ m ∧ m ≤ Int64.maxValue.toInt then some (Int64.ofInt m) else none
  | _ => none

def makeOptional (r : Option Recipe) (next : Option Value → Routine) : Routine :=
  match r with
  | none => next none
  | some r => .ask (.make r true) fun v => next (some v)

/-- Settles the extra data of a request: a hold on the session, if one is wanted and the session is
there, takes the place of the value. -/
def holdInstead (guard : Option SessionId) (extra : Option Value)
    (next : Option Extra → Routine) : Routine :=
  match guard, extra with
  | none, extra => next (extra.map .value)
  | some session, extra =>
    .ask (.acquire session) fun
      | true =>
        match extra with
        | none => next (some (.guard session))
        | some v => .ask (.release v) fun _ => next (some (.guard session))
      | false => .ask (.noSession session) fun _ => next (extra.map .value)

/-- Notes the answer to a request, lets go of it, and ends with the argument. -/
def reportResponse (argument : Value) (response : Response) : Routine :=
  .ask (.report response) fun _ =>
  match response with
  | .ok (.immediate v) => .ask (.release v) fun _ => .finish argument
  | .ok (.waiting _) | .error _ => .finish argument

def Callback.run : Callback → Background.Callback
  | echo => fun _ v => .finish v
  | double => fun _ v =>
    match double? v with
    | some n => instead v (.int n)
    | none => insteadMake v (.errorMap .invarg "not a number")
  | constant r => fun _ v => .ask (.make r false) (instead v)
  | crash message => fun _ v => .ask (.release v) fun _ => .crash message
  | probe => fun handle v =>
    .ask .isActive fun active =>
    .ask .extra fun extra =>
    .ask (.list [handleValue handle, boolValue active, valueOrNone extra, v]) .finish
  | peer => fun _ v =>
    .ask .peerName fun name => insteadMake v (name.elim .none .str)
  | kill task => fun _ v =>
    .ask (.kill task) fun n =>
    .ask .isActive fun active =>
    .ask (.release v) fun _ =>
    .ask (.list [.int (Int64.ofNat n), boolValue active]) .finish
  | suspend task title argument extra cleanup guard callback => fun _ v =>
    .ask (.make argument true) fun argument =>
    makeOptional extra fun extra =>
    holdInstead guard extra fun extra =>
    .suspend task { title, argument, extra, cleanup } callback.run (reportResponse v)

/-- A request written down: what travels with it is a hold on a session, if the session is there,
or else a value. -/
structure Request where
  title : String
  argument : Recipe
  callback : Callback
  extra : Option Recipe := none
  cleanup : Option Cleanup := none
  guard : Option SessionId := none
deriving Inhabited

def Request.make (r : Request) (argument : Value) (extra : Option Extra) : Background.Request where
  title := r.title
  argument
  extra
  cleanup := r.cleanup
  callback := r.callback.run

def Request.prepare (r : Request) (h : Host) : Background.Request × Host :=
  let (argument, h) := h.build r.argument
  match r.extra with
  | none => (r.make argument none, h)
  | some extra =>
    let (extra, h) := h.build extra
    (r.make argument (some (.value extra)), h)

end MooCore.Script
