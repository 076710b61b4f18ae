import MooCore.Clock
import MooCore.Named
import MooCore.Value
/-!
# Sessions

The registry of network connections. A session's activity is the number of guards that hold it; a
transport is closed only by the registry and only while nobody holds the session, and a session
leaves the registry at that moment. Sessions that have left stay known to whoever still has a
handle to them, so the registry keeps every session ever opened and says which are registered.
-/

set_option autoImplicit false
namespace MooCore

abbrev SessionId := Nat

/-- Why a line was not sent. -/
inductive SendFault where
  | notConnected
deriving DecidableEq, Repr

def SendFault.message : SendFault → String
  | notConnected => "not connected"

/-- The far end of a connection, with what was sent to it and how often it was closed. -/
structure Transport where
  peer : String
  sent : List String := []
  closings : Nat := 0

def Transport.send (t : Transport) (line : String) : Except SendFault Transport :=
  if t.closings = 0 then .ok { t with sent := t.sent ++ [line] } else .error .notConnected

inductive CloseReason where
  | disconnected
  | timeout
  | shutdown
deriving DecidableEq, Repr

def CloseReason.text : CloseReason → String
  | disconnected => "DISCONNECTED"
  | timeout => "TIMEOUT"
  | shutdown => "SHUTDOWN"

inductive CloseOutcome where
  | closed
  | deferred
  | notFound
deriving DecidableEq, Repr

/-- A connection. `attached` says that the session still has its transport. -/
structure Session where
  id : SessionId
  name : String
  player : Option Obj := none
  activity : Nat := 0
  disconnecting : Bool := false
  lastActivity : Instant
  input : List String := []
  transport : Transport
  attached : Bool := true
  registered : Bool := true

namespace Session

def peerName (s : Session) : Option String := if s.attached then some s.transport.peer else none

def send (s : Session) (line : String) : Except SendFault Session :=
  if s.attached then (s.transport.send line).map fun transport => { s with transport }
  else .error .notConnected

def opened (id : SessionId) (now : Instant) (peer : String) : Session :=
  { id, name := peer, lastActivity := now, transport := { peer } }

/-! ### What closing is made of -/

def hold (s : Session) : Session := { s with activity := s.activity + 1 }

def letGo (s : Session) : Session := { s with activity := s.activity - 1 }

def shut (s : Session) : Session :=
  { s with
    attached := false
    transport := if s.attached then { s.transport with closings := s.transport.closings + 1 }
      else s.transport }

def leave (s : Session) : Session := { s with registered := false }

/-! ### What is done through a handle -/

inductive Touch where
  | login (player : Obj)
  | requestDisconnect
  | pushInput (now : Instant) (line : String)
  | takeLine
  | send (line : String)

/-- The session afterwards. Nothing here asks whether the session is registered. -/
def touch (s : Session) : Touch → Session
  | .login player => { s with player := some player }
  | .requestDisconnect => { s with disconnecting := true }
  | .pushInput now line => { s with lastActivity := now, input := s.input ++ [line] }
  | .takeLine => if s.disconnecting then s else { s with input := s.input.tail }
  | .send line => match s.send line with
    | .ok s => s
    | .error _ => s

end Session

/-- Every session ever opened, in order of opening. -/
structure Sessions where
  all : List Session := []
  timeout : Nat
  inputSuspended : Bool := false

namespace Sessions

def handle? (r : Sessions) (id : SessionId) : Option Session := r.all.find? (·.id = id)

def get? (r : Sessions) (id : SessionId) : Option Session :=
  (r.handle? id).filter Session.registered

def registered (r : Sessions) : List Session := r.all.filter Session.registered

def adjust (r : Sessions) (id : SessionId) (f : Session → Session) : Sessions :=
  { r with all := r.all.map fun s => if s.id = id then f s else s }

/-- Changes a registered session, and says whether there is one. -/
def change (r : Sessions) (id : SessionId) (f : Session → Session) : Bool × Sessions :=
  if (r.get? id).isSome then (true, r.adjust id f) else (false, r)

def openSession (r : Sessions) (now : Instant) (peer : String) : SessionId × Sessions :=
  let id := r.all.length + 1
  (id, { r with all := r.all ++ [.opened id now peer] })

def guard (r : Sessions) (id : SessionId) : Bool × Sessions :=
  r.change id Session.hold

def unguard (r : Sessions) (id : SessionId) : Sessions := r.adjust id Session.letGo

/-- Does something to a registered session, and says whether there is one. -/
def touch (r : Sessions) (id : SessionId) (t : Session.Touch) : Bool × Sessions :=
  r.change id (·.touch t)

def login (r : Sessions) (id : SessionId) (player : Obj) : Bool × Sessions :=
  r.touch id (.login player)

def requestDisconnect (r : Sessions) (id : SessionId) : Bool × Sessions :=
  r.touch id .requestDisconnect

/-- Sends a line through a handle, whether the session is registered or not. -/
def sendTo (r : Sessions) (id : SessionId) (line : String) : Except SendFault Unit × Sessions :=
  match r.handle? id with
  | none => (.error .notConnected, r)
  | some s =>
    match s.send line with
    | .ok _ => (.ok (), r.adjust id (·.touch (.send line)))
    | .error e => (.error e, r)

/-- Sends a line to a registered session, and says whether it went. -/
def send (r : Sessions) (id : SessionId) (line : String) : Bool × Sessions :=
  match r.get? id with
  | none => (false, r)
  | some _ =>
    match r.sendTo id line with
    | (.ok (), r) => (true, r)
    | (.error _, r) => (false, r)

def broadcast (r : Sessions) (line : String) : Sessions :=
  r.registered.foldl (fun r s => (r.send s.id line).2) r

def pushInput (r : Sessions) (now : Instant) (id : SessionId) (line : String) : Bool × Sessions :=
  r.touch id (.pushInput now line)

def nextLine? (s : Session) : Option (SessionId × String) :=
  if s.registered && !s.disconnecting then s.input.head?.map fun line => (s.id, line) else none

def withoutLine (s : Session) : Session := if s.registered then s.touch .takeLine else s

/-- One line from every session that has one, in order of opening; none while input is
suspended. -/
def takeInput (r : Sessions) : List (SessionId × String) × Sessions :=
  if r.inputSuspended then ([], r)
  else (r.all.filterMap nextLine?, { r with all := r.all.map withoutLine })

def setInputSuspended (r : Sessions) (on : Bool) : Bool × Sessions :=
  (r.inputSuspended, { r with inputSuspended := on })

/-- Closes a session unless somebody else holds it: the registry takes a hold of its own first, and
any above that one belongs to somebody else. -/
def tryClose (r : Sessions) (id : SessionId) : CloseOutcome × Sessions :=
  match r.get? id with
  | none => (.notFound, r)
  | some s =>
    let taken := r.adjust id Session.hold
    if 1 < s.hold.activity then (.deferred, taken.unguard id)
    else (.closed, ((taken.adjust id Session.shut).unguard id).adjust id Session.leave)

/-- Tries to close sessions one after another, and gives those with the wanted outcome. -/
def tryCloseAll {α : Type} (outcome : CloseOutcome) (r : Sessions) :
    List (SessionId × α) → List (SessionId × α) × Sessions
  | [] => ([], r)
  | (id, a) :: rest =>
    let (o, r) := r.tryClose id
    let (matching, r) := tryCloseAll outcome r rest
    (if o = outcome then (id, a) :: matching else matching, r)

def dueFor? (r : Sessions) (now : Instant) (s : Session) : Option CloseReason :=
  if s.disconnecting then some .disconnected
  else if s.player.isNone ∧ r.timeout < now - s.lastActivity then some .timeout
  else none

/-- Closes what asked to be closed and what has not logged in in time. -/
def sweep (r : Sessions) (now : Instant) : List (SessionId × CloseReason) × Sessions :=
  r.tryCloseAll .closed (r.registered.filterMap fun s => (r.dueFor? now s).map fun why => (s.id, why))

/-- Closes everything that nobody holds, and gives the number of sessions that are held. -/
def closeAll (r : Sessions) : Nat × Sessions :=
  let (held, r) := r.tryCloseAll .deferred (r.registered.map fun s => (s.id, ()))
  (held.length, r)

/-! ## What has changed -/

def earlier? (before : List Session) (s : Session) : Option Session :=
  before.find? (·.id = s.id)

/-- The lines that were sent since the sessions were as before, to those that were sent any. -/
def linesSince (r : Sessions) (before : List Session) : List (SessionId × List String) :=
  (r.all.map fun s =>
    (s.id, s.transport.sent.drop ((earlier? before s).elim 0 (·.transport.sent.length)))).filter
      (!·.2.isEmpty)

/-- The sessions whose transport has been closed for the first time since then. -/
def closedSince (r : Sessions) (before : List Session) : List SessionId :=
  (r.all.filter fun s => 0 < s.transport.closings
    && (earlier? before s).elim true (·.transport.closings = 0)).map Session.id

end Sessions

/-- A registry with holds under names. -/
structure Lobby where
  sessions : Sessions
  guards : Named String SessionId := []

namespace Lobby

/-- Takes a hold under a name, and gives the activity with it. A hold that had the name is ended
after that. -/
def acquire (l : Lobby) (id : SessionId) (name : String) : Option Nat × Lobby :=
  match l.sessions.guard id with
  | (false, _) => (none, l)
  | (true, sessions) =>
    let activity := (sessions.get? id).map Session.activity
    let sessions := match l.guards.get? name with
      | some old => sessions.unguard old
      | none => sessions
    (activity, { sessions, guards := l.guards.set name id })

def release (l : Lobby) (name : String) : Option SessionId × Lobby :=
  match l.guards.get? name with
  | some id => (some id, { sessions := l.sessions.unguard id, guards := l.guards.erase name })
  | none => (none, l)

end Lobby
end MooCore
