import MooCore.Config
import MooCore.Config.Document
/-!
# Configuration files

A file names some of what can be set. Its objects are laid over the defaults member by member, and
the result is read as a configuration; members that no setting is called by are passed over. A
record may also be written as the list of its members. This is one way to read a file: files are
written in JSON here, which is a part of YAML, and `Arguments.loadConfig` takes any other reader.
-/

set_option autoImplicit false
namespace MooCore.Config
namespace Document

def member? (fields : List (String × Document)) (name : String) : Option Document :=
  (fields.reverse.find? (·.1 = name)).map Prod.snd

def setMember (fields : List (String × Document)) (name : String) (d : Document) :
    List (String × Document) :=
  fields.filter (·.1 ≠ name) ++ [(name, d)]

mutual

/-- Lays a document over another: objects member by member, all else as a whole. -/
def layOver (top : Document) (base : Document) : Document :=
  match top, base with
  | .object fields, .object below => .object (overFields fields below)
  | top, _ => top

def overFields (fields : List (String × Document)) (below : List (String × Document)) :
    List (String × Document) :=
  match fields with
  | [] => below
  | (name, d) :: rest =>
    let d := match member? below name with
      | some old => layOver d old
      | none => d
    overFields rest (setMember below name d)

end

/-! ## Writing a configuration -/

def ofNat (n : Nat) : Document := .int n

def ofDuration (d : Duration) : Document :=
  .object [("secs", ofNat d.secs), ("nanos", ofNat d.nanos)]

def ofConfig (c : Config) : Document :=
  .object
    [("runtime", .object
        [("max_background_threads", ofNat c.runtime.maxBackgroundThreads),
          ("background_threading", .bool c.runtime.backgroundThreading),
          ("shutdown_drain_timeout", ofDuration c.runtime.shutdownDrainTimeout),
          ("shutdown_poll_interval", ofDuration c.runtime.shutdownPollInterval)]),
      ("checkpoint", .object
        [("output_path", c.checkpoint.outputPath.elim .null .str),
          ("interval", c.checkpoint.interval.elim .null ofDuration)]),
      ("network", .object
        [("listen_address", .str c.network.listenAddress),
          ("connect_timeout", ofDuration c.network.connectTimeout)])]

/-! ## Reading a configuration -/

def members (names : List String) : Document → Option (List (Option Document))
  | .object fields => some (names.map (member? fields))
  | .list elements => some ((List.range names.length).map (elements[·]?))
  | _ => none

def orDefault {α : Type} (default : α) (read : Document → Option α) : Option Document → Option α
  | none => some default
  | some d => read d

def orNull {α : Type} (read : Document → Option α) : Document → Option (Option α)
  | .null => some none
  | d => (read d).map some

def natUpTo (limit : Nat) : Document → Option Nat
  | .int n => if 0 ≤ n ∧ n ≤ limit then some n.toNat else none
  | _ => none

def toBool? : Document → Option Bool
  | .bool b => some b
  | _ => none

def toText? : Document → Option String
  | .str s => some s
  | _ => none

def carry (secs nanos : Nat) : Option Duration :=
  let secs := secs + nanos / second
  if secs ≤ Text.wordLimit then some { secs, nanos := nanos % second } else none

def onlyMembers (names : List String) : Document → Bool
  | .object fields => fields.all fun f => f.1 ∈ names
  | _ => true

def toDuration? (d : Document) : Option Duration := do
  let names := ["secs", "nanos"]
  if !onlyMembers names d then none
  match ← members names d with
  | [some secs, some nanos] => do
    let secs ← natUpTo Text.wordLimit secs
    let nanos ← natUpTo 0xffffffff nanos
    carry secs nanos
  | _ => none

def toRuntime? (d : Document) : Option RuntimeConfig := do
  let c : RuntimeConfig := {}
  match ← members ["max_background_threads", "background_threading", "shutdown_drain_timeout",
      "shutdown_poll_interval"] d with
  | [max, threading, drain, poll] => do
    let max ← orDefault c.maxBackgroundThreads (natUpTo Text.wordLimit) max
    let threading ← orDefault c.backgroundThreading toBool? threading
    let drain ← orDefault c.shutdownDrainTimeout toDuration? drain
    let poll ← orDefault c.shutdownPollInterval toDuration? poll
    some { maxBackgroundThreads := max, backgroundThreading := threading
           shutdownDrainTimeout := drain, shutdownPollInterval := poll }
  | _ => none

def toCheckpoint? (d : Document) : Option CheckpointConfig := do
  match ← members ["output_path", "interval"] d with
  | [path, interval] => do
    let path ← orDefault none (orNull toText?) path
    let interval ← orDefault none (orNull toDuration?) interval
    some { outputPath := path, interval }
  | _ => none

def toNetwork? (d : Document) : Option NetworkConfig := do
  let c : NetworkConfig := {}
  match ← members ["listen_address", "connect_timeout"] d with
  | [address, timeout] => do
    let address ← orDefault c.listenAddress toText? address
    let timeout ← orDefault c.connectTimeout toDuration? timeout
    some { listenAddress := address, connectTimeout := timeout }
  | _ => none

def toConfig? (d : Document) : Option Config := do
  match ← members ["runtime", "checkpoint", "network"] d with
  | [runtime, checkpoint, network] => do
    let runtime ← orDefault {} toRuntime? runtime
    let checkpoint ← orDefault {} toCheckpoint? checkpoint
    let network ← orDefault {} toNetwork? network
    some { runtime, checkpoint, network }
  | _ => none

end Document

/-- Reads the text of a configuration file, which has to be an object. -/
def ofText? (s : String) : Option Config := do
  match ← Document.parse? s with
  | .object fields => Document.toConfig? (.layOver (.object fields) (.ofConfig {}))
  | _ => none

end MooCore.Config
