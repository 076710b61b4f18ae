import MooCore.Config.File
import MooCore.Text.Affix
/-!
# The command line

Options and flags have long names only. The value of an option stands behind an equals sign or is
the next argument, unless that looks like an option itself; it is looked at when the next option
comes or the line ends. What the command line sets wins over the configuration file.
-/

set_option autoImplicit false
namespace MooCore

structure Arguments where
  configFile : Option String := none
  maxBackgroundThreads : Option Nat := none
  noBackgroundThreads : Bool := false
  shutdownTimeout : Option Nat := none
  checkpointDir : Option String := none
  checkpointInterval : Option Nat := none
  listen : Option String := none
  connectTimeout : Option Nat := none
  debug : Bool := false
deriving DecidableEq, Repr

namespace Arguments

/-- Why a command line is not accepted, or that help is asked for. -/
inductive Fault where
  | missingValue
  | unknownArgument
  | unexpectedValue
  | repeated
  | badValue
  | help
deriving DecidableEq, Repr

/-- Options that take a value. -/
inductive Opt where
  | configFile
  | maxBackgroundThreads
  | shutdownTimeout
  | checkpointDir
  | checkpointInterval
  | listen
  | connectTimeout
deriving DecidableEq, Repr

inductive Flag where
  | noBackgroundThreads
  | debug
  | help
deriving DecidableEq, Repr

def opt? : String → Option Opt
  | "config-file" => some .configFile
  | "max-background-threads" => some .maxBackgroundThreads
  | "shutdown-timeout-seconds" => some .shutdownTimeout
  | "checkpoint-dir" => some .checkpointDir
  | "checkpoint-interval-seconds" => some .checkpointInterval
  | "listen" => some .listen
  | "connect-timeout-seconds" => some .connectTimeout
  | _ => none

def flag? : String → Option Flag
  | "no-background-threads" => some .noBackgroundThreads
  | "debug" => some .debug
  | "help" => some .help
  | _ => none

/-- What one argument looks like. -/
inductive Word where
  | long (name : String) (value : Option String)
  | short (c : Char)
  | escape
  | plain (s : String)

def splitEquals (cs : List Char) : String × Option String :=
  match cs.dropWhile (· ≠ '=') with
  | [] => (String.ofList cs, none)
  | _ :: value => (String.ofList (cs.takeWhile (· ≠ '=')), some (String.ofList value))

def Word.of (s : String) : Word :=
  match s.toList with
  | ['-', '-'] => .escape
  | '-' :: '-' :: cs =>
    let (name, value) := splitEquals cs
    .long name value
  | '-' :: c :: _ => .short c
  | _ => .plain s

def fresh {α : Type} (old : Option α) (a : α) : Except Fault (Option α) :=
  if old.isSome then .error .repeated else .ok (some a)

def freshPath (old : Option String) (s : String) : Except Fault (Option String) := do
  let new ← fresh old s
  if s.isEmpty then .error .missingValue else .ok new

def freshNat (old : Option Nat) (s : String) : Except Fault (Option Nat) :=
  if old.isSome then .error .repeated
  else
    match Text.readNat Text.wordLimit s.toList with
    | .ok n => .ok (some n)
    | .error _ => .error .badValue

def setOpt (a : Arguments) (o : Opt) (s : String) : Except Fault Arguments :=
  match o with
  | .configFile => do return { a with configFile := ← freshPath a.configFile s }
  | .maxBackgroundThreads => do
    return { a with maxBackgroundThreads := ← freshNat a.maxBackgroundThreads s }
  | .shutdownTimeout => do return { a with shutdownTimeout := ← freshNat a.shutdownTimeout s }
  | .checkpointDir => do return { a with checkpointDir := ← freshPath a.checkpointDir s }
  | .checkpointInterval => do
    return { a with checkpointInterval := ← freshNat a.checkpointInterval s }
  | .listen => do return { a with listen := ← fresh a.listen s }
  | .connectTimeout => do return { a with connectTimeout := ← freshNat a.connectTimeout s }

def setFlag (a : Arguments) : Flag → Except Fault Arguments
  | .noBackgroundThreads =>
    if a.noBackgroundThreads then .error .repeated else .ok { a with noBackgroundThreads := true }
  | .debug => if a.debug then .error .repeated else .ok { a with debug := true }
  | .help => .error .help

/-- A command line half read: the option whose value is still to be looked at, if it has come
already, and whether only plain arguments may follow. -/
structure Reading where
  args : Arguments := {}
  pending : Option (Opt × Option String) := none
  plainOnly : Bool := false

def Reading.resolve (p : Reading) : Except Fault Reading :=
  match p.pending with
  | none => .ok p
  | some (_, none) => .error .missingValue
  | some (o, some s) => do return { p with args := ← p.args.setOpt o s, pending := none }

def Reading.long (p : Reading) (name : String) (value : Option String) : Except Fault Reading :=
  match flag? name, opt? name, value with
  | some _, _, some _ => .error .unexpectedValue
  | some f, _, none => do
    let p ← p.resolve
    return { p with args := ← p.args.setFlag f }
  | none, some o, some s => do
    let p ← p.resolve
    return { p with args := ← p.args.setOpt o s }
  | none, some o, none => do
    let p ← p.resolve
    return { p with pending := some (o, none) }
  | none, none, _ => .error .unknownArgument

/-- A plain argument is the value of the option before it, or nothing known. -/
def Reading.plain (p : Reading) (s : String) : Except Fault Reading :=
  match p.pending with
  | some (o, none) => .ok { p with pending := some (o, some s) }
  | some (_, some _) | none => .error .unknownArgument

def Reading.next (p : Reading) (s : String) : Except Fault Reading :=
  if p.plainOnly then .error .unknownArgument
  else
    match Word.of s with
    | .escape => .ok { p with plainOnly := true }
    | .long name value => p.long name value
    | .short c => if c = 'h' then do
        let _ ← p.resolve
        .error .help
      else .error .unknownArgument
    | .plain s => p.plain s

def parse (argv : List String) : Except Fault Arguments := do
  let p ← argv.foldlM Reading.next {}
  let p ← p.resolve
  return p.args

/-! ## The configuration -/

/-- Why there is no configuration. -/
inductive ConfigFault where
  | badFile (path : String)
  | noThreads
deriving DecidableEq, Repr

def ConfigFault.message : ConfigFault → String
  | .badFile path => "Failed to parse configuration from " ++ path
  | .noThreads => "--max-background-threads must be at least 1"

def mergeRuntime (a : Arguments) (c : RuntimeConfig) : Except ConfigFault RuntimeConfig :=
  if a.maxBackgroundThreads = some 0 then .error .noThreads
  else .ok { c with
    maxBackgroundThreads := a.maxBackgroundThreads.getD c.maxBackgroundThreads
    backgroundThreading := c.backgroundThreading && !a.noBackgroundThreads
    shutdownDrainTimeout := a.shutdownTimeout.elim c.shutdownDrainTimeout fun secs => { secs } }

def mergeCheckpoint (a : Arguments) (c : CheckpointConfig) : CheckpointConfig where
  outputPath := a.checkpointDir <|> c.outputPath
  interval := (a.checkpointInterval.map fun secs => { secs }) <|> c.interval

def mergeNetwork (a : Arguments) (c : NetworkConfig) : NetworkConfig where
  listenAddress := a.listen.getD c.listenAddress
  connectTimeout := a.connectTimeout.elim c.connectTimeout fun secs => { secs }

def merge (a : Arguments) (c : Config) : Except ConfigFault Config := do
  let runtime ← a.mergeRuntime c.runtime
  return { runtime, checkpoint := a.mergeCheckpoint c.checkpoint,
           network := a.mergeNetwork c.network }

/-- The configuration, where `file` gives the text of a file if there is such a file, and `read`
reads a text over the defaults if it can. -/
def loadConfig (a : Arguments) (file : String → Option String)
    (read : String → Option Config := Config.ofText?) : Except ConfigFault Config :=
  match a.configFile with
  | none => a.merge {}
  | some path =>
    match file path with
    | none => a.merge {}
    | some text =>
      match read text with
      | some c => a.merge c
      | none => .error (.badFile path)

end Arguments
end MooCore
