import MooCore.Arguments
import MooCore.Builtin.Task
import MooCore.Scheduler.Conversation
/-!
# The program

Serves one connection, whose lines are the lines of standard input, until the server is told to
shut down or the input ends. Checkpoints are read from and written to a directory if there is one.
Everything that is decided is decided elsewhere; here it is only carried in and out.
-/

set_option autoImplicit false
namespace MooCore.Program

def usage : String := String.intercalate "\n"
  ["Usage: moocore [OPTIONS]",
    "",
    "  --config-file <config>",
    "  --max-background-threads <number>",
    "  --no-background-threads",
    "  --shutdown-timeout-seconds <seconds>",
    "  --checkpoint-dir <directory>",
    "  --checkpoint-interval-seconds <seconds>",
    "  --listen <address>",
    "  --connect-timeout-seconds <seconds>",
    "  --debug",
    "  --help"]

def complaint : Arguments.Fault → String
  | .missingValue => "a value is missing"
  | .unknownArgument => "there is no such argument"
  | .unexpectedValue => "a flag takes no value"
  | .repeated => "an argument is given twice"
  | .badValue => "a value is not a number that fits"
  | .help => usage

def readText? (path : String) : IO (Option String) := do
  try
    return some (← IO.FS.readFile path)
  catch _ =>
    return none

/-- The directory with everything in it; one that is not there is made. -/
def readDirectory (path : String) : IO Checkpoint.Directory := do
  IO.FS.createDirAll path
  let root : IO.FS.DirEntry := { root := path, fileName := "" }
  let mut d : Checkpoint.Directory := { path }
  for entry in ← root.path.readDir do
    if Checkpoint.Directory.isComplete entry.fileName then
      let content ← IO.FS.readBinFile entry.path
      d := (d.put entry.fileName content.toList).toOption.getD d
  return d

def writeDirectory (before after : Checkpoint.Directory) : IO Unit := do
  for name in after.names do
    if !before.names.contains name then
      IO.FS.writeBinFile (after.fullName name) ⟨((after.read? name).getD []).toArray⟩

def saveChanges (before after : Scheduler) : IO Unit := do
  match before.directory, after.directory with
  | some b, some a => writeDirectory b a
  | _, _ => return ()

def printAll (output : IO.FS.Stream) (lines : List String) : IO Unit := do
  for line in lines do
    output.putStrLn line
  output.flush

def forgetTrace (s : Scheduler) : Scheduler := { s with trace := [] }

/-- Answers lines until the input ends or the server is to shut down. -/
partial def serve (input output : IO.FS.Stream) (id : SessionId) (s : Scheduler) :
    IO Scheduler := do
  if s.coordinator.stopping then return s
  let line ← input.getLine
  if line.isEmpty then return s
  let (answers, after) := s.exchange id line
  printAll output answers
  saveChanges s after
  serve input output id (forgetTrace after)

/-- Opens the connection, serves it, and shuts the server down. -/
def run (config : Config) : IO UInt32 := do
  let directory ← config.checkpoint.outputPath.mapM readDirectory
  let start := ((directory.bind (·.newestStamp?)).getD 0 + 1) * millisecond
  let s : Scheduler :=
    { Scheduler.ofConfig config .empty Command.read (start + (← IO.monoNanosNow)) with directory }
  let (restored, s) := s.restoreLatest
  if let .error e := restored then
    (← IO.getStderr).putStrLn ("Unable to restore from checkpoint: " ++ e.message)
    return 1
  let (now, s) := s.now
  let (id, sessions) := s.sessions.openSession now "console"
  let output ← IO.getStdout
  let s ← serve (← IO.getStdin) output id { s with sessions }
  let seen := (s.linesTo id).length
  let (_, after) := s.shutdown [{ steps := [] }]
  printAll output ((after.linesTo id).drop seen)
  saveChanges s after
  return 0

end MooCore.Program

open MooCore in
def main (argv : List String) : IO UInt32 := do
  match Arguments.parse argv with
  | .error .help =>
    (← IO.getStdout).putStrLn Program.usage
    return 0
  | .error fault =>
    (← IO.getStderr).putStrLn ("error: " ++ Program.complaint fault)
    return 2
  | .ok args =>
    let text ← (args.configFile.mapM Program.readText?)
    match args.loadConfig (fun _ => text.join) Config.ofText? with
    | .error fault =>
      (← IO.getStderr).putStrLn ("Error: " ++ fault.message)
      return 1
    | .ok config => Program.run config
