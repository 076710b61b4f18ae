import MooCore.Builtin.Server
import MooCore.Builtin.Threads
import MooCore.Command
/-!
# Tasks that call a function

Such a task calls its function with the arguments it holds, lets go of them, and ends as the
function did. If the function goes on in the background, the task ends with what comes of that.
-/

set_option autoImplicit false
namespace MooCore.Builtin

def call (f : Frame) : Call Outcome :=
  match f.builtin with
  | backgroundTest => backgroundTestCall f
  | stringHash => stringHashCall f
  | connectionNameLookup => connectionNameLookupCall f
  | threads => threadsCall f
  | backgroundTasks => backgroundTasksCall f
  | setThreadMode => setThreadModeCall f
  | setMaxBackgroundThreads => setMaxBackgroundThreadsCall f
  | maxBackgroundThreads => maxBackgroundThreadsCall f
  | checkpoint => checkpointCall f
  | shutdown => shutdownCall f
  | killTask => killTaskCall f
  | connect => connectCall f
  | newWaif => newWaifCall f
  | createAnonymous => createAnonymousCall f
  | finalizationStats => finalizationStatsCall f

def resumed (b : Builtin) : Caller → Input → Act
  | _, .start => .abort (b.title ++ " was started twice")
  | _, .resume v => .complete v

def respond (b : Builtin) : Except Raised Outcome → Act
  | .ok (.value v) => .complete v
  | .ok (.background r) => .request r b.resumed
  | .error e => .abort e.text

def body (b : Builtin) (args : List Value) : Body where
  description := b.title
  held := args
  step
    | caller, .start =>
      call { builtin := b, caller, args } fun outcome =>
        .andThen (.release args) (b.respond outcome)
    | _, .resume v => .complete v

def draft (b : Builtin) (args : List Recipe) : Draft where
  recipes := args
  body := b.body

end MooCore.Builtin

namespace MooCore.Command

def draft (c : Command) : Draft := c.builtin.draft (c.args.map .shape)

def read (line : String) : Except String Draft :=
  match parse line with
  | .ok c => .ok c.draft
  | .error e => .error e.message

end MooCore.Command
