/-!
# Built-in functions

The functions that connections and tasks can call, under the names they are called by.
-/

set_option autoImplicit false
namespace MooCore

inductive Builtin where
  | backgroundTest
  | stringHash
  | connectionNameLookup
  | threads
  | backgroundTasks
  | setThreadMode
  | setMaxBackgroundThreads
  | maxBackgroundThreads
  | checkpoint
  | shutdown
  | killTask
  | connect
  | newWaif
  | createAnonymous
  | finalizationStats
deriving DecidableEq, Repr

namespace Builtin

def all : List Builtin :=
  [backgroundTest, stringHash, connectionNameLookup, threads, backgroundTasks, setThreadMode,
    setMaxBackgroundThreads, maxBackgroundThreads, checkpoint, shutdown, killTask, connect,
    newWaif, createAnonymous, finalizationStats]

def name : Builtin → String
  | backgroundTest => "background_test"
  | stringHash => "string_hash"
  | connectionNameLookup => "connection_name_lookup"
  | threads => "threads"
  | backgroundTasks => "background_tasks"
  | setThreadMode => "set_thread_mode"
  | setMaxBackgroundThreads => "set_max_background_threads"
  | maxBackgroundThreads => "max_background_threads"
  | checkpoint => "checkpoint"
  | shutdown => "shutdown"
  | killTask => "kill_task"
  | connect => "connect"
  | newWaif => "new_waif"
  | createAnonymous => "create_anonymous"
  | finalizationStats => "finalization_stats"

def ofName? (s : String) : Option Builtin := all.find? fun b => b.name = s

def title (b : Builtin) : String := b.name ++ "()"

end Builtin
end MooCore
