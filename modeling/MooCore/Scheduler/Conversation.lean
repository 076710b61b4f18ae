import MooCore.Scheduler.Quiet
import MooCore.Scheduler.Shutdown
/-!
# Conversations

A client that waits for the answer to each thing it does, and a server that comes to rest in
between, with threads that go on by themselves. A parked task stays in the background until it is
killed.
-/

set_option autoImplicit false
namespace MooCore

/-- One thing a client does. -/
inductive Turn where
  /-- submits a task, waits for its end and gives up its handle -/
  | run (player : Obj) (draft : Draft)
  | park (player : Obj) (draft : Draft)
  /-- waits for the end of a parked task and gives up its handle -/
  | await (task : TaskId)
  | tell (message : Message)
  /-- lets time pass -/
  | pause
  /-- waits for the server to end; only the first to wait is given the report -/
  | join

/-- What comes of it. -/
inductive Turn.Answer where
  | heard (a : ClientAnswer)
  | ended (task : TaskId) (result : Option TaskAnswer)
  | awaited (result : Option TaskAnswer)
  | paused
  | joined (report : Option Scheduler.ShutdownReport)

structure Conversation where
  server : Scheduler
  parked : List TaskId := []
  ended : Bool := false

namespace Conversation

/-- Rounds enough for a task to end that goes to the background a few times. -/
def rounds : Nat := 6

def rest (c : Conversation) : Conversation := { c with server := c.server.rest c.parked rounds }

/-- The answer to what has been put into the channel, after one round. -/
def hear (c : Conversation) (posted : Checkpoint.Ticket × Scheduler) :
    ClientAnswer × Conversation :=
  let s := posted.2.tick.2
  (Scheduler.answerTo s.trace posted.1, { c with server := s })

def collect (c : Conversation) (task : TaskId) : Option TaskAnswer × Conversation :=
  (c.server.outcome? task, { c with server := (c.server.detach task).2 })

def finish (c : Conversation) : Option Scheduler.ShutdownReport × Conversation :=
  if c.ended then (none, c)
  else
    let (report, s) := c.server.shutdown []
    (some report, { c with server := s, ended := true })

def take (c : Conversation) : Turn → Turn.Answer × Conversation
  | .pause => (.paused, c)
  | .await task =>
    let (result, c) := c.collect task
    (.awaited result, c)
  | .join =>
    let (report, c) := c.finish
    (.joined report, c)
  | .run player draft =>
    if c.ended then (.heard (.fault .notResponding), c)
    else
      match c.hear (c.server.postTask player none draft) with
      | (.task id, c) =>
        let (result, c) := c.rest.collect id
        (.ended id result, c)
      | (a, c) => (.heard a, c)
  | .park player draft =>
    if c.ended then (.heard (.fault .notResponding), c)
    else
      match c.hear (c.server.postTask player none draft) with
      | (.task id, c) => (.heard (.task id), { c with parked := id :: c.parked })
      | (a, c) => (.heard a, c)
  | .tell message =>
    if c.ended then (.heard (.fault .notResponding), c)
    else
      let (a, c) := c.hear (c.server.post message)
      (.heard a, c.rest)

end Conversation
end MooCore
