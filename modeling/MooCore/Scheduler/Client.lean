import MooCore.Scheduler.Tick
import MooCore.Trace
/-!
# Clients

Whoever talks to the scheduler from outside puts a message into its channel and waits for the
answer. Each message, and each wait for a checkpoint, has a ticket of its own by which the answer
is known.
-/

set_option autoImplicit false
namespace MooCore.Scheduler

def takeTicket (s : Scheduler) : Checkpoint.Ticket × Scheduler :=
  (s.tickets, { s with tickets := s.tickets + 1 })

def post (s : Scheduler) (m : Message) : Checkpoint.Ticket × Scheduler :=
  let (ticket, s) := s.takeTicket
  (ticket, { s with messages := s.messages ++ [(ticket, m)] })

def postTask (s : Scheduler) (player : Obj) (session : Option SessionId) (d : Draft) :
    Checkpoint.Ticket × Scheduler :=
  let (body, s) := s.prepare d
  s.post (.submit player session body)

def awaitCheckpoint (s : Scheduler) (reason : Checkpoint.Reason) :
    Checkpoint.Ticket × Scheduler :=
  let (ticket, s) := s.takeTicket
  (ticket, { s with coordinator := s.coordinator.requestAnswer reason ticket })

/-- What the events say in answer to a ticket; there may be no answer. -/
def answerTo (es : List Event) (ticket : Checkpoint.Ticket) : ClientAnswer :=
  match (Trace.replies es).find? (·.1 = ticket) with
  | some (_, a) => a
  | none => .fault .notResponding

end MooCore.Scheduler
