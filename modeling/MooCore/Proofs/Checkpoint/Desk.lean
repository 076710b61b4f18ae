import MooCore.Checkpoint.Coordinator
/-!
# A coordinator that many threads use

Every operation of a coordinator falls into sections, each of which is done while a lock is held or
touches one flag only. Any thread may ask, signal, poll, end a checkpoint or give up on those who
wait, and between two sections of an operation the others' sections may come, those of the same
operation among them.
-/

set_option autoImplicit false
namespace MooCore.Checkpoint

/-- What becomes of the requests for an answer and of the checkpoints. -/
inductive Happening where
  | enlisted (ticket : Ticket)
  | began (run : Nat)
  | ended (run : Nat) (verdict : Verdict)
  | answered (run : Nat) (verdict : Verdict)
  | gaveUp (fault : TaskFault)

/-- A coordinator and what its callers are in the midst of: the polls that have taken a signal and
have not yet asked, and the checkpoints that are ended but whose answers are still to be given. What
happened and who was told what is kept beside it. -/
structure Desk where
  coordinator : Coordinator
  heeding : Nat := 0
  endings : List (Nat × Verdict) := []
  tickets : Ticket := 0
  log : List Happening := []
  told : List (Ticket × Verdict) := []

namespace Desk

/-- One section of one of the callers. -/
inductive Turn where
  | ask (reason : Reason)
  | enlist (reason : Reason)
  | signal
  | heed
  | relay
  | begin (now : Instant)
  | settle (now : Instant) (verdict : Verdict)
  | answer (run : Nat)
  | giveUp (fault : TaskFault)

/-- Each ticket is given out once. Whoever has ended a checkpoint may be overtaken by whoever ends
the next one. -/
def take (d : Desk) : Turn → Desk
  | .ask reason => { d with coordinator := (d.coordinator.request reason).2 }
  | .enlist reason =>
    { d with
      coordinator := d.coordinator.requestAnswer reason d.tickets
      tickets := d.tickets + 1
      log := d.log ++ [.enlisted d.tickets] }
  | .signal => { d with coordinator := d.coordinator.signal }
  | .heed =>
    if d.coordinator.signalled then
      { d with coordinator := { d.coordinator with signalled := false }, heeding := d.heeding + 1 }
    else d
  | .relay =>
    match d.heeding with
    | 0 => d
    | others + 1 =>
      { d with coordinator := (d.coordinator.request .signal).2, heeding := others }
  | .begin now =>
    match (d.coordinator.takeTimer now).begin with
    | (none, coordinator) => { d with coordinator }
    | (some _, coordinator) =>
      { d with coordinator, log := d.log ++ [.began coordinator.runs] }
  | .settle now verdict =>
    match d.coordinator.settle now with
    | (none, coordinator) => { d with coordinator }
    | (some _, coordinator) =>
      { d with
        coordinator
        endings := d.endings ++ [(coordinator.runs, verdict)]
        log := d.log ++ [.ended coordinator.runs verdict] }
  | .answer run =>
    match d.endings.find? (·.1 = run) with
    | none => d
    | some (run, verdict) =>
      let (answers, coordinator) := d.coordinator.answer run verdict
      { d with
        coordinator
        endings := d.endings.eraseP (·.1 = run)
        log := d.log ++ [.answered run verdict]
        told := d.told ++ answers }
  | .giveUp fault =>
    let (answers, coordinator) := d.coordinator.failWaiting fault
    { d with coordinator, log := d.log ++ [.gaveUp fault], told := d.told ++ answers }

def run (d : Desk) (turns : List Turn) : Desk := turns.foldl take d

/-- A coordinator as it is set up. -/
def start (interval : Option Nat) (now : Instant) : Desk :=
  { coordinator := { interval, lastFinished := now } }

end Desk

namespace Happening

def begun? : Happening → Option Nat
  | began run => some run
  | _ => none

def ended? : Happening → Option (Nat × Verdict)
  | ended run verdict => some (run, verdict)
  | _ => none

def answered? : Happening → Option (Nat × Verdict)
  | answered run verdict => some (run, verdict)
  | _ => none

end Happening

theorem Coordinator.settle_runs (c : Coordinator) (now : Instant) :
    (c.settle now).2.runs = c.runs := by
  unfold settle
  split <;> rfl

namespace Desk

/-! ## The operations as turns -/

theorem poll_turns (d : Desk) (now : Instant) (alone : d.heeding = 0) :
    (d.run [.heed, .relay, .begin now]).coordinator = (d.coordinator.poll now).2 := by
  have begun : ∀ d : Desk,
      (d.take (.begin now)).coordinator = (d.coordinator.takeTimer now).begin.2 := by
    intro d
    simp only [take]
    split <;> simp only [*]
  simp only [run, List.foldl_cons, List.foldl_nil, begun, Coordinator.poll]
  by_cases signalled : d.coordinator.signalled
  · simp [take, signalled, Coordinator.takeSignal]
  · simp [take, signalled, Coordinator.takeSignal, alone]

theorem finish_turns (d : Desk) (now : Instant) (verdict : Verdict)
    (free : ∀ x ∈ d.endings, x.1 ≠ d.coordinator.runs) :
    (d.run [.settle now verdict, .answer d.coordinator.runs]).coordinator =
        (d.coordinator.finish now verdict).2 ∧
      (d.run [.settle now verdict, .answer d.coordinator.runs]).told =
        d.told ++ (d.coordinator.finish now verdict).1.answers := by
  have none_before : d.endings.find? (·.1 = d.coordinator.runs) = none :=
    List.find?_eq_none.2 fun x mem => by simpa using free x mem
  have runs := d.coordinator.settle_runs now
  simp only [run, List.foldl_cons, List.foldl_nil, take, Coordinator.finish]
  cases settled : d.coordinator.settle now with
  | mk reason c =>
    have runs : c.runs = d.coordinator.runs := by rwa [settled] at runs
    cases reason with
    | none => simp [none_before]
    | some reason => simp [none_before, runs]

end Desk
end MooCore.Checkpoint
