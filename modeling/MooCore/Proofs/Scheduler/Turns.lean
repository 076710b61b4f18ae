import Mathlib
import MooCore.Proofs.Scheduler.Moves
import MooCore.Proofs.Scheduler.Whereabouts
/-!
# The loop in single turns

The main loop is taken apart into turns, between which other threads may go on: a message or a
result is handled, a checkpoint is looked for, a task is made for a finalizer or a command, a task
is picked, or the step that is under way makes its next move. Every phase of the loop, and what is
done while the server is brought to an end, is a run of such turns.
-/

set_option autoImplicit false
namespace MooCore
open Background

/-- A server at work: the turns that it has taken up, and the step that is under way. -/
structure Work where
  server : Scheduler
  batch : List (TaskId × Input)
  act : Option (Caller × Act)

namespace Work

/-- A server between two phases of its loop. -/
abbrev idle (s : Scheduler) : Work := ⟨s, [], none⟩

/-- The step that goes on after a move. -/
def goingOn (caller : Caller) : Act ⊕ StepOutcome → Option (Caller × Act)
  | .inl act => some (caller, act)
  | .inr _ => none

/-- What the loop does next. The values are looked after in between, and lines are taken from the
sessions before they are read; neither the heap nor the lines are of interest here. -/
inductive Turn : Work → Work → Prop where
  | message (s : Scheduler) (batch) : Turn ⟨s, batch, none⟩ ⟨s.takeMessage, batch, none⟩
  | result (s : Scheduler) (batch) : Turn ⟨s, batch, none⟩ ⟨s.takeCompletion, batch, none⟩
  | poll (s : Scheduler) (batch) : Turn ⟨s, batch, none⟩ ⟨s.pollCheckpoint, batch, none⟩
  | values (s : Scheduler) (batch act) (heap : Heap) :
      Turn ⟨s, batch, act⟩ ⟨{ s with heap }, batch, act⟩
  | destroy (s : Scheduler) (batch) (v : Value) :
      Turn ⟨s, batch, none⟩ ⟨s.destroy v, batch, none⟩
  | summon (s : Scheduler) (batch) (v : Value) (body : Body)
      (its : s.database.finalizer v = some body) :
      Turn ⟨s, batch, none⟩
        ⟨(s.createTask .system none body false).2, batch ++ [(s.lastTask + 1, .start)], none⟩
  | takeLines (s : Scheduler) (batch) :
      Turn ⟨s, batch, none⟩ ⟨{ s with sessions := s.sessions.takeInput.2 }, batch, none⟩
  | command (s : Scheduler) (batch) (entry : SessionId × String) :
      Turn ⟨s, batch, none⟩ ⟨s.startCommand entry, batch, none⟩
  | takeUp (s : Scheduler) : Turn ⟨s, [], none⟩ ⟨{ s with ready := [] }, s.ready, none⟩
  | pick (s : Scheduler) (batch) (id : TaskId) (input : Input) :
      Turn ⟨s, (id, input) :: batch, none⟩ ⟨(s.pick id input).2, batch, (s.pick id input).1⟩
  | move (s : Scheduler) (batch) (caller : Caller) (act : Act) :
      Turn ⟨s, batch, some (caller, act)⟩
        ⟨(act.move caller s).2, batch, goingOn caller (act.move caller s).1⟩
  | sweep (s : Scheduler) (batch) : Turn ⟨s, batch, none⟩ ⟨s.sweep, batch, none⟩

abbrev Turns : Work → Work → Prop := Relation.ReflTransGen Turn

variable {w w' w'' : Work} {s : Scheduler} {batch : List (TaskId × Input)}

theorem Turn.turns (turn : Turn w w') : Turns w w' := Relation.ReflTransGen.single turn

theorem Turns.foldl {α : Type} {f : Scheduler → α → Scheduler}
    (each : ∀ s x, Turns ⟨s, batch, none⟩ ⟨f s x, batch, none⟩) (xs : List α) (s : Scheduler) :
    Turns ⟨s, batch, none⟩ ⟨xs.foldl f s, batch, none⟩ := by
  induction xs generalizing s with
  | nil => exact .refl
  | cons x xs ih => exact (each s x).trans (ih _)

/-! ## Steps -/

theorem release_turns (s : Scheduler) (batch act) (v : Value) :
    Turns ⟨s, batch, act⟩ ⟨s.release v, batch, act⟩ := (Turn.values s batch act _).turns

theorem releaseOutcome_turns (s : Scheduler) (batch) (outcome : StepOutcome) :
    Turns ⟨s, batch, none⟩ ⟨s.releaseOutcome outcome, batch, none⟩ := by
  rcases outcome with (_ | v) | _ | _
  · exact .refl
  · exact release_turns s batch none v
  · exact .refl
  · exact .refl

theorem run_turns (caller : Caller) (act : Act) (s : Scheduler) (batch) :
    Turns ⟨s, batch, some (caller, act)⟩ ⟨(act.run caller s).2, batch, none⟩ := by
  induction act using Act.move_induct generalizing s with
  | moves act ih =>
    have first := (Turn.move s batch caller act).turns
    rw [Act.run_eq]
    generalize next : act.move caller s = moved at first
    obtain ⟨act' | outcome, s'⟩ := moved
    · exact first.trans (ih caller s act' (congrArg Prod.fst next) s')
    · exact first

theorem runOne_turns (s : Scheduler) (entry : TaskId × Input) (batch) :
    Turns ⟨s, entry :: batch, none⟩ ⟨s.runOne entry, batch, none⟩ := by
  have picked := (Turn.pick s batch entry.1 entry.2).turns
  rw [Scheduler.runOne, Scheduler.stepTask_eq]
  generalize s.pick entry.1 entry.2 = taken at picked
  obtain ⟨_ | ⟨caller, act⟩, s'⟩ := taken
  · exact picked
  · exact picked.trans ((run_turns caller act s' batch).trans (releaseOutcome_turns _ batch _))

theorem runAll_turns (entries : List (TaskId × Input)) (s : Scheduler) :
    Turns ⟨s, entries, none⟩ (idle (entries.foldl Scheduler.runOne s)) := by
  induction entries generalizing s with
  | nil => exact .refl
  | cons entry entries ih => exact (runOne_turns s entry entries).trans (ih _)

theorem runReady_turns (s : Scheduler) : Turns (idle s) (idle s.runReady) :=
  (Turn.takeUp s).turns.trans (runAll_turns s.ready _)

/-! ## Phases -/

theorem takeMessages_turns (n : Nat) (s : Scheduler) :
    Turns (idle s) (idle (s.takeMessages n)) := by
  induction n generalizing s with
  | zero => exact .refl
  | succ n ih => exact (Turn.message s []).turns.trans (ih _)

theorem takeCompletions_turns (n : Nat) (s : Scheduler) :
    Turns (idle s) (idle (s.takeCompletions n)) := by
  induction n generalizing s with
  | zero => exact .refl
  | succ n ih => exact (Turn.result s []).turns.trans (ih _)

theorem waitForEvent_turns (s : Scheduler) (eager : Bool) :
    Turns (idle s) (idle (s.waitForEvent eager)) := by
  unfold Scheduler.waitForEvent
  split
  · exact (Turn.result s []).turns
  · exact (Turn.message s []).turns

theorem processEvents_turns (s : Scheduler) : Turns (idle s) (idle s.processEvents) :=
  (takeMessages_turns _ s).trans (takeCompletions_turns _ _)

theorem finalize_turns (s : Scheduler) (v : Value) : Turns (idle s) (idle (s.finalize v)) := by
  have kept := (Turn.values s [] none (s.heap.share v)).turns
  unfold Scheduler.finalize
  dsimp only
  split
  · exact kept.trans (release_turns _ _ _ v)
  · rename_i body its
    exact kept.trans ((Turn.summon _ [] v body its).turns.trans (runOne_turns _ _ []))

theorem drainOnce_turns (s : Scheduler) : Turns (idle s) (idle s.drainOnce) := by
  unfold Scheduler.drainOnce
  split
  · exact .refl
  · rename_i q _
    dsimp only
    have run := (Turn.values s [] none (s.heap.beginPass q).2).turns.trans
      (Turns.foldl finalize_turns (s.heap.beginPass q).1 _)
    generalize List.foldl Scheduler.finalize _ _ = s' at run ⊢
    exact run.trans ((Turn.values s' [] none (s'.heap.endPass q).2).turns.trans
      (Turns.foldl (fun s v => (Turn.destroy s [] v).turns) _ _))

theorem startCommands_turns (s : Scheduler) : Turns (idle s) (idle s.startCommands) :=
  (Turn.takeLines s []).turns.trans
    (Turns.foldl (fun s entry => (Turn.command s [] entry).turns) _ _)

theorem tick_turns (s : Scheduler) (eager : Bool) : Turns (idle s) (idle (s.tick eager).2) :=
  (waitForEvent_turns s eager).trans <| (processEvents_turns _).trans <|
    (Turn.poll _ []).turns.trans <| (drainOnce_turns _).trans <| (startCommands_turns _).trans <|
      (runReady_turns _).trans (Turn.sweep _ []).turns

theorem phase_turns (s : Scheduler) (f : Scheduler.Phase) : Turns (idle s) (idle (f.run s)) := by
  cases f with
  | wait eager => exact waitForEvent_turns s eager
  | events => exact processEvents_turns s
  | checkpoint => exact (Turn.poll s []).turns
  | finalizers => exact drainOnce_turns s
  | commands => exact startCommands_turns s
  | ready => exact runReady_turns s
  | sweep => exact (Turn.sweep s []).turns

theorem catchUp_turns (s : Scheduler) : Turns (idle s) (idle s.catchUp) :=
  (processEvents_turns s).trans (runReady_turns _)

/-! ## Whatever happens -/

/-- The loop takes a turn, or something happens to the server from outside at that moment: a deed is
done, messages come in, threads are no longer waited for. In a server some of this happens only
between two phases of the loop. -/
inductive Moment : Work → Work → Prop where
  | turn {w w' : Work} (turn : Turn w w') : Moment w w'
  | deed (s : Scheduler) (batch act) (deed : Scheduler.Deed) :
      Moment ⟨s, batch, act⟩ ⟨deed.carryOut s, batch, act⟩
  | arrive (s : Scheduler) (batch act) (messages : List (Checkpoint.Ticket × Message)) :
      Moment ⟨s, batch, act⟩ ⟨{ s with messages := s.messages ++ messages }, batch, act⟩
  | conclude (s : Scheduler) (batch act) (timedOut : Bool) :
      Moment ⟨s, batch, act⟩ ⟨(s.conclude timedOut).2, batch, act⟩

abbrev Moments : Work → Work → Prop := Relation.ReflTransGen Moment

theorem Turns.moments (turns : Turns w w') : Moments w w' :=
  Relation.ReflTransGen.mono (fun _ _ => Moment.turn) _ _ turns

theorem Moments.one (moment : Moment w w') : Moments w w' := Relation.ReflTransGen.single moment

theorem carryOut_moments (deeds : List Scheduler.Deed) (s : Scheduler) (batch act) :
    Moments ⟨s, batch, act⟩ ⟨s.carryOut deeds, batch, act⟩ := by
  induction deeds generalizing s with
  | nil => exact .refl
  | cons deed deeds ih => exact (Moments.one (.deed s batch act deed)).trans (ih _)

end Work
end MooCore
