import MooCore.Proofs.Scheduler.Order
/-!
# Single moves of a step

A step of a task is taken apart into moves, between which other threads may go on: an effect is
carried out, a request is made and answered, or the task ends.
-/

set_option autoImplicit false
namespace MooCore
open Background

/-- The next move of a step, after which it goes on or has come to an outcome. -/
def Act.move (caller : Caller) : Act → Scheduler → (Act ⊕ StepOutcome) × Scheduler
  | .complete v, s =>
    let (outcome, s) := s.finish caller.task (.ok v)
    (.inr outcome, s)
  | .abort message, s =>
    let (outcome, s) := s.finish caller.task (.error message)
    (.inr outcome, s)
  | .effect e next, s =>
    let (a, s) := s.perform e
    (.inl (next a), s)
  | .background envelope callback held next, s =>
    let s := s.putBack caller.task held next
    let (response, s) := s.askHost (·.suspend caller.task { envelope with callback })
    match s.immediate? response with
    | (.error h, s) => (.inr .parked, (s.park caller.task h).killAsked)
    | (.ok v, s) =>
      let s := s.killAsked
      if (s.tasks.get? caller.task).isSome then
        (.inl (next caller (.resume v)), s.takeBody caller.task (some v))
      else (.inr .gone, s.release v)

variable {act act' : Act} {caller : Caller} {s : Scheduler}

theorem Act.run_eq (act : Act) (caller : Caller) (s : Scheduler) :
    act.run caller s =
      match act.move caller s with
      | (.inl act, s) => act.run caller s
      | (.inr outcome, s) => (outcome, s) := by
  cases act with
  | complete v => rfl
  | abort message => rfl
  | effect e next => rfl
  | background envelope callback held next =>
    rw [Act.run, Act.move]
    dsimp only
    generalize Scheduler.immediate? _ _ = answer
    obtain ⟨h | v, s⟩ := answer
    · rfl
    · dsimp only
      split <;> rfl

theorem Act.move_background {envelope : Envelope} {callback : Callback} {held : List Value}
    {next : Caller → Input → Act}
    (goes_on : (Act.move caller (.background envelope callback held next) s).1 = .inl act') :
    ∃ v, act' = next caller (.resume v) := by
  rw [Act.move] at goes_on
  dsimp only at goes_on
  generalize Scheduler.immediate? _ _ = answer at goes_on
  obtain ⟨h | v, s⟩ := answer
  · cases goes_on
  · dsimp only at goes_on
    split at goes_on
    · exact ⟨v, (Sum.inl.inj goes_on).symm⟩
    · cases goes_on

theorem Act.move_induct {motive : Act → Prop}
    (moves : ∀ act, (∀ caller s act', (Act.move caller act s).1 = .inl act' → motive act') →
      motive act) (act : Act) : motive act := by
  induction act with
  | complete v | abort message =>
    refine moves _ fun caller s act' goes_on => ?_
    cases goes_on
  | effect e next ih =>
    refine moves _ fun caller s act' goes_on => ?_
    exact Sum.inl.inj goes_on ▸ ih _
  | background envelope callback held next ih =>
    refine moves _ fun caller s act' goes_on => ?_
    obtain ⟨v, rfl⟩ := Act.move_background goes_on
    exact ih caller (.resume v)

theorem Act.Calm.move (calm : act.Calm) (goes_on : (act.move caller s).1 = .inl act') :
    act'.Calm := by
  cases calm with
  | complete v | abort message => cases goes_on
  | effect e next going_on => exact Sum.inl.inj goes_on ▸ going_on _
  | background envelope callback held next _ going_on =>
    obtain ⟨v, rfl⟩ := Act.move_background goes_on
    exact going_on caller (.resume v)

namespace Scheduler

/-- Takes up the turn of a task, if it is there, and gives what it is to do. -/
def pick (s : Scheduler) (task : TaskId) (input : Input) : Option (Caller × Act) × Scheduler :=
  match s.tasks.get? task with
  | none => (none, s.releaseInput input)
  | some t =>
    match t.body with
    | none => (none, (s.note (.reentered task)).releaseInput input)
    | some body =>
      let caller : Caller := { task, player := t.player, session := t.session }
      (some (caller, body.step caller input),
        (s.noteDelivery task input).takeBody task input.result?)

theorem stepTask_eq (s : Scheduler) (task : TaskId) (input : Input) :
    s.stepTask task input =
      match s.pick task input with
      | (none, s) => (.gone, s)
      | (some (caller, act), s) => act.run caller s := by
  unfold stepTask pick
  cases s.tasks.get? task with
  | none => rfl
  | some t =>
    dsimp only
    cases t.body <;> rfl

/-! ## What an end is made of -/

def tellSession (s : Scheduler) (t : Task) (result : Except String Value) : Scheduler :=
  match t.session with
  | some session => (s.sendLine session (farewellLine result)).2
  | none => s

def tellHandle (s : Scheduler) (task : TaskId) (t : Task) (result : Except String Value) :
    Scheduler :=
  if t.answerable then
    match result with
    | .ok v => (s.onHost (·.keep v)).answer task (.ok v)
    | .error _ => s.answer task (.error .aborted)
  else s

theorem complete_eq (s : Scheduler) (task : TaskId) (result : Except String Value) :
    s.complete task result =
      match s.tasks.get? task with
      | none => s
      | some t => (({ s with
          tasks := s.tasks.erase task, stats := countEnd s.stats result }.note
          (.ended task result)).tellSession t result).tellHandle task t result := by
  unfold complete
  cases s.tasks.get? task <;> rfl

def clearAway (s : Scheduler) (task : TaskId) (t : Task) : Scheduler :=
  let (_, s) := s.askHost (·.killWaiters task)
  let (results, s) := s.withdraw task
  let s := s.releaseAll results
  let s := { s with stats := { s.stats with
    discarded := s.stats.discarded + results.length, killed := s.stats.killed + 1 } }
  let s := if t.answerable then s.answer task (.error .cancelled) else s
  s.releaseAll (t.body.elim [] Body.held)

theorem kill_eq (s : Scheduler) (task : TaskId) :
    s.kill task =
      match s.tasks.get? task with
      | none => (.error (.notFound task), s)
      | some t => (.ok (),
          ({ s with tasks := s.tasks.erase task }.note
            (.killed task t.player)).clearAway task t) := by
  unfold kill
  cases s.tasks.get? task <;> rfl

end Scheduler
end MooCore
