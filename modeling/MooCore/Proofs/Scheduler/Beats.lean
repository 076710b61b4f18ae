import MooCore.Proofs.Scheduler.Register
/-!
# Beat by beat

Between two turns of the loop, and between two moves of a step, other things may happen to a server.
A run is a sequence of such beats. What is seen of the tasks in a run agrees with the register, if
the results are kept in mind that were taken from the batch when their tasks could not be stepped
any more.
-/

set_option autoImplicit false
namespace MooCore
open Background

namespace Work

/-- The tasks whose result was taken from the batch without a step of theirs. -/
def dropped (w w' : Work) : List TaskId :=
  match w.batch, w'.act with
  | (id, .resume _) :: rest, none => if w'.batch.length ≤ rest.length then [id] else []
  | _, _ => []

variable {w w' w'' : Work} {ids ids' : List TaskId}

theorem dropped_of_le (le : w.batch.length ≤ w'.batch.length) : w.dropped w' = [] := by
  unfold dropped
  split
  · rename_i id v rest turns _
    rw [turns, List.length_cons] at le
    exact if_neg (by omega)
  · rfl

theorem dropped_pick (s : Scheduler) (batch) (id : TaskId) (input : Input) :
    dropped ⟨s, (id, input) :: batch, none⟩ ⟨(s.pick id input).2, batch, (s.pick id input).1⟩ =
      if (s.pick id input).1.isNone then Register.lost id input else [] := by
  unfold dropped
  cases input <;> cases (s.pick id _).1 <;> simp [Register.lost]

def place (w : Work) (missed forgone : List TaskId) : Place where
  batch := w.batch
  under := w.act.map (·.1.task)
  missed
  forgone

/-- What is seen of the tasks from one moment to another agrees with the register. -/
def Enters (w : Work) (given : List TaskId) (w' : Work) : Prop :=
  ∀ missed forgone, w.server.Enters (w.place missed forgone) w'.server
    (w'.place (missed ++ w.dropped w') (forgone ++ given))

theorem Enters.of_server {s s' : Scheduler} {batch : List (TaskId × Input)}
    {act : Option (Caller × Act)} {given : List TaskId}
    (enters : ∀ p, s.Enters p s' { p with forgone := p.forgone ++ given }) :
    Enters ⟨s, batch, act⟩ given ⟨s', batch, act⟩ := fun missed forgone => by
  rw [dropped_of_le (by simp), List.append_nil]
  exact enters _

theorem Enters.of_keeping {s s' : Scheduler} {batch : List (TaskId × Input)}
    {act : Option (Caller × Act)} (enters : ∀ p, s.Enters p s' p) :
    Enters ⟨s, batch, act⟩ [] ⟨s', batch, act⟩ :=
  .of_server fun p => by rw [List.append_nil]; exact enters p

theorem Turn.enters (turn : Turn w w') : w.Enters [] w' := by
  cases turn with
  | message s => exact .of_keeping fun p => s.takeMessage_enters p
  | result s => exact .of_keeping fun p => s.takeCompletion_enters p
  | poll s => exact .of_keeping fun p => s.pollCheckpoint_enters p
  | values s | takeLines s | sweep s => exact .of_keeping fun p => .same rfl rfl
  | destroy s batch v =>
    refine .of_keeping fun p => ?_
    have told : s.Enters p (s.note (.destroyed (v.finalizableId?.getD 0))) p :=
      s.note_enters p rfl
    exact told.trans (.same rfl rfl)
  | summon s batch v body =>
    intro missed forgone
    rw [dropped_of_le (by simp), List.append_nil, List.append_nil]
    exact ⟨[.created _ _ _], rfl, Register.Step.runs <|
      .summoned (s.register _) _ _ _ ⟨rfl, rfl⟩ rfl⟩
  | command s batch entry => exact .of_keeping fun p => s.startCommand_enters p entry
  | takeUp s =>
    intro missed forgone
    rw [dropped_of_le (by simp), List.append_nil, List.append_nil]
    exact .step (List.append_nil _).symm (.takenUp (s.register _) rfl)
  | pick s batch id input =>
    intro missed forgone
    have picked := s.pick_enters (place ⟨s, (id, input) :: batch, none⟩ missed forgone) id input
      batch rfl rfl
    rw [dropped_pick, List.append_nil forgone]
    generalize s.pick id input = taken at picked ⊢
    obtain ⟨_ | ⟨caller, act⟩, s'⟩ := taken
    · exact picked
    · rw [if_neg (by simp), List.append_nil]
      exact picked
  | move s batch caller act =>
    intro missed forgone
    rw [dropped_of_le (by simp), List.append_nil, List.append_nil]
    exact Scheduler.move_enters _ caller act s rfl

/-! ## Whatever happens -/

/-- The loop takes a turn, or something else happens to the server at that moment: a deed is done
that the loop does not do by itself, or messages come in. A handle may be given up by a deed. -/
inductive Beat : Work → List TaskId → Work → Prop where
  | turn {w w' : Work} (turn : Turn w w') : Beat w [] w'
  | deed (s : Scheduler) (batch act) (deed : Scheduler.Deed) (outside : deed.isLoop = false) :
      Beat ⟨s, batch, act⟩ deed.forgone ⟨deed.carryOut s, batch, act⟩
  | arrive (s : Scheduler) (batch act) (messages : List (Checkpoint.Ticket × Message)) :
      Beat ⟨s, batch, act⟩ [] ⟨{ s with messages := s.messages ++ messages }, batch, act⟩

/-- Beat after beat, with the tasks whose results were dropped and those whose handles were given
up. -/
inductive Run : Work → List TaskId → List TaskId → Work → Prop where
  | refl (w : Work) : Run w [] [] w
  | tail {w w' w'' : Work} {ids forgone given : List TaskId} (run : Run w ids forgone w')
      (beat : Beat w' given w'') : Run w (ids ++ w'.dropped w'') (forgone ++ given) w''

variable {forgone forgone' given : List TaskId}

theorem Beat.enters (beat : Beat w given w') : w.Enters given w' := by
  cases beat with
  | turn turn => exact turn.enters
  | deed s batch act deed outside => exact .of_server fun p => s.carryOut_enters p deed outside
  | arrive s => exact .of_keeping fun p => .same rfl rfl

theorem Run.enters (run : Run w ids forgone w') :
    w.server.Enters (w.place [] []) w'.server (w'.place ids forgone) := by
  induction run with
  | refl => exact Scheduler.Enters.refl _ _
  | tail _ beat ih => exact ih.trans (beat.enters _ _)

theorem Run.trans (first : Run w ids forgone w') (second : Run w' ids' forgone' w'') :
    Run w (ids ++ ids') (forgone ++ forgone') w'' := by
  induction second with
  | refl => rwa [List.append_nil, List.append_nil]
  | tail _ beat ih =>
    rw [← List.append_assoc, ← List.append_assoc]
    exact ih.tail beat

theorem Beat.run (beat : Beat w given w') : ∃ ids, Run w ids given w' :=
  ⟨_, (Run.refl w).tail beat⟩

theorem Run.onward (first : ∃ ids, Run w ids forgone w') (second : ∃ ids, Run w' ids forgone' w'') :
    ∃ ids, Run w ids (forgone ++ forgone') w'' := by
  obtain ⟨_, first⟩ := first
  obtain ⟨_, second⟩ := second
  exact ⟨_, first.trans second⟩

theorem Turns.run (turns : Turns w w') : ∃ ids, Run w ids [] w' := by
  induction turns with
  | refl => exact ⟨[], .refl _⟩
  | tail _ turn ih => exact Run.onward ih (Beat.turn turn).run

theorem deed_run (s : Scheduler) (deed : Scheduler.Deed) :
    ∃ ids, Run (idle s) ids deed.forgone (idle (deed.carryOut s)) := by
  cases loop : deed.isLoop with
  | false => exact (Beat.deed s [] none deed loop).run
  | true =>
    cases deed with
    | tick eager => exact (tick_turns s eager).run
    | phase f => exact (phase_turns s f).run
    | _ => cases loop

theorem carryOut_run (deeds : List Scheduler.Deed) (s : Scheduler) :
    ∃ ids, Run (idle s) ids (deeds.flatMap Scheduler.Deed.forgone) (idle (s.carryOut deeds)) := by
  induction deeds generalizing s with
  | nil => exact ⟨[], .refl _⟩
  | cons deed deeds ih => exact Run.onward (deed_run s deed) (ih _)

theorem meanwhile_run (s : Scheduler) (r : Scheduler.Round) :
    ∃ ids, Run (idle s) ids [] (idle (s.meanwhile r)) := by
  have worked : ∀ (handles : List Handle) (s : Scheduler),
      ∃ ids, Run (idle s) ids [] (idle (s.onHost fun h => handles.foldl Host.step h)) := by
    intro handles
    induction handles with
    | nil => exact fun s => ⟨[], .refl _⟩
    | cons handle handles ih =>
      exact fun s => Run.onward (deed_run s (.step handle)) (ih _)
  exact Run.onward (Beat.arrive s [] none r.messages).run (worked r.steps _)

theorem drain_run (rounds : List Scheduler.Round) (s : Scheduler) :
    ∃ ids, Run (idle s) ids [] (idle (s.drain rounds).2) := by
  induction rounds generalizing s with
  | nil => exact (catchUp_turns s).run
  | cons r rounds ih =>
    refine Run.onward (catchUp_turns s).run ?_
    rw [Scheduler.drain]
    split
    · exact ⟨[], .refl _⟩
    · exact Run.onward (meanwhile_run _ r) (Run.onward (waitForEvent_turns _ r.eager).run (ih _))

theorem shutdown_run (s : Scheduler) (rounds : List Scheduler.Round) :
    ∃ s' timedOut, (∃ ids, Run (idle s) ids [] (idle s')) ∧
      s.shutdown rounds = s'.conclude timedOut := by
  refine ⟨(s.beginDrain.drain rounds).2.catchUp, (s.beginDrain.drain rounds).1, ?_, rfl⟩
  exact Run.onward (deed_run s .beginDrain)
    (Run.onward (drain_run rounds _) (catchUp_turns _).run)

end Work
end MooCore
