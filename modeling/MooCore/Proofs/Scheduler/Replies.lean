import MooCore.Proofs.Scheduler.Moves
import MooCore.Proofs.Sessions.Holds
import MooCore.Proofs.Value.Legibility
import MooCore.Scheduler.Quiet
/-!
# What a connection is told

A line is sent to one session and only while its transport is open. When a task ends its session is
told the value or what went wrong, and as a literal form can be read in only one way, the line says
which value it was.
-/

set_option autoImplicit false
namespace MooCore

/-! ## Lines to one session -/

namespace Sessions

def sentTo (r : Sessions) (id : SessionId) : List String :=
  ((r.handle? id).map (·.transport.sent)).getD []

theorem send_sentTo (r : Sessions) (session : SessionId) (line : String) (id : SessionId) :
    (r.send session line).2.sentTo id =
      r.sentTo id ++ if id = session ∧ r.listens session then [line] else [] := by
  rw [send_eq]
  by_cases listens : r.listens session
  · simp only [listens, if_true, and_true, sentTo,
      r.handle?_adjust_id session id (Hall.touch_id (.send line))]
    by_cases here : id = session
    · subst here
      unfold Sessions.listens at listens
      cases got : r.get? id with
      | none =>
        rw [got] at listens
        cases listens
      | some x =>
        obtain ⟨found, -⟩ := Option.filter_eq_some_iff.1 got
        rw [got, Option.any_some] at listens
        simp [found, Session.touch, Session.send_eq, listens]
    · simp [here]
  · simp [listens]

end Sessions

namespace Scheduler

theorem sendLine_linesTo (s : Scheduler) (session : SessionId) (line : String) (id : SessionId) :
    (s.sendLine session line).2.linesTo id =
      s.linesTo id ++ if id = session ∧ s.sessions.listens session then [line] else [] :=
  s.sessions.send_sentTo session line id

/-! ## The end of a task -/

theorem answer_sessions (s : Scheduler) (task : TaskId) (result : TaskAnswer) :
    (s.answer task result).sessions = s.sessions := by
  unfold answer
  split
  · rfl
  · split <;> rfl

theorem tellHandle_sessions (s : Scheduler) (task : TaskId) (t : Task)
    (result : Except String Value) : (s.tellHandle task t result).sessions = s.sessions := by
  unfold tellHandle
  split
  · split <;> exact answer_sessions _ _ _
  · rfl

def answersTo (s : Scheduler) (task : TaskId) (id : SessionId) : Bool :=
  (s.tasks.get? task).any fun t => t.session == some id && s.sessions.listens id

theorem complete_linesTo (s : Scheduler) (task : TaskId) (result : Except String Value)
    (id : SessionId) :
    (s.complete task result).linesTo id =
      s.linesTo id ++ if s.answersTo task id then [farewellLine result] else [] := by
  rw [complete_eq, answersTo]
  cases s.tasks.get? task with
  | none => simp
  | some t =>
    rw [Option.any_some]
    dsimp only
    rw [linesTo, tellHandle_sessions, ← linesTo, tellSession]
    cases t.session with
    | none => exact (List.append_nil _).symm
    | some session =>
      dsimp only
      rw [sendLine_linesTo]
      refine congrArg (s.linesTo id ++ ·) (if_congr ?_ rfl rfl)
      by_cases here : id = session
      · subst here
        exact ⟨fun heard => Bool.and_eq_true_iff.2 ⟨beq_self_eq_true _, heard.2⟩,
          fun heard => ⟨rfl, (Bool.and_eq_true_iff.1 heard).2⟩⟩
      · simp [here, Ne.symm here]

theorem eq_farewellLine {s : Scheduler} {task : TaskId} {result : Except String Value}
    {id : SessionId} {line : String}
    (sent : (s.complete task result).linesTo id = s.linesTo id ++ [line]) :
    line = farewellLine result := by
  rw [complete_linesTo] at sent
  have added := List.append_cancel_left sent
  split at added
  · exact (List.cons.inj added).1.symm
  · cases added

theorem farewellLine_ok_ne (v : Value) (message : String) :
    farewellLine (.ok v) ≠ farewellLine (.error message) := by
  intro e
  have chars := congrArg String.toList e
  simp [farewellLine] at chars

theorem farewellLine_ok_inj {v w : Value} (e : farewellLine (.ok v) = farewellLine (.ok w)) :
    v.literal = w.literal := by
  have chars := congrArg String.toList e
  simp only [farewellLine, String.toList_append] at chars
  exact String.toList_inj.1 (List.append_cancel_left chars)

/-- A value made of scalars without fractions, texts, lists and maps is equal to every other one
with its literal form; and if a connection is sent the same line at the end of two tasks, of
whatever servers, the second ended with a value too, and that one is equal to the first. -/
theorem reply_determines (v : Value) (hv : v.shape.definite = true) :
    (∀ w : Value, w.shape.definite = true → v.literal = w.literal →
      v.shape = w.shape ∧ v.equal w = true) ∧
    ∀ (s s' : Scheduler) (task task' : TaskId) (id id' : SessionId) (line : String)
      (result : Except String Value),
      (s.complete task (.ok v)).linesTo id = s.linesTo id ++ [line] →
      (s'.complete task' result).linesTo id' = s'.linesTo id' ++ [line] →
      ∃ w, result = .ok w ∧
        (w.shape.definite = true → v.shape = w.shape ∧ v.equal w = true) := by
  have read (w : Value) (hw : w.shape.definite = true) (e : v.literal = w.literal) :
      v.shape = w.shape ∧ v.equal w = true :=
    have same := Shape.literal_inj hv hw e
    ⟨same, Value.equal_of_shape hv same⟩
  refine ⟨read, fun s s' task task' id id' line result sent sent' => ?_⟩
  have first := eq_farewellLine sent
  have second := eq_farewellLine sent'
  cases result with
  | error message => exact absurd (first.symm.trans second) (farewellLine_ok_ne v message)
  | ok w =>
    exact ⟨w, rfl, fun hw => read w hw (farewellLine_ok_inj (first.symm.trans second))⟩

/-- A text that looks like the rest of a list, beside a map. -/
def tricky (cell : CellId) : Value :=
  .list cell [.str (cell + 1) "a\", \"b\\",
    .map (cell + 2) [(.err .perm, .list (cell + 3) []), (.int (-5), .obj ⟨7⟩)], .none]

def serving : Scheduler :=
  let s := Scheduler.ofConfig {} (.placeholders 0 [] .succeed) (fun line => .error line) 0
  { s with
    sessions := (s.sessions.openSession 0 "peer").2
    tasks := s.tasks.set 1
      { player := ⟨2⟩, session := some 1, description := "", body := none, answerable := false } }

theorem reply_determines_tricky :
    (tricky 0).shape.definite = true ∧ (tricky 0).literal = (tricky 4).literal ∧
      (tricky 0).equal (tricky 4) = true ∧
      ∃ w, Except.ok (tricky 4) = (Except.ok w : Except String Value) ∧
        (w.shape.definite = true → (tricky 0).equal w = true) := by
  have definite : ∀ c, (tricky c).shape.definite = true := fun _ => rfl
  have told (c : CellId) : (serving.complete 1 (.ok (tricky c))).linesTo 1 =
      serving.linesTo 1 ++ ["=> " ++ (tricky c).literal] := by
    rw [complete_linesTo]
    rfl
  obtain ⟨equal, replies⟩ := reply_determines (tricky 0) (definite 0)
  refine ⟨definite 0, rfl, (equal (tricky 4) (definite 4) rfl).2, ?_⟩
  obtain ⟨w, e, same⟩ := replies serving serving 1 1 1 1 _ _ (told 0) (told 4)
  exact ⟨w, e, fun hw => (same hw).2⟩

end Scheduler
end MooCore
