import MooCore.Proofs.Scheduler.Whereabouts
/-!
# The wait for background threads

While a server waits for its background threads it goes round: messages are handled, results are
taken, the tasks that are ready are stepped, and it looks whether any thread is left. Here it goes
round in small turns, and between any two of them messages come in, workers go on, and the rest of
the server does. What is done in one go when the server is shut down is one of the ways through
these turns.
-/

set_option autoImplicit false
namespace MooCore
namespace Scheduler
open Background

def Round.Calm (r : Round) : Prop := ∀ m ∈ r.messages, m.2.Calm

/-- What the server is about to do. -/
inductive Drain.Stage where
  | messages
  | results
  /-- turns that were taken up are left -/
  | stepping (batch : List (TaskId × Input))
  /-- a task is being stepped -/
  | acting (caller : Caller) (act : Act) (batch : List (TaskId × Input))
  | looking
  | waiting
  | closed

instance (stage : Drain.Stage) : Decidable (stage = .closed) :=
  match stage with
  | .closed => isTrue rfl
  | .messages | .results | .stepping _ | .acting .. | .looking | .waiting => isFalse nofun

/-- A server that waits for its threads, whether this is its last round, and whether it was cut
short. -/
structure Drain where
  server : Scheduler
  stage : Drain.Stage := .messages
  last : Bool := false
  timedOut : Bool := false

namespace Drain

def proceed (d : Drain) : Drain :=
  match d.stage with
  | .messages =>
    if d.server.messages.isEmpty then { d with stage := .results }
    else { d with server := d.server.takeMessage }
  | .results =>
    if d.server.channel.isEmpty then
      { d with server := { d.server with ready := [] }, stage := .stepping d.server.ready }
    else { d with server := d.server.takeCompletion }
  | .stepping [] => { d with stage := if d.last then .closed else .looking }
  | .stepping ((task, input) :: batch) =>
    match d.server.pick task input with
    | (some (caller, act), server) => { d with server, stage := .acting caller act batch }
    | (none, server) => { d with server, stage := .stepping batch }
  | .acting caller act batch =>
    match act.move caller d.server with
    | (.inl act, server) => { d with server, stage := .acting caller act batch }
    | (.inr outcome, server) =>
      { d with server := server.releaseOutcome outcome, stage := .stepping batch }
  | .looking =>
    if d.server.gateway.live = 0 then { d with last := true, stage := .messages }
    else { d with stage := .waiting }
  | .waiting | .closed => d

/-- One thing that happens meanwhile: a message comes in, a worker takes its next step, the rest of
the server goes on, or the server itself does. A server that waits wakes up, with the first result
rather than the first message if it is `eager`; one that finds threads left may find the time up. -/
inductive Turn where
  | post (ticket : Checkpoint.Ticket) (m : Message)
  | work (handle : Handle)
  | elsewhere (w : Workspace) (l : Lobby) (clock : Instant)
  | proceed
  | wake (eager : Bool)
  | timeUp

def take (d : Drain) : Turn → Drain
  | .post ticket m =>
    { d with server := { d.server with messages := d.server.messages ++ [(ticket, m)] } }
  | .work handle => { d with server := d.server.onHost (·.step handle) }
  | .elsewhere w l clock =>
    { d with server := { d.server with toWorkspace := w, toLobby := l, clock } }
  | .proceed => d.proceed
  | .wake eager =>
    match d.stage with
    | .waiting => { d with server := d.server.waitForEvent eager, stage := .messages }
    | _ => d
  | .timeUp =>
    match d.stage with
    | .looking =>
      if d.server.gateway.live = 0 then d
      else { d with last := true, timedOut := true, stage := .messages }
    | _ => d

def run (d : Drain) (turns : List Turn) : Drain := turns.foldl take d

/-- Tasks reach the background only by what their own steps ask for. -/
def Turn.Calm : Turn → Prop
  | .post _ m => m.Calm
  | _ => True

/-! ## The whole wait -/

def Reaches (d d' : Drain) : Prop :=
  ∃ turns : List Turn, (∀ turn ∈ turns, turn.Calm) ∧ d.run turns = d'

variable {d d' d'' : Drain}

theorem Reaches.refl (d : Drain) : Reaches d d := ⟨[], nofun, rfl⟩

theorem Reaches.trans (first : Reaches d d') (second : Reaches d' d'') : Reaches d d'' := by
  obtain ⟨turns, calm, rfl⟩ := first
  obtain ⟨turns', calm', rfl⟩ := second
  exact ⟨turns ++ turns', fun turn mem => (List.mem_append.1 mem).elim (calm turn) (calm' turn),
    List.foldl_append⟩

theorem Reaches.turn (d : Drain) (turn : Turn) (calm : turn.Calm) : Reaches d (d.take turn) :=
  ⟨[turn], fun _ mem => List.mem_singleton.1 mem ▸ calm, rfl⟩

theorem Reaches.proceed (d : Drain) : Reaches d d.proceed := .turn d .proceed trivial

end Drain

/-! ### Messages and results -/

theorem answer_messages (s : Scheduler) (task : TaskId) (result : TaskAnswer) :
    (s.answer task result).messages = s.messages := by
  unfold answer
  repeat' split
  all_goals rfl

theorem kill_messages (s : Scheduler) (task : TaskId) : (s.kill task).2.messages = s.messages := by
  unfold kill
  split
  · rfl
  · dsimp only
    split
    · exact answer_messages _ _ _
    · rfl

theorem submit_messages (s : Scheduler) (player : Obj) (session : Option SessionId) (body : Body) :
    (s.submit player session body).2.messages = s.messages := by
  unfold submit
  split <;> rfl

theorem handleMessage_messages (s : Scheduler) (ticket : Checkpoint.Ticket) (m : Message) :
    (s.handleMessage ticket m).messages = s.messages := by
  cases m with
  | submit player session body =>
    have submitted := s.submit_messages player session body
    rw [handleMessage]
    split
    all_goals
      rename_i answer
      rw [answer] at submitted
      exact submitted
  | kill task =>
    have killed := s.kill_messages task
    rw [handleMessage]
    split
    all_goals
      rename_i answer
      rw [answer] at killed
      exact killed
  | checkpoint =>
    rw [handleMessage]
    split <;> rfl
  | shutdown _ | waiters | queueStats => rfl

theorem takeMessage_messages (s : Scheduler) : s.takeMessage.messages = s.messages.tail := by
  unfold takeMessage
  cases messages : s.messages with
  | nil => exact messages
  | cons first rest => exact handleMessage_messages _ _ _

theorem handleCompletion_channel (s : Scheduler) (c : Completion) :
    (s.handleCompletion c).channel = s.channel := by
  unfold handleCompletion
  dsimp only
  repeat' split
  all_goals rfl

theorem takeCompletion_channel (s : Scheduler) : s.takeCompletion.channel = s.channel.tail := by
  unfold takeCompletion
  cases channel : s.channel with
  | nil => exact channel
  | cons c rest => exact handleCompletion_channel _ _

namespace Drain

theorem reaches_results (s : Scheduler) (last timedOut : Bool) :
    Reaches { server := s, last, timedOut }
      { server := takeMessages s.messages.length s, stage := .results, last, timedOut } := by
  generalize left : s.messages.length = n
  induction n generalizing s with
  | zero =>
    have none_left := List.eq_nil_of_length_eq_zero left
    refine (Reaches.proceed _).trans ?_
    simp only [proceed, none_left, List.isEmpty_nil, if_true, takeMessages]
    exact .refl _
  | succ n ih =>
    have some_left : s.messages.isEmpty = false := by
      cases messages : s.messages with
      | nil => rw [messages] at left; cases left
      | cons => rfl
    refine (Reaches.proceed _).trans ?_
    simp only [proceed, some_left, Bool.false_eq_true, if_false, takeMessages]
    exact ih s.takeMessage (by rw [takeMessage_messages, List.length_tail, left]; rfl)

theorem reaches_stepping (s : Scheduler) (last timedOut : Bool) :
    let received := takeCompletions s.channel.length s
    Reaches { server := s, stage := .results, last, timedOut }
      { server := { received with ready := [] }, stage := .stepping received.ready, last,
        timedOut } := by
  generalize left : s.channel.length = n
  induction n generalizing s with
  | zero =>
    have none_left := List.eq_nil_of_length_eq_zero left
    refine (Reaches.proceed _).trans ?_
    simp only [proceed, none_left, List.isEmpty_nil, if_true, takeCompletions]
    exact .refl _
  | succ n ih =>
    have some_left : s.channel.isEmpty = false := by
      cases channel : s.channel with
      | nil => rw [channel] at left; cases left
      | cons => rfl
    refine (Reaches.proceed _).trans ?_
    simp only [proceed, some_left, Bool.false_eq_true, if_false, takeCompletions]
    exact ih s.takeCompletion (by rw [takeCompletion_channel, List.length_tail, left]; rfl)

theorem reaches_outcome (caller : Caller) (act : Act) (batch : List (TaskId × Input))
    (s : Scheduler) (last timedOut : Bool) :
    Reaches { server := s, stage := .acting caller act batch, last, timedOut }
      { server := (act.run caller s).2.releaseOutcome (act.run caller s).1,
        stage := .stepping batch, last, timedOut } := by
  induction act using Act.move_induct generalizing s with
  | moves act ih =>
    refine (Reaches.proceed _).trans ?_
    rw [Act.run_eq]
    cases result : act.move caller s with
    | mk next s' =>
      simp only [proceed, result]
      cases next with
      | inl act' => exact ih caller s act' (by rw [result]) s'
      | inr outcome => exact .refl _

theorem reaches_rest (task : TaskId) (input : Input) (batch : List (TaskId × Input)) (s : Scheduler)
    (last timedOut : Bool) :
    Reaches { server := s, stage := .stepping ((task, input) :: batch), last, timedOut }
      { server := s.runOne (task, input), stage := .stepping batch, last, timedOut } := by
  refine (Reaches.proceed _).trans ?_
  rw [runOne, stepTask_eq]
  cases result : s.pick task input with
  | mk choice s' =>
    simp only [proceed, result]
    cases choice with
    | none => exact .refl _
    | some work => exact reaches_outcome work.1 work.2 batch s' last timedOut

theorem reaches_stepped (batch : List (TaskId × Input)) (s : Scheduler) (last timedOut : Bool) :
    Reaches { server := s, stage := .stepping batch, last, timedOut }
      { server := batch.foldl runOne s, stage := .stepping [], last, timedOut } := by
  induction batch generalizing s with
  | nil => exact .refl _
  | cons entry batch ih => exact (reaches_rest entry.1 entry.2 batch s last timedOut).trans (ih _)

theorem reaches_caughtUp (s : Scheduler) (last timedOut : Bool) :
    Reaches { server := s, last, timedOut }
      { server := s.catchUp, stage := if last then .closed else .looking, last, timedOut } :=
  (reaches_results s last timedOut).trans <| (reaches_stepping _ last timedOut).trans <|
    (reaches_stepped _ _ last timedOut).trans (.proceed _)

theorem reaches_meanwhile (s : Scheduler) (stage : Stage) {r : Round} (calm : r.Calm) :
    Reaches { server := s, stage } { server := s.meanwhile r, stage } := by
  have posted : ∀ (ms : List (Checkpoint.Ticket × Message)) (s : Scheduler),
      (∀ m ∈ ms, m.2.Calm) →
      Reaches { server := s, stage }
        { server := { s with messages := s.messages ++ ms }, stage } := by
    intro ms
    induction ms with
    | nil =>
      intro s _
      rw [List.append_nil]
      exact .refl _
    | cons m ms ih =>
      intro s calm
      refine (Reaches.turn _ (.post m.1 m.2) (calm m (List.mem_cons_self ..))).trans
        ((ih _ fun m mem => calm m (List.mem_cons_of_mem _ mem)).trans ?_)
      simp only [List.append_assoc, List.singleton_append]
      exact .refl _
  have worked : ∀ (handles : List Handle) (s : Scheduler),
      Reaches { server := s, stage }
        { server := s.onHost fun h => handles.foldl Host.step h, stage } := by
    intro handles
    induction handles with
    | nil => exact fun s => .refl _
    | cons handle handles ih => exact fun s => (Reaches.turn _ (.work handle) trivial).trans (ih _)
  exact (posted r.messages s calm).trans (worked r.steps _)

theorem reaches_last (s : Scheduler) (timedOut : Bool) :
    Reaches { server := s, last := true, timedOut }
      { server := s.catchUp, stage := .closed, last := true, timedOut } :=
  reaches_caughtUp s true timedOut

theorem reaches_closed (s : Scheduler) {rounds : List Round} (calm : ∀ r ∈ rounds, r.Calm) :
    Reaches { server := s }
      { server := (s.drain rounds).2.catchUp, stage := .closed, last := true,
        timedOut := (s.drain rounds).1 } := by
  induction rounds generalizing s with
  | nil =>
    refine (reaches_caughtUp s false false).trans ?_
    rw [drain]
    by_cases idle : s.catchUp.gateway.live = 0
    · refine (Reaches.proceed _).trans ?_
      simp only [proceed, Bool.false_eq_true, if_false, ne_eq, idle, not_true_eq_false,
        decide_false, if_true]
      exact reaches_last _ _
    · refine (Reaches.turn _ .timeUp trivial).trans ?_
      simp only [take, Bool.false_eq_true, if_false, ne_eq, idle, not_false_eq_true,
        decide_true]
      exact reaches_last _ _
  | cons r rounds ih =>
    refine (reaches_caughtUp s false false).trans ((Reaches.proceed _).trans ?_)
    rw [drain]
    by_cases idle : s.catchUp.gateway.live = 0
    · simp only [proceed, Bool.false_eq_true, if_false, if_pos idle]
      exact reaches_last _ _
    · simp only [proceed, Bool.false_eq_true, if_false, if_neg idle]
      have first : r.Calm := calm r (List.mem_cons_self ..)
      exact (reaches_meanwhile _ .waiting first).trans
        ((Reaches.turn _ (.wake r.eager) trivial).trans
          (ih _ fun r mem => calm r (List.mem_cons_of_mem _ mem)))

end Drain

/-- A server that is shut down waits while things happen one after another. -/
def wait (s : Scheduler) (turns : List Drain.Turn) : Drain :=
  ({ server := s.beginDrain } : Drain).run turns

/-- Shutting down is one of the ways in which a server may wait for its threads, and what is left to
do after that. -/
theorem shutdown_waits (s : Scheduler) {rounds : List Round} (calm : ∀ r ∈ rounds, r.Calm) :
    ∃ turns : List Drain.Turn, (∀ turn ∈ turns, turn.Calm) ∧ (s.wait turns).stage = .closed ∧
      s.shutdown rounds = (s.wait turns).server.conclude (s.wait turns).timedOut := by
  obtain ⟨turns, all_calm, there⟩ := Drain.reaches_closed s.beginDrain calm
  refine ⟨turns, all_calm, ?_⟩
  rw [wait, there]
  exact ⟨rfl, rfl⟩

end Scheduler
end MooCore
