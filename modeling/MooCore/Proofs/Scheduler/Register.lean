import MooCore.Proofs.Background.Apart
import MooCore.Proofs.Named
import MooCore.Proofs.Scheduler.Turns
/-!
# The register of tasks

The register holds what the server knows of its tasks and of those who want to know of their ends:
the table, the turns, the handles and the counters. It changes in few ways, and each of them is seen
by some of the scheduler's own events. Whatever happens to a server is a sequence of such changes.
-/

set_option autoImplicit false
namespace MooCore
open Background

/-- The counters that are about tasks and their results. -/
structure Counts where
  started : Nat
  completed : Nat
  aborted : Nat
  killed : Nat
  discarded : Nat

def Counts.ended (c : Counts) : Except String Value → Counts
  | .ok _ => { c with completed := c.completed + 1 }
  | .error _ => { c with aborted := c.aborted + 1 }

def answerOf : Except String Value → TaskAnswer
  | .ok v => .ok v
  | .error _ => .error .aborted

/-- Where the loop is: the turns that it has taken up, the task that is being stepped, the tasks
whose turn came with a result when they could not be stepped any more, and the tasks whose handle
was given up. -/
structure Place where
  batch : List (TaskId × Input) := []
  under : Option TaskId := none
  missed : List TaskId := []
  forgone : List TaskId := []

structure Register extends Place where
  tasks : Named TaskId Task
  last : TaskId
  ready : List (TaskId × Input)
  handles : Named TaskId (Option TaskAnswer)
  counts : Counts

namespace Register

/-- The results among some turns. -/
def results (turns : List (TaskId × Input)) : List Value := turns.filterMap fun x => x.2.result?

def told (handles : Named TaskId (Option TaskAnswer)) (id : TaskId) (t : Task) (a : TaskAnswer) :
    List Event :=
  if t.answerable && handles.has id then [.answered id a] else []

def settled (handles : Named TaskId (Option TaskAnswer)) (id : TaskId) (t : Task)
    (a : TaskAnswer) : Named TaskId (Option TaskAnswer) :=
  if t.answerable && handles.has id then handles.set id (some a) else handles

def arrival (id : TaskId) : Input → List Event
  | .start => []
  | .resume _ => [.delivered id]

def lost (id : TaskId) : Input → List TaskId
  | .start => []
  | .resume _ => [id]

def enrol (r : Register) (t : Task) : Register :=
  { r with
    tasks := r.tasks.set (r.last + 1) t
    last := r.last + 1
    counts := { r.counts with started := r.counts.started + 1 } }

/-- One change of the register, with the scheduler's own events that are seen of it. -/
inductive Step : Register → List Event → Register → Prop where
  | submitted (r : Register) (player : Obj) (session : Option SessionId) (t : Task)
      (new : t.waiting = none ∧ t.body.isSome = true) (asks : t.answerable = true) :
      Step r [.created (r.last + 1) player session]
        { r.enrol t with
          ready := r.ready ++ [(r.last + 1, .start)]
          handles := r.handles.set (r.last + 1) none }
  | hired (r : Register) (player : Obj) (session : Option SessionId) (t : Task)
      (new : t.waiting = none ∧ t.body.isSome = true) (unasked : t.answerable = false) :
      Step r [.created (r.last + 1) player session]
        { r.enrol t with ready := r.ready ++ [(r.last + 1, .start)] }
  | summoned (r : Register) (player : Obj) (session : Option SessionId) (t : Task)
      (new : t.waiting = none ∧ t.body.isSome = true) (unasked : t.answerable = false) :
      Step r [.created (r.last + 1) player session]
        { r.enrol t with batch := r.batch ++ [(r.last + 1, .start)] }
  | killed (r : Register) (id : TaskId) (t : Task) (there : r.tasks.get? id = some t) :
      Step r (.killed id t.player :: told r.handles id t (.error .cancelled))
        { r with
          tasks := r.tasks.erase id
          ready := r.ready.filter (·.1 ≠ id)
          handles := settled r.handles id t (.error .cancelled)
          counts := { r.counts with
            discarded := r.counts.discarded + (results (r.ready.filter (·.1 = id))).length
            killed := r.counts.killed + 1 } }
  | ended (r : Register) (id : TaskId) (t : Task) (result : Except String Value)
      (there : r.tasks.get? id = some t) (under : r.under = some id) :
      Step r (.ended id result :: told r.handles id t (answerOf result))
        { r with
          tasks := r.tasks.erase id
          handles := settled r.handles id t (answerOf result)
          counts := r.counts.ended result
          under := none }
  | rested (r : Register) (id : TaskId) (under : r.under = some id)
      (gone : r.tasks.get? id = none) : Step r [] { r with under := none }
  | home (r : Register) (id : TaskId) (f : Task → Task) (under : r.under = some id)
      (keeps : ∀ t, (f t).answerable = t.answerable ∧ (f t).waiting = t.waiting ∧
        (f t).body.isSome = true) :
      Step r [] { r with tasks := r.tasks.update id f }
  | stepped (r : Register) (id : TaskId) (resumed : Option Value) (under : r.under = some id) :
      Step r [.stepped id resumed]
        { r with tasks := r.tasks.update id fun t => { t with body := none } }
  | parked (r : Register) (id : TaskId) (h : Handle) (under : r.under = some id)
      (home : ∀ t, r.tasks.get? id = some t → t.body.isSome = true) :
      Step r []
        { r with tasks := r.tasks.update id fun t => { t with waiting := some h }, under := none }
  | picked (r : Register) (id : TaskId) (input : Input) (batch : List (TaskId × Input)) (t : Task)
      (turn : r.batch = (id, input) :: batch) (free : r.under = none)
      (there : r.tasks.get? id = some t) :
      Step r (arrival id input ++ [.stepped id input.result?])
        { r with
          tasks := r.tasks.update id fun t => { t with body := none }
          batch
          under := some id }
  | missed (r : Register) (id : TaskId) (input : Input) (batch : List (TaskId × Input))
      (turn : r.batch = (id, input) :: batch) (gone : r.tasks.get? id = none) :
      Step r [] { r with batch, missed := r.missed ++ lost id input }
  | reentered (r : Register) (id : TaskId) (input : Input) (batch : List (TaskId × Input))
      (t : Task) (turn : r.batch = (id, input) :: batch) (free : r.under = none)
      (there : r.tasks.get? id = some t) (away : t.body = none) :
      Step r [.reentered id] { r with batch, missed := r.missed ++ lost id input }
  | unclaimed (r : Register) (c : Completion)
      (nobody : ∀ t, r.tasks.get? c.task = some t → t.waiting ≠ some c.handle) :
      Step r [.taken c]
        { r with counts := { r.counts with discarded := r.counts.discarded + 1 } }
  | claimed (r : Register) (c : Completion) (t : Task) (there : r.tasks.get? c.task = some t)
      (waits : t.waiting = some c.handle) :
      Step r [.taken c]
        { r with
          tasks := r.tasks.update c.task fun t => { t with waiting := none }
          ready := r.ready ++ [(c.task, .resume c.result)] }
  | takenUp (r : Register) (done : r.batch = []) :
      Step r [] { r with batch := r.ready, ready := [] }
  | detached (r : Register) (id : TaskId) :
      Step r [] { r with handles := r.handles.erase id, forgone := r.forgone ++ [id] }

inductive Runs : Register → List Event → Register → Prop where
  | nil (r : Register) : Runs r [] r
  | cons {r r' r'' : Register} {es es' : List Event} (step : Step r es r')
      (runs : Runs r' es' r'') : Runs r (es ++ es') r''

variable {r r' r'' : Register} {es es' : List Event}

theorem Step.runs (step : Step r es r') : Runs r es r' := by
  rw [← List.append_nil es]
  exact .cons step (.nil r')

theorem Runs.append (first : Runs r es r') (second : Runs r' es' r'') :
    Runs r (es ++ es') r'' := by
  induction first with
  | nil => exact second
  | cons step _ ih =>
    rw [List.append_assoc]
    exact .cons step (ih second)

theorem Runs.keep {P : Register → List Event → Prop}
    (step : ∀ {r es r' all}, Step r es r' → P r all → P r' (all ++ es)) (runs : Runs r es r')
    {all : List Event} (holds : P r all) : P r' (all ++ es) := by
  induction runs generalizing all with
  | nil => rwa [List.append_nil]
  | cons first _ ih =>
    rw [← List.append_assoc]
    exact ih (step first holds)

end Register

namespace Scheduler

def Deed.isLoop : Deed → Bool
  | tick _ | phase _ => true
  | _ => false

/-- The handle that is given up. -/
def Deed.forgone : Deed → List TaskId
  | detach id => [id]
  | _ => []

variable {s s' s'' : Scheduler} {p p' p'' : Place}

def counts (s : Scheduler) : Counts where
  started := s.stats.started
  completed := s.stats.completed
  aborted := s.stats.aborted
  killed := s.stats.killed
  discarded := s.stats.discarded

def register (s : Scheduler) (p : Place) : Register where
  toPlace := p
  tasks := s.tasks
  last := s.lastTask
  ready := s.ready
  handles := s.handles
  counts := s.counts

/-- What the scheduler sees of its tasks agrees with the register. -/
def Enters (s : Scheduler) (p : Place) (s' : Scheduler) (p' : Place) : Prop :=
  ∃ es, s'.trace = s.trace ++ es ∧
    Register.Runs (s.register p) (es.filter Event.isOwn) (s'.register p')

theorem Enters.trans (first : Enters s p s' p') (second : Enters s' p' s'' p'') :
    Enters s p s'' p'' := by
  obtain ⟨es, trace, runs⟩ := first
  obtain ⟨es', trace', runs'⟩ := second
  refine ⟨es ++ es', by rw [trace', trace, List.append_assoc], ?_⟩
  rw [List.filter_append]
  exact runs.append runs'

theorem Enters.step {es : List Event} (trace : s'.trace = s.trace ++ es)
    (step : Register.Step (s.register p) (es.filter Event.isOwn) (s'.register p')) :
    Enters s p s' p' := ⟨es, trace, step.runs⟩

theorem Enters.mute {es : List Event} (same : s'.register p = s.register p)
    (trace : s'.trace = s.trace ++ es) (other : ∀ e ∈ es, e.isOwn = false) :
    Enters s p s' p := by
  refine ⟨es, trace, ?_⟩
  rw [List.filter_eq_nil_iff.2 fun e he => by simp [other e he], same]
  exact .nil _

theorem Enters.same (same : s'.register p = s.register p) (trace : s'.trace = s.trace) :
    Enters s p s' p := .mute same (trace.trans (List.append_nil _).symm) nofun

theorem Enters.refl (s : Scheduler) (p : Place) : Enters s p s p := .same rfl rfl

theorem Enters.of_host {h : Host} (apart : Apart s.toHost h) :
    Enters s p { s with toHost := h } p := by
  obtain ⟨es, trace, other⟩ := apart.trace
  exact .mute rfl trace other

theorem Enters.foldl {α : Type} {f : Scheduler → α → Scheduler}
    (each : ∀ s x, Enters s p (f s x) p) (xs : List α) (s : Scheduler) :
    Enters s p (xs.foldl f s) p := by
  induction xs generalizing s with
  | nil => exact Enters.refl s p
  | cons x xs ih => exact (each s x).trans (ih _)

variable (p)

/-! ## What leaves the register alone -/

theorem note_enters (s : Scheduler) {e : Event} (other : e.isOwn = false) :
    Enters s p (s.note e) p :=
  .mute rfl rfl fun _ he => List.mem_singleton.1 he ▸ other

theorem release_enters (s : Scheduler) (v : Value) : Enters s p (s.release v) p := .same rfl rfl

theorem releaseInput_enters (s : Scheduler) (input : Input) :
    Enters s p (s.releaseInput input) p := by
  cases input with
  | start => exact Enters.refl s p
  | resume v => exact s.release_enters p v

theorem sendLine_enters (s : Scheduler) (session : SessionId) (line : String) :
    Enters s p (s.sendLine session line).2 p := .same rfl rfl

theorem perform_enters (s : Scheduler) (e : Effect) : Enters s p (s.perform e).2 p := by
  cases e with
  | kill task =>
    simp only [perform]
    split <;> exact .same rfl rfl
  | remark r => exact s.note_enters p rfl
  | acquire _ | login _ _ | send _ _ | push _ _ | disconnect _ | waiters | maxThreads
  | setMaxThreads _ | setThreading _ | requestCheckpoint _ | requestShutdown _ | owner _
  | isWizard _ | newId | make _ | tryMake _ | keep _ | release _ | workspace _ | queueStats =>
    exact .same rfl rfl

/-! ## Ends of tasks -/

theorem answer_register (s : Scheduler) (id : TaskId) (t : Task) (a : TaskAnswer) :
    (if t.answerable then s.answer id a else s).register p =
      { s.register p with handles := Register.settled s.handles id t a } := by
  unfold Register.settled answer
  cases t.answerable with
  | false => rfl
  | true =>
    cases held : s.handles.has id with
    | false => cases a <;> rfl
    | true => rfl

theorem answer_told (s : Scheduler) (id : TaskId) (t : Task) (a : TaskAnswer) :
    (if t.answerable then s.answer id a else s).trace =
      s.trace ++ Register.told s.handles id t a := by
  unfold Register.told answer
  cases t.answerable with
  | false => exact (List.append_nil _).symm
  | true =>
    cases held : s.handles.has id with
    | false => cases a <;> exact (List.append_nil _).symm
    | true => rfl

theorem told_own (handles : Named TaskId (Option TaskAnswer)) (id : TaskId) (t : Task)
    (a : TaskAnswer) :
    (Register.told handles id t a).filter Event.isOwn = Register.told handles id t a := by
  unfold Register.told
  split <;> rfl

theorem withdraw_results (s : Scheduler) (task : TaskId) :
    (s.withdraw task).1 = Register.results (s.ready.filter (·.1 = task)) := by
  unfold withdraw Register.results
  refine congrArg (fun f => List.filterMap f _) (funext fun x => ?_)
  obtain ⟨id, _ | v⟩ := x <;> rfl

theorem clearAway_register (s : Scheduler) (task : TaskId) (t : Task) :
    (s.clearAway task t).register p =
      { s.register p with
        ready := s.ready.filter (·.1 ≠ task)
        handles := Register.settled s.handles task t (.error .cancelled)
        counts := { s.counts with
          discarded := s.stats.discarded + (Register.results (s.ready.filter (·.1 = task))).length
          killed := s.stats.killed + 1 } } := by
  rw [← withdraw_results]
  exact answer_register p _ task t _

theorem clearAway_trace (s : Scheduler) (task : TaskId) (t : Task) :
    ∃ es, (s.clearAway task t).trace =
      s.trace ++ es ++ Register.told s.handles task t (.error .cancelled) ∧
      ∀ e ∈ es, e.isOwn = false := by
  obtain ⟨es, marked, other⟩ := (s.toHost.killWaiters_apart task).trace
  refine ⟨es, ?_, other⟩
  rw [← marked]
  exact answer_told _ task t _

theorem kill_enters (s : Scheduler) (task : TaskId) : Enters s p (s.kill task).2 p := by
  rw [kill_eq]
  split
  · exact Enters.refl s p
  · rename_i t there
    let struck : Scheduler := { s with tasks := s.tasks.erase task }.note (.killed task t.player)
    obtain ⟨es, trace, other⟩ := clearAway_trace struck task t
    have seen : (struck.clearAway task t).trace = s.trace ++
        (.killed task t.player :: es ++ Register.told s.handles task t (.error .cancelled)) := by
      rw [trace]
      simp [struck, note, onHost, Host.note]
    have plain : es.filter Event.isOwn = [] :=
      List.filter_eq_nil_iff.2 fun e he => by simp [other e he]
    refine .step seen ?_
    rw [List.filter_append, List.filter_cons_of_pos rfl, plain, told_own, clearAway_register]
    exact .killed (s.register p) task t there

theorem killAsked_enters (s : Scheduler) : Enters s p s.killAsked p := by
  have rested : Enters s p { s with asked := [] } p := .same rfl rfl
  exact rested.trans (Enters.foldl (fun s task => s.kill_enters p task) s.asked _)

theorem killAll_enters (s : Scheduler) (tasks : List TaskId) :
    Enters s p (s.killAll tasks).2 p := by
  induction tasks generalizing s with
  | nil => exact Enters.refl s p
  | cons task tasks ih =>
    have first := s.kill_enters p task
    rw [killAll]
    split
    all_goals
      rename_i killed
      rw [killed] at first
      exact first.trans (ih _)

theorem killMatching_enters (s : Scheduler) (rule : TaskId → String → Verdict) :
    Enters s p (s.killMatching rule).2.2 p :=
  (Enters.of_host (s.toHost.enumerate_apart rule)).trans (killAll_enters p _ _)

theorem tellHandle_eq (s : Scheduler) (task : TaskId) (t : Task) (result : Except String Value) :
    s.tellHandle task t result =
      let kept := match result with
        | .ok v => if t.answerable then s.onHost (·.keep v) else s
        | .error _ => s
      if t.answerable then kept.answer task (answerOf result) else kept := by
  unfold tellHandle
  cases result <;> cases t.answerable <;> rfl

theorem complete_enters (s : Scheduler) (task : TaskId) (result : Except String Value)
    (under : p.under = some task) :
    Enters s p (s.complete task result) { p with under := none } := by
  rw [complete_eq]
  split
  · rename_i gone
    exact .step (List.append_nil _).symm (.rested (s.register p) task under gone)
  · rename_i t there
    let struck : Scheduler := { s with
      tasks := s.tasks.erase task, stats := countEnd s.stats result }.note (.ended task result)
    have seen : ((struck.tellSession t result).tellHandle task t result).trace =
        s.trace ++ (.ended task result :: Register.told s.handles task t (answerOf result)) := by
      rw [tellHandle_eq]
      dsimp only
      rw [answer_told]
      unfold tellSession
      cases result <;> cases t.session <;> cases t.answerable <;>
        simp [struck, note, onHost, Host.note, sendLine, Host.keep]
    refine .step seen ?_
    rw [List.filter_cons_of_pos rfl, told_own, tellHandle_eq]
    dsimp only
    rw [answer_register]
    have step := Register.Step.ended (s.register p) task t result there under
    unfold tellSession
    cases result <;> cases t.session <;> cases t.answerable <;> exact step

theorem finish_enters (s : Scheduler) (task : TaskId) (result : Except String Value)
    (under : p.under = some task) :
    Enters s p (s.finish task result).2 { p with under := none } :=
  (s.complete_enters p task result under).trans (killAsked_enters _ _)

/-! ## Steps -/

def afterPick (p : Place) (id : TaskId) (input : Input) (batch : List (TaskId × Input)) :
    Option (Caller × Act) → Place
  | some (caller, _) => { p with batch, under := some caller.task }
  | none => { p with batch, missed := p.missed ++ Register.lost id input }

theorem pick_enters (s : Scheduler) (id : TaskId) (input : Input) (batch : List (TaskId × Input))
    (turn : p.batch = (id, input) :: batch) (free : p.under = none) :
    Enters s p (s.pick id input).2 (afterPick p id input batch (s.pick id input).1) := by
  cases there : s.tasks.get? id with
  | none =>
    have gone : s.pick id input = (none, s.releaseInput input) := by
      simp only [pick, there]
    have missed : Enters s p s (afterPick p id input batch none) :=
      .step (List.append_nil _).symm (.missed (s.register p) id input batch turn there)
    rw [gone]
    exact missed.trans (releaseInput_enters _ s input)
  | some t =>
    cases body : t.body with
    | none =>
      have away : s.pick id input = (none, (s.note (.reentered id)).releaseInput input) := by
        simp only [pick, there, body]
      have noted : Enters s p (s.note (.reentered id)) (afterPick p id input batch none) :=
        ⟨[.reentered id], rfl, Register.Step.runs <|
          .reentered (s.register p) id input batch t turn free there body⟩
      rw [away]
      exact noted.trans (releaseInput_enters _ _ input)
    | some body' =>
      have seen : (s.pick id input).2.trace =
          s.trace ++ (Register.arrival id input ++ [.stepped id input.result?]) := by
        simp only [pick, there, body]
        cases input <;> simp [noteDelivery, takeBody, note, onHost, Host.note, updateTask,
          Register.arrival]
      refine .step seen ?_
      have step := Register.Step.picked (s.register p) id input batch t turn free there
      simp only [pick, there, body]
      cases input <;> exact step

theorem goOn_enters (s : Scheduler) (task : TaskId) (v : Value) (under : p.under = some task) :
    if (s.killAsked.tasks.get? task).isSome
    then Enters s p (s.killAsked.takeBody task (some v)) p
    else Enters s p (s.killAsked.release v) { p with under := none } := by
  have asked := s.killAsked_enters p
  split
  · refine asked.trans ?_
    exact ⟨[.stepped task (some v)], rfl, Register.Step.runs <|
      .stepped (s.killAsked.register p) task (some v) under⟩
  · rename_i gone
    have gone : s.killAsked.tasks.get? task = none := by simpa using gone
    have rested : Enters s.killAsked p s.killAsked { p with under := none } :=
      .step (List.append_nil _).symm (.rested (s.killAsked.register p) task under gone)
    exact asked.trans (rested.trans (release_enters _ _ v))

theorem park_enters (s : Scheduler) (task : TaskId) (h : Handle) (under : p.under = some task)
    (home : ∀ t, s.tasks.get? task = some t → t.body.isSome = true) :
    Enters s p (s.park task h) { p with under := none } :=
  .step (List.append_nil _).symm (.parked (s.register p) task h under home)

theorem putBack_enters (s : Scheduler) (task : TaskId) (held : List Value)
    (step : Caller → Input → Act) (under : p.under = some task) :
    Enters s p (s.putBack task held step) p :=
  .step (List.append_nil _).symm
    (.home (s.register p) task (fun t => { t with body := some { t with held, step } }) under
      fun _ => ⟨rfl, rfl, rfl⟩)

theorem putBack_home (s : Scheduler) (task : TaskId) (held : List Value)
    (step : Caller → Input → Act) {t : Task}
    (there : (s.putBack task held step).tasks.get? task = some t) : t.body.isSome = true := by
  rw [putBack, updateTask, Named.get?_update, if_pos rfl] at there
  obtain ⟨_, _, rfl⟩ := Option.map_eq_some_iff.1 there
  rfl

theorem immediate?_enters (s : Scheduler) (response : Response) :
    Enters s p (s.immediate? response).2 p ∧ (s.immediate? response).2.tasks = s.tasks := by
  rcases response with _ | _ | _ <;> exact ⟨.same rfl rfl, rfl⟩

theorem move_enters (caller : Caller) (act : Act) (s : Scheduler)
    (under : p.under = some caller.task) :
    Enters s p (act.move caller s).2
      { p with under := (Work.goingOn caller (act.move caller s).1).map (·.1.task) } := by
  cases act with
  | complete v => exact s.finish_enters p caller.task (.ok v) under
  | abort message => exact s.finish_enters p caller.task (.error message) under
  | effect e next =>
    have performed := s.perform_enters p e
    have stays : { p with under := some caller.task } = p := by rw [← under]
    exact stays ▸ performed
  | background envelope callback held next =>
    rw [Act.move]
    dsimp only
    -- the body is back before the request is made, so a task that has to wait has it
    have put := s.putBack_enters p caller.task held next under
    have home : ∀ t, (s.putBack caller.task held next).tasks.get? caller.task = some t →
        t.body.isSome = true := fun _ => s.putBack_home caller.task held next
    generalize s.putBack caller.task held next = s' at put home ⊢
    have asked : Enters s' p (s'.askHost (·.suspend caller.task { envelope with callback })).2 p :=
      .of_host (s'.toHost.suspend_apart _ _)
    have same : (s'.askHost (·.suspend caller.task { envelope with callback })).2.tasks =
      s'.tasks := rfl
    generalize s'.askHost (·.suspend caller.task { envelope with callback }) = answer
      at asked same ⊢
    obtain ⟨response, s''⟩ := answer
    obtain ⟨plain, same'⟩ := immediate?_enters p s'' response
    refine put.trans (asked.trans (plain.trans ?_))
    rw [← same, ← same'] at home
    generalize s''.immediate? response = answer at home
    obtain ⟨handle | v, s⟩ := answer
    · exact (s.park_enters p caller.task handle under home).trans (killAsked_enters _ _)
    · have goes_on := s.goOn_enters p caller.task v under
      dsimp only
      split at goes_on
      · rename_i there
        rw [if_pos there]
        have stays : { p with under := some caller.task } = p := by rw [← under]
        exact stays ▸ goes_on
      · rename_i gone
        rw [if_neg gone]
        exact goes_on

/-! ## Turns of the loop -/

theorem tellAll_enters (s : Scheduler)
    (answers : List (Checkpoint.Ticket × Checkpoint.Verdict)) :
    Enters s p (s.tellAll answers) p :=
  Enters.foldl (fun s _ => s.note_enters p rfl) answers s

theorem submit_enters (s : Scheduler) (player : Obj) (session : Option SessionId) (body : Body) :
    Enters s p (s.submit player session body).2 p := by
  unfold submit
  split
  · exact .same rfl rfl
  · exact ⟨[.created (s.lastTask + 1) player session], rfl, Register.Step.runs <|
      .submitted (s.register p) player session _ ⟨rfl, rfl⟩ rfl⟩

theorem handleMessage_enters (s : Scheduler) (ticket : Checkpoint.Ticket) (m : Message) :
    Enters s p (s.handleMessage ticket m) p := by
  cases m with
  | submit player session body =>
    have submitted := s.submit_enters p player session body
    rw [handleMessage]
    split
    all_goals
      rename_i answer
      rw [answer] at submitted
      exact submitted.trans (note_enters p _ rfl)
  | kill task =>
    have killed := s.kill_enters p task
    rw [handleMessage]
    split
    all_goals
      rename_i answer
      rw [answer] at killed
      exact killed.trans (note_enters p _ rfl)
  | checkpoint =>
    rw [handleMessage]
    split
    · exact s.note_enters p rfl
    · exact .same rfl rfl
  | shutdown farewell =>
    have asked : Enters s p { s with coordinator := s.coordinator.requestShutdown farewell } p :=
      .same rfl rfl
    exact asked.trans (note_enters p _ rfl)
  | waiters | queueStats => exact s.note_enters p rfl

theorem takeMessage_enters (s : Scheduler) : Enters s p s.takeMessage p := by
  unfold takeMessage
  split
  · exact Enters.refl s p
  · rename_i ticket m rest _
    have taken : Enters s p { s with messages := rest } p := .same rfl rfl
    exact taken.trans (handleMessage_enters p _ ticket m)

theorem handleCompletion_enters (s : Scheduler) (c : Completion) :
    Enters s p (s.handleCompletion c) p := by
  cases there : s.tasks.get? c.task with
  | none =>
    have gone : s.handleCompletion c = (s.note (.taken c)).discard c.result := by
      simp [handleCompletion, note, onHost, there]
    have nobody : ∀ t, s.tasks.get? c.task = some t → t.waiting ≠ some c.handle :=
      fun _ here => nomatch there.symm.trans here
    rw [gone]
    exact ⟨[.taken c], rfl, Register.Step.runs (.unclaimed (s.register p) c nobody)⟩
  | some t =>
    by_cases waits : t.waiting = some c.handle
    · have back : (s.handleCompletion c).register p = { s.register p with
          tasks := s.tasks.update c.task fun t => { t with waiting := none }
          ready := s.ready ++ [(c.task, .resume c.result)] } := by
        simp [handleCompletion, note, onHost, Host.note, there, waits, enqueue, updateTask,
          register, counts]
      have seen : (s.handleCompletion c).trace = s.trace ++ [.taken c] := by
        simp [handleCompletion, note, onHost, Host.note, there, waits, enqueue, updateTask]
      exact .step seen (back ▸ .claimed (s.register p) c t there waits)
    · have stray : s.handleCompletion c =
          ((s.note (.taken c)).note (.stray c.handle c.task)).discard c.result := by
        simp [handleCompletion, note, onHost, Host.note, there, waits]
      have nobody : ∀ t, s.tasks.get? c.task = some t → t.waiting ≠ some c.handle :=
        fun _ here => Option.some.inj (there.symm.trans here) ▸ waits
      rw [stray]
      exact ⟨[.taken c, .stray c.handle c.task], List.append_assoc _ _ _,
        Register.Step.runs (.unclaimed (s.register p) c nobody)⟩

theorem takeCompletion_enters (s : Scheduler) : Enters s p s.takeCompletion p := by
  unfold takeCompletion
  split
  · exact Enters.refl s p
  · rename_i c rest _
    have taken : Enters s p { s with channel := rest } p := .same rfl rfl
    exact taken.trans (handleCompletion_enters p _ c)

theorem checkpoint_enters (s : Scheduler) (reason : Checkpoint.Reason) :
    Enters s p (s.checkpoint reason).2 p := by
  have written : Enters s p (s.writeCheckpoint reason).2 p := by
    unfold writeCheckpoint
    split <;> exact .same rfl rfl
  unfold checkpoint
  split
  all_goals
    rename_i answer
    rw [answer] at written
    exact written.trans (.same rfl rfl)

theorem finishCheckpoint_enters (s : Scheduler) (verdict : Checkpoint.Verdict) :
    Enters s p (s.finishCheckpoint verdict) p := by
  have settled (coordinator : Checkpoint.Coordinator) :
      Enters s p { s.now.2 with coordinator } p := .same rfl rfl
  unfold finishCheckpoint
  dsimp only
  split
  · exact (settled _).trans ((tellAll_enters p _ _).trans (note_enters p _ rfl))
  · exact (settled _).trans (tellAll_enters p _ _)

theorem pollCheckpoint_enters (s : Scheduler) : Enters s p s.pollCheckpoint p := by
  have polled (coordinator : Checkpoint.Coordinator) :
      Enters s p { s.now.2 with coordinator } p := .same rfl rfl
  unfold pollCheckpoint
  dsimp only
  split
  · exact polled _
  · exact (polled _).trans ((checkpoint_enters p _ _).trans (finishCheckpoint_enters p _ _))

theorem startCommand_enters (s : Scheduler) (entry : SessionId × String) :
    Enters s p (s.startCommand entry) p := by
  unfold startCommand
  dsimp only
  split
  · exact Enters.refl s p
  · split
    · rename_i draft _
      have prepared : Enters s p (s.prepare draft).2 p :=
        .of_host (s.toHost.buildAll_apart draft.recipes)
      refine prepared.trans ?_
      exact ⟨[.created _ _ _], rfl, Register.Step.runs <|
        .hired ((s.prepare draft).2.register p) _ _ _ ⟨rfl, rfl⟩ rfl⟩
    · exact s.sendLine_enters p _ _

theorem detach_enters (s : Scheduler) (task : TaskId) :
    Enters s p (s.detach task).2 { p with forgone := p.forgone ++ [task] } := by
  have dropped : Enters s p { s with handles := s.handles.erase task }
      { p with forgone := p.forgone ++ [task] } :=
    .step (List.append_nil _).symm (.detached (s.register p) task)
  unfold detach
  split
  · rename_i unheld
    rwa [Named.erase_of_unused unheld] at dropped
  · dsimp only
    split
    · exact dropped.trans (release_enters _ _ _)
    · exact dropped
    · exact dropped

theorem restoreLatest_enters (s : Scheduler) : Enters s p s.restoreLatest.2 p := by
  unfold restoreLatest
  split
  · split
    · exact Enters.refl s p
    · exact Enters.refl s p
    · dsimp only
      split <;> exact .same rfl rfl
  · exact Enters.refl s p

theorem carryOut_enters (s : Scheduler) (deed : Deed) (outside : deed.isLoop = false) :
    Enters s p (deed.carryOut s) { p with forgone := p.forgone ++ deed.forgone } := by
  have keeps {s' : Scheduler} (enters : Enters s p s' p) :
      Enters s p s' { p with forgone := p.forgone ++ [] } := by rwa [List.append_nil]
  cases deed with
  | detach task => exact s.detach_enters p task
  | submit player session body => exact keeps (s.submit_enters p player session body)
  | kill task => exact keeps (s.kill_enters p task)
  | killMatching rule => exact keeps (s.killMatching_enters p rule)
  | restoreLatest => exact keeps (s.restoreLatest_enters p)
  | step handle => exact keeps (.of_host (s.toHost.step_apart handle))
  | tick _ | phase _ => cases outside
  | awaitCheckpoint _ | beginDrain | post _ | line _ _ | setStarter _ | elsewhere _ _ _ =>
    exact keeps (.same rfl rfl)

end Scheduler
end MooCore
