import MooCore.Proofs.Background.Apart
import MooCore.Proofs.Named
import MooCore.Proofs.Scheduler.Turns
/-!
# The roll of tasks

The roll says which tasks are there and which number was given to a task last. What is seen of the
life of tasks agrees with it: a task is made under the next number, and it is stepped, handed
results, ended or killed only while it is there. Once a task is killed nothing more is seen of it.
-/

set_option autoImplicit false
namespace MooCore
open Background

structure Roll where
  alive : List TaskId
  last : TaskId

namespace Roll

/-- What may be seen while the roll stands so, and how the roll stands afterwards. -/
inductive Step : Roll → Event → Roll → Prop where
  | aside (r : Roll) (e : Event) (other : e.life? = none) : Step r e r
  | created (r : Roll) (player : Obj) (session : Option SessionId) :
      Step r (.created (r.last + 1) player session) ⟨r.alive ++ [r.last + 1], r.last + 1⟩
  | stepped (r : Roll) (id : TaskId) (resumed : Option Value) (there : id ∈ r.alive) :
      Step r (.stepped id resumed) r
  | reentered (r : Roll) (id : TaskId) (there : id ∈ r.alive) : Step r (.reentered id) r
  | delivered (r : Roll) (id : TaskId) (there : id ∈ r.alive) : Step r (.delivered id) r
  | ended (r : Roll) (id : TaskId) (result : Except String Value) (there : id ∈ r.alive) :
      Step r (.ended id result) { r with alive := r.alive.filter (· ≠ id) }
  | killed (r : Roll) (id : TaskId) (player : Obj) (there : id ∈ r.alive) :
      Step r (.killed id player) { r with alive := r.alive.filter (· ≠ id) }

/-- What is seen one after another. Tasks that are given up leave the roll unseen. -/
inductive Runs : Roll → List Event → Roll → Prop where
  | nil (r : Roll) : Runs r [] r
  | cons {r r' r'' : Roll} {e : Event} {es : List Event} (step : Step r e r')
      (runs : Runs r' es r'') : Runs r (e :: es) r''
  | leave {r r' : Roll} {es : List Event} (alive : List TaskId) (fewer : alive.Sublist r.alive)
      (runs : Runs ⟨alive, r.last⟩ es r') : Runs r es r'

variable {r r' r'' : Roll} {e : Event} {es es' : List Event} {id : TaskId}

theorem Step.runs (step : Step r e r') : Runs r [e] r' := .cons step (.nil r')

theorem Runs.append (first : Runs r es r') (second : Runs r' es' r'') : Runs r (es ++ es') r'' := by
  induction first with
  | nil => exact second
  | cons step _ ih => exact .cons step (ih second)
  | leave alive fewer _ ih => exact .leave alive fewer (ih second)

theorem Runs.mute (r : Roll) (mute : ∀ e ∈ es, e.life? = none) : Runs r es r := by
  induction es with
  | nil => exact .nil r
  | cons e es ih =>
    exact .cons (.aside r e (mute e (List.mem_cons_self ..)))
      (ih fun e he => mute e (List.mem_cons_of_mem _ he))

/-! ## What the roll keeps -/

/-- No task is there twice, and no number is ahead of the last one. -/
structure Fit (r : Roll) : Prop where
  distinct : r.alive.Nodup
  given : ∀ id ∈ r.alive, id ≤ r.last

theorem Step.fit (step : Step r e r') (fit : r.Fit) : r'.Fit := by
  cases step with
  | aside | stepped | reentered | delivered => exact fit
  | created =>
    have fresh : r.last + 1 ∉ r.alive := fun there =>
      absurd (fit.given _ there) (Nat.not_succ_le_self _)
    refine ⟨?_, fun id there => ?_⟩
    · exact (List.nodup_append_comm.1 (List.nodup_cons.2 ⟨fresh, fit.distinct⟩ :))
    · rcases List.mem_append.1 there with old | new
      · exact (fit.given id old).trans (Nat.le_succ _)
      · exact (List.mem_singleton.1 new).le
  | ended | killed =>
    exact ⟨fit.distinct.filter _, fun id there => fit.given id (List.mem_of_mem_filter there)⟩

theorem Fit.fewer (fit : r.Fit) {alive : List TaskId} (fewer : alive.Sublist r.alive) :
    Fit ⟨alive, r.last⟩ :=
  ⟨fit.distinct.sublist fewer, fun id there => fit.given id (fewer.subset there)⟩

theorem Runs.fit (runs : Runs r es r') (fit : r.Fit) : r'.Fit := by
  induction runs with
  | nil => exact fit
  | cons step _ ih => exact ih (step.fit fit)
  | leave alive fewer _ ih => exact ih (fit.fewer fewer)

/-- A task that was there and is there no more. -/
structure Gone (r : Roll) (id : TaskId) : Prop where
  absent : id ∉ r.alive
  given : id ≤ r.last

theorem Step.gone (step : Step r e r') (gone : r.Gone id) : r'.Gone id ∧ e.life? ≠ some id := by
  have not_it {n : TaskId} (there : n ∈ r.alive) : some n ≠ some id := fun same =>
    gone.absent (Option.some.inj same ▸ there)
  cases step with
  | aside e other => exact ⟨gone, other ▸ nofun⟩
  | created =>
    have ne : r.last + 1 ≠ id := fun same =>
      absurd (same ▸ gone.given) (Nat.not_succ_le_self _)
    refine ⟨⟨fun there => ?_, gone.given.trans (Nat.le_succ _)⟩,
      fun same => ne (Option.some.inj same)⟩
    exact (List.mem_append.1 there).elim gone.absent fun new => ne (List.mem_singleton.1 new).symm
  | stepped n v there | reentered n there | delivered n there => exact ⟨gone, not_it there⟩
  | ended n result there | killed n player there =>
    exact ⟨⟨fun still => gone.absent (List.mem_of_mem_filter still), gone.given⟩, not_it there⟩

theorem Runs.gone (runs : Runs r es r') (gone : r.Gone id) :
    r'.Gone id ∧ ∀ e ∈ es, e.life? ≠ some id := by
  induction runs with
  | nil => exact ⟨gone, nofun⟩
  | cons step _ ih =>
    obtain ⟨gone', unseen⟩ := step.gone gone
    obtain ⟨gone'', rest⟩ := ih gone'
    exact ⟨gone'', List.forall_mem_cons.2 ⟨unseen, rest⟩⟩
  | leave alive fewer _ ih => exact ih ⟨fun there => gone.absent (fewer.subset there), gone.given⟩

theorem Runs.after_kill {all : List Event} {player : Obj} (runs : Runs r all r') (fit : r.Fit)
    (split : all = es ++ .killed id player :: es') :
    r'.Gone id ∧ ∀ e ∈ es', e.life? ≠ some id := by
  induction runs generalizing es with
  | nil => exact absurd split.symm (List.append_ne_nil_of_right_ne_nil _ (List.cons_ne_nil _ _))
  | cons step rest ih =>
    cases es with
    | cons e es => exact ih (step.fit fit) (List.cons.inj split).2
    | nil =>
      obtain ⟨rfl, rfl⟩ := List.cons.inj split
      cases step with
      | aside _ other => cases other
      | killed _ _ there => exact rest.gone ⟨fun still => by simp at still, fit.given id there⟩
  | leave alive fewer _ ih => exact ih (fit.fewer fewer) split

end Roll

namespace Scheduler

variable {s s' s'' : Scheduler}

def roll (s : Scheduler) : Roll where
  alive := s.tasks.map Prod.fst
  last := s.lastTask

def Logs (s s' : Scheduler) : Prop :=
  s.roll.Fit → ∃ es, s'.trace = s.trace ++ es ∧ Roll.Runs s.roll es s'.roll

theorem Logs.trans (first : Logs s s') (second : Logs s' s'') : Logs s s'' := fun fit => by
  obtain ⟨es, trace, runs⟩ := first fit
  obtain ⟨es', trace', runs'⟩ := second (runs.fit fit)
  exact ⟨es ++ es', by rw [trace', trace, List.append_assoc], runs.append runs'⟩

theorem Logs.mute {es : List Event} (roll : s'.roll = s.roll) (trace : s'.trace = s.trace ++ es)
    (mute : ∀ e ∈ es, e.life? = none) : Logs s s' := fun _ =>
  ⟨es, trace, roll ▸ Roll.Runs.mute s.roll mute⟩

theorem Logs.same (roll : s'.roll = s.roll) (trace : s'.trace = s.trace) : Logs s s' :=
  .mute roll (trace.trans (List.append_nil _).symm) nofun

theorem Logs.refl (s : Scheduler) : Logs s s := .same rfl rfl

theorem Logs.of_host {h : Host} (apart : Apart s.toHost h) : Logs s { s with toHost := h } := by
  obtain ⟨es, trace, other⟩ := apart.trace
  exact .mute rfl trace fun e he => Event.life?_of_other (other e he)

theorem Logs.one {e : Event} (trace : s'.trace = s.trace ++ [e])
    (step : s.roll.Fit → Roll.Step s.roll e s'.roll) : Logs s s' := fun fit =>
  ⟨[e], trace, (step fit).runs⟩

theorem Logs.leave (fewer : s'.roll.alive.Sublist s.roll.alive) (last : s'.lastTask = s.lastTask)
    (trace : s'.trace = s.trace) : Logs s s' := fun _ => by
  refine ⟨[], trace.trans (List.append_nil _).symm, .leave _ fewer ?_⟩
  rw [show s.roll.last = s'.roll.last from last.symm]
  exact .nil _

theorem Logs.foldl {α : Type} {f : Scheduler → α → Scheduler} (each : ∀ s x, Logs s (f s x))
    (xs : List α) (s : Scheduler) : Logs s (xs.foldl f s) := by
  induction xs generalizing s with
  | nil => exact Logs.refl s
  | cons x xs ih => exact (each s x).trans (ih _)

/-! ## What leaves the roll alone -/

theorem note_logs (s : Scheduler) {e : Event} (other : e.life? = none) : Logs s (s.note e) :=
  .mute rfl rfl fun _ he => List.mem_singleton.1 he ▸ other

theorem stats_logs (s : Scheduler) (stats : SchedulerStats) : Logs s { s with stats } :=
  .same rfl rfl

theorem releaseAll_logs (s : Scheduler) (vs : List Value) : Logs s (s.releaseAll vs) :=
  .same rfl rfl

theorem release_logs (s : Scheduler) (v : Value) : Logs s (s.release v) := .same rfl rfl

theorem keep_logs (s : Scheduler) (v : Value) : Logs s (s.onHost (·.keep v)) := .same rfl rfl

theorem releaseInput_logs (s : Scheduler) (input : Input) : Logs s (s.releaseInput input) := by
  cases input with
  | start => exact Logs.refl s
  | resume v => exact s.release_logs v

theorem sendLine_logs (s : Scheduler) (session : SessionId) (line : String) :
    Logs s (s.sendLine session line).2 := .same rfl rfl

theorem withdraw_logs (s : Scheduler) (task : TaskId) : Logs s (s.withdraw task).2 :=
  .same rfl rfl

theorem answer_logs (s : Scheduler) (task : TaskId) (result : TaskAnswer) :
    Logs s (s.answer task result) := by
  unfold answer
  split
  · exact .mute rfl rfl fun _ he => List.mem_singleton.1 he ▸ rfl
  · cases result with
    | ok v => exact .same rfl rfl
    | error f => exact Logs.refl s

theorem updateTask_roll (s : Scheduler) (task : TaskId) (f : Task → Task) :
    (s.updateTask task f).roll = s.roll := by
  rw [roll, updateTask, Named.update_keys]
  rfl

theorem perform_logs (s : Scheduler) (e : Effect) : Logs s (s.perform e).2 := by
  cases e with
  | kill task =>
    simp only [perform]
    split <;> exact .same rfl rfl
  | remark r => exact s.note_logs rfl
  | acquire _ | login _ _ | send _ _ | push _ _ | disconnect _ | waiters | maxThreads
  | setMaxThreads _ | setThreading _ | requestCheckpoint _ | requestShutdown _ | owner _
  | isWizard _ | newId | make _ | tryMake _ | keep _ | release _ | workspace _ | queueStats =>
    exact .same rfl rfl

/-! ## Tasks come and go -/

theorem mem_alive {t : Task} {task : TaskId} (there : s.tasks.get? task = some t) :
    task ∈ s.roll.alive := List.mem_map_of_mem (Named.mem_of_get? there)

theorem erase_alive (fit : s.roll.Fit) (task : TaskId) :
    (s.tasks.erase task).map Prod.fst = s.roll.alive.filter (· ≠ task) := by
  rw [Named.erase_eq_filter fit.distinct, roll, List.filter_map]
  rfl

theorem createTask_logs (s : Scheduler) (player : Obj) (session : Option SessionId) (body : Body)
    (answerable : Bool) : Logs s (s.createTask player session body answerable).2 := by
  refine .one rfl fun fit => ?_
  have fresh : s.lastTask + 1 ∉ s.tasks.map Prod.fst := fun there =>
    absurd (fit.given _ there) (Nat.not_succ_le_self _)
  have roll : (s.createTask player session body answerable).2.roll =
      ⟨s.roll.alive ++ [s.roll.last + 1], s.roll.last + 1⟩ := by
    simp only [Scheduler.roll, createTask, note, onHost, Named.set_of_unused fresh,
      List.map_append, List.map_cons, List.map_nil]
  exact roll ▸ .created s.roll player session

theorem submit_logs (s : Scheduler) (player : Obj) (session : Option SessionId) (body : Body) :
    Logs s (s.submit player session body).2 := by
  unfold submit
  split
  · exact .same rfl rfl
  · exact (s.createTask_logs player session body true).trans (.same rfl rfl)

theorem clearAway_logs (s : Scheduler) (task : TaskId) (t : Task) :
    Logs s (s.clearAway task t) := by
  have marked : Logs s (s.askHost (·.killWaiters task)).2 :=
    .of_host (s.toHost.killWaiters_apart task)
  refine marked.trans ?_
  unfold clearAway
  dsimp only
  generalize (s.askHost (·.killWaiters task)).2 = s'
  refine (s'.withdraw_logs task).trans ((releaseAll_logs _ (s'.withdraw task).1).trans ?_)
  generalize (s'.withdraw task).2.releaseAll (s'.withdraw task).1 = s'
  split
  · exact (s'.stats_logs _).trans ((answer_logs _ task _).trans (releaseAll_logs _ _))
  · exact (s'.stats_logs _).trans (releaseAll_logs _ _)

theorem kill_logs (s : Scheduler) (task : TaskId) : Logs s (s.kill task).2 := by
  rw [kill_eq]
  split
  · exact Logs.refl s
  · rename_i t there
    have killed : Logs s ({ s with tasks := s.tasks.erase task }.note (.killed task t.player)) := by
      refine .one rfl fun fit => ?_
      have step := Roll.Step.killed s.roll task t.player (mem_alive there)
      rw [← erase_alive fit task] at step
      exact step
    exact killed.trans (clearAway_logs _ task t)

theorem killAsked_logs (s : Scheduler) : Logs s s.killAsked := by
  have rested : Logs s { s with asked := [] } := .same rfl rfl
  exact rested.trans (Logs.foldl (fun s task => s.kill_logs task) s.asked _)

theorem killAll_logs (s : Scheduler) (tasks : List TaskId) : Logs s (s.killAll tasks).2 := by
  induction tasks generalizing s with
  | nil => exact Logs.refl s
  | cons task tasks ih =>
    have first := s.kill_logs task
    rw [killAll]
    split
    all_goals
      rename_i killed
      rw [killed] at first
      exact first.trans (ih _)

theorem killMatching_logs (s : Scheduler) (rule : TaskId → String → Verdict) :
    Logs s (s.killMatching rule).2.2 :=
  (Logs.of_host (s.toHost.enumerate_apart rule)).trans (killAll_logs _ _)

theorem tellSession_logs (s : Scheduler) (t : Task) (result : Except String Value) :
    Logs s (s.tellSession t result) := by
  unfold tellSession
  split
  · exact s.sendLine_logs _ _
  · exact Logs.refl s

theorem tellHandle_logs (s : Scheduler) (task : TaskId) (t : Task)
    (result : Except String Value) : Logs s (s.tellHandle task t result) := by
  unfold tellHandle
  split
  · cases result with
    | ok v => exact (s.keep_logs v).trans (answer_logs _ _ _)
    | error message => exact s.answer_logs _ _
  · exact Logs.refl s

theorem complete_logs (s : Scheduler) (task : TaskId) (result : Except String Value) :
    Logs s (s.complete task result) := by
  rw [complete_eq]
  split
  · exact Logs.refl s
  · rename_i t there
    have ended : Logs s ({ s with
        tasks := s.tasks.erase task, stats := countEnd s.stats result }.note
        (.ended task result)) := by
      refine .one rfl fun fit => ?_
      have step := Roll.Step.ended s.roll task result (mem_alive there)
      rw [← erase_alive fit task] at step
      exact step
    exact ended.trans ((tellSession_logs _ t result).trans (tellHandle_logs _ task t result))

theorem finish_logs (s : Scheduler) (task : TaskId) (result : Except String Value) :
    Logs s (s.finish task result).2 :=
  (s.complete_logs task result).trans (killAsked_logs _)

/-! ## Steps -/

theorem takeBody_logs (s : Scheduler) {task : TaskId} (there : task ∈ s.roll.alive)
    (resumed : Option Value) : Logs s (s.takeBody task resumed) := by
  refine .one rfl fun _ => ?_
  have same : (s.takeBody task resumed).roll = s.roll :=
    s.updateTask_roll task fun t => { t with body := none }
  exact same ▸ .stepped s.roll task resumed there

theorem noteDelivery_logs (s : Scheduler) {task : TaskId} (there : task ∈ s.roll.alive)
    (input : Input) : Logs s (s.noteDelivery task input) := by
  cases input with
  | start => exact Logs.refl s
  | resume v => exact .one rfl fun _ => .delivered s.roll task there

theorem pick_logs (s : Scheduler) (task : TaskId) (input : Input) :
    Logs s (s.pick task input).2 := by
  unfold pick
  split
  · exact s.releaseInput_logs input
  · rename_i t there
    split
    · have noted : Logs s (s.note (.reentered task)) :=
        .one rfl fun _ => .reentered s.roll task (mem_alive there)
      exact noted.trans (releaseInput_logs _ input)
    · have alive : task ∈ (s.noteDelivery task input).roll.alive := by
        cases input <;> exact mem_alive there
      exact (s.noteDelivery_logs (mem_alive there) input).trans (takeBody_logs _ alive _)

theorem immediate?_logs (s : Scheduler) (response : Response) :
    Logs s (s.immediate? response).2 := by
  rcases response with _ | _ | _ <;> exact .same rfl rfl

theorem move_logs (caller : Caller) (act : Act) (s : Scheduler) :
    Logs s (act.move caller s).2 := by
  cases act with
  | complete v => exact s.finish_logs caller.task (.ok v)
  | abort message => exact s.finish_logs caller.task (.error message)
  | effect e next => exact s.perform_logs e
  | background envelope callback held next =>
    rw [Act.move]
    dsimp only
    have put : Logs s (s.putBack caller.task held next) := .same (s.updateTask_roll _ _) rfl
    generalize s.putBack caller.task held next = s' at put ⊢
    have asked : Logs s' (s'.askHost (·.suspend caller.task { envelope with callback })).2 :=
      .of_host (s'.toHost.suspend_apart _ _)
    generalize s'.askHost (·.suspend caller.task { envelope with callback }) = answer at asked ⊢
    obtain ⟨response, s'⟩ := answer
    have plain := s'.immediate?_logs response
    refine put.trans (asked.trans (plain.trans ?_))
    generalize s'.immediate? response = answer
    obtain ⟨handle | v, s'⟩ := answer
    · have parked : Logs s' (s'.park caller.task handle) := .same (s'.updateTask_roll _ _) rfl
      exact parked.trans (killAsked_logs _)
    · refine s'.killAsked_logs.trans ?_
      dsimp only
      split
      · rename_i there
        obtain ⟨t, there⟩ := Option.isSome_iff_exists.1 there
        exact takeBody_logs _ (mem_alive there) _
      · exact release_logs _ v

/-! ## Turns of the loop -/

theorem tellAll_logs (s : Scheduler)
    (answers : List (Checkpoint.Ticket × Checkpoint.Verdict)) : Logs s (s.tellAll answers) :=
  Logs.foldl (fun s _ => s.note_logs rfl) answers s

theorem handleMessage_logs (s : Scheduler) (ticket : Checkpoint.Ticket) (m : Message) :
    Logs s (s.handleMessage ticket m) := by
  cases m with
  | submit player session body =>
    have submitted := s.submit_logs player session body
    rw [handleMessage]
    split
    all_goals
      rename_i answer
      rw [answer] at submitted
      exact submitted.trans (note_logs _ rfl)
  | kill task =>
    have killed := s.kill_logs task
    rw [handleMessage]
    split
    all_goals
      rename_i answer
      rw [answer] at killed
      exact killed.trans (note_logs _ rfl)
  | checkpoint =>
    rw [handleMessage]
    split
    · exact s.note_logs rfl
    · exact .same rfl rfl
  | shutdown farewell =>
    have asked : Logs s { s with coordinator := s.coordinator.requestShutdown farewell } :=
      .same rfl rfl
    exact asked.trans (note_logs _ rfl)
  | waiters | queueStats => exact s.note_logs rfl

theorem takeMessage_logs (s : Scheduler) : Logs s s.takeMessage := by
  unfold takeMessage
  split
  · exact Logs.refl s
  · rename_i ticket m rest _
    have taken : Logs s { s with messages := rest } := .same rfl rfl
    exact taken.trans (handleMessage_logs _ ticket m)

theorem discard_logs (s : Scheduler) (v : Value) : Logs s (s.discard v) := .same rfl rfl

theorem handleCompletion_logs (s : Scheduler) (c : Completion) :
    Logs s (s.handleCompletion c) := by
  have taken : Logs s (s.note (.taken c)) := s.note_logs rfl
  refine taken.trans ?_
  unfold handleCompletion
  generalize s.note (.taken c) = s'
  dsimp only
  split
  · exact s'.discard_logs c.result
  · split
    · exact .same (s'.updateTask_roll c.task fun t => { t with waiting := none }) rfl
    · exact (s'.note_logs rfl).trans (discard_logs _ _)

theorem takeCompletion_logs (s : Scheduler) : Logs s s.takeCompletion := by
  unfold takeCompletion
  split
  · exact Logs.refl s
  · rename_i c rest _
    have taken : Logs s { s with channel := rest } := .same rfl rfl
    exact taken.trans (handleCompletion_logs _ c)

theorem checkpoint_logs (s : Scheduler) (reason : Checkpoint.Reason) :
    Logs s (s.checkpoint reason).2 := by
  have written : Logs s (s.writeCheckpoint reason).2 := by
    unfold writeCheckpoint
    split <;> exact .same rfl rfl
  unfold checkpoint
  split
  all_goals
    rename_i answer
    rw [answer] at written
    exact written.trans (stats_logs _ _)

theorem finishCheckpoint_logs (s : Scheduler) (verdict : Checkpoint.Verdict) :
    Logs s (s.finishCheckpoint verdict) := by
  have settled (coordinator : Checkpoint.Coordinator) : Logs s { s.now.2 with coordinator } :=
    .same rfl rfl
  unfold finishCheckpoint
  dsimp only
  split
  · exact (settled _).trans ((tellAll_logs _ _).trans (note_logs _ rfl))
  · exact (settled _).trans (tellAll_logs _ _)

theorem pollCheckpoint_logs (s : Scheduler) : Logs s s.pollCheckpoint := by
  have polled (coordinator : Checkpoint.Coordinator) : Logs s { s.now.2 with coordinator } :=
    .same rfl rfl
  unfold pollCheckpoint
  dsimp only
  split
  · exact polled _
  · exact (polled _).trans ((checkpoint_logs _ _).trans (finishCheckpoint_logs _ _))

theorem prepare_logs (s : Scheduler) (d : Draft) : Logs s (s.prepare d).2 :=
  .of_host (s.toHost.buildAll_apart d.recipes)

theorem startCommand_logs (s : Scheduler) (entry : SessionId × String) :
    Logs s (s.startCommand entry) := by
  unfold startCommand
  dsimp only
  split
  · exact Logs.refl s
  · split
    · exact (s.prepare_logs _).trans ((createTask_logs _ _ _ _ _).trans (.same rfl rfl))
    · exact s.sendLine_logs _ _

end Scheduler

theorem Work.Turn.logs {w w' : Work} (turn : Work.Turn w w') : w.server.Logs w'.server := by
  cases turn with
  | message s => exact s.takeMessage_logs
  | result s => exact s.takeCompletion_logs
  | poll s => exact s.pollCheckpoint_logs
  | values s | takeLines s | takeUp s | sweep s => exact .same rfl rfl
  | destroy s batch v =>
    have told : s.Logs (s.note (.destroyed (v.finalizableId?.getD 0))) := s.note_logs rfl
    exact told.trans (.same rfl rfl)
  | summon s batch v body => exact s.createTask_logs _ _ _ _
  | command s batch entry => exact s.startCommand_logs entry
  | pick s batch id input => exact s.pick_logs id input
  | move s batch caller act => exact s.move_logs caller act

theorem Work.Turns.logs {w w' : Work} (turns : Work.Turns w w') : w.server.Logs w'.server := by
  induction turns with
  | refl => exact .refl _
  | tail _ turn ih => exact ih.trans turn.logs

namespace Scheduler
variable {s s' s'' : Scheduler}

/-! ## Whatever happens -/

theorem restoreLatest_logs (s : Scheduler) : Logs s s.restoreLatest.2 := by
  unfold restoreLatest
  split
  · split
    · exact Logs.refl s
    · exact Logs.refl s
    · dsimp only
      split <;> exact .same rfl rfl
  · exact Logs.refl s

theorem detach_logs (s : Scheduler) (task : TaskId) : Logs s (s.detach task).2 := by
  unfold detach
  repeat' split
  all_goals exact .same rfl rfl

theorem abandon_logs (s : Scheduler) (entry : TaskId × Task) : Logs s (s.abandon entry) := by
  unfold abandon
  dsimp only
  split
  · exact (s.answer_logs _ _).trans (releaseAll_logs _ _)
  · exact s.releaseAll_logs _

theorem abandonAll_logs (s : Scheduler) : Logs s s.abandonAll := by
  have cleared : Logs s { s with tasks := [] } := .leave (List.nil_sublist _) rfl rfl
  exact cleared.trans (Logs.foldl abandon_logs _ _)

theorem clearReady_logs (s : Scheduler) : Logs s s.clearReady := by
  have cleared : Logs s { s with ready := [] } := .same rfl rfl
  exact cleared.trans (Logs.foldl (fun s _ => s.releaseInput_logs _) _ _)

theorem finalCheckpoint_logs (s : Scheduler) : Logs s s.finalCheckpoint.2 := by
  unfold finalCheckpoint
  split
  · exact s.checkpoint_logs .shutdown
  · exact Logs.refl s

theorem failWaiting_logs (s : Scheduler) : Logs s s.failWaiting := by
  have told (coordinator : Checkpoint.Coordinator) : Logs s { s with coordinator } := .same rfl rfl
  exact (told _).trans (tellAll_logs _ _)

theorem conclude_logs (s : Scheduler) (timedOut : Bool) : Logs s (s.conclude timedOut).2 :=
  s.finalCheckpoint_logs.trans <| (failWaiting_logs _).trans <| (abandonAll_logs _).trans <|
    (clearReady_logs _).trans (.same rfl rfl)

theorem carryOut_logs (s : Scheduler) (deed : Deed) : Logs s (deed.carryOut s) := by
  cases deed with
  | submit player session body => exact s.submit_logs player session body
  | kill task => exact s.kill_logs task
  | killMatching rule => exact s.killMatching_logs rule
  | detach task => exact s.detach_logs task
  | restoreLatest => exact s.restoreLatest_logs
  | tick eager => exact (Work.tick_turns s eager).logs
  | phase f => exact (Work.phase_turns s f).logs
  | step handle => exact .of_host (s.toHost.step_apart handle)
  | awaitCheckpoint _ | beginDrain | post _ | line _ _ | setStarter _ | elsewhere _ _ _ =>
    exact .same rfl rfl

end Scheduler

theorem Work.Moment.logs {w w' : Work} (moment : Work.Moment w w') :
    w.server.Logs w'.server := by
  cases moment with
  | turn turn => exact turn.logs
  | deed s batch act deed => exact s.carryOut_logs deed
  | arrive s => exact .same rfl rfl
  | conclude s batch act timedOut => exact s.conclude_logs timedOut

theorem Work.Moments.logs {w w' : Work} (moments : Work.Moments w w') :
    w.server.Logs w'.server := by
  induction moments with
  | refl => exact .refl _
  | tail _ moment ih => exact ih.trans moment.logs

end MooCore
