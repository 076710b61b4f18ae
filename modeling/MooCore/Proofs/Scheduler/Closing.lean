import MooCore.Proofs.Scheduler.Docket
import MooCore.Proofs.Scheduler.Rounds
import MooCore.Proofs.Value.Merging
/-!
# A server that takes on nothing more

Every function that runs while a server is brought to an end changes the docket of the server in the
ways in which a docket may change.
-/

set_option autoImplicit false
namespace MooCore
namespace Scheduler
open Background

/-- What is in work: the turns that are taken up, the task that is being stepped, and whether it has
just been turned down. -/
structure Bench where
  batch : List (TaskId × Input) := []
  free : Option TaskId := none
  down : Bool := false

def docket (s : Scheduler) (b : Bench) : Docket where
  tasks := s.tasks.map fun x => (x.1, x.2.waiting)
  batch := b.batch
  ready := s.ready
  free := b.free
  down := b.down
  table := s.gateway.waiters.map Waiter.task
  channel := s.channel
  made := s.made
  resumed := s.stats.resumedDuringDrain
  accepting := s.gateway.accepting
  draining := s.draining

/-- The docket changes as it may, and what is seen of it is in the trace. -/
def Follows (s : Scheduler) (b : Bench) (s' : Scheduler) (b' : Bench) : Prop :=
  ∃ es, s'.trace = s.trace ++ es ∧ Docket.Runs (s.docket b) es (s'.docket b')

variable {s s' s'' : Scheduler} {b b' b'' : Bench} {task : TaskId}

theorem Follows.trans (first : Follows s b s' b') (second : Follows s' b' s'' b'') :
    Follows s b s'' b'' := by
  obtain ⟨es, trace, runs⟩ := first
  obtain ⟨es', trace', runs'⟩ := second
  exact ⟨es ++ es', by rw [trace', trace, List.append_assoc], runs.trans runs'⟩

theorem Follows.step (es : List Event) (trace : s'.trace = s.trace ++ es)
    (step : Docket.Step (s.docket b) es (s'.docket b')) : Follows s b s' b' :=
  ⟨es, trace, step.runs⟩

theorem Follows.same (docket : s'.docket b = s.docket b) (trace : s'.trace = s.trace) :
    Follows s b s' b :=
  ⟨[], by rw [trace, List.append_nil], docket ▸ .refl _⟩

theorem Follows.refl (s : Scheduler) (b : Bench) : Follows s b s b := .same rfl rfl

theorem Follows.notes (es : List Event) (docket : s'.docket b = s.docket b)
    (trace : s'.trace = s.trace ++ es) (quiet : ∀ e ∈ es, e.isQuiet = true)
    (at_once : b.down = true → ∀ e ∈ es, e.isKilling = true) : Follows s b s' b := by
  exact ⟨es, trace, docket ▸ .notes _ quiet at_once⟩

theorem Follows.foldl {α : Type} {f : Scheduler → α → Scheduler} {P : Scheduler → Prop}
    (each : ∀ s x, P s → Follows s b (f s x) b) (keeps : ∀ s x, P s → P (f s x)) (xs : List α)
    (holds : P s) : Follows s b (xs.foldl f s) b := by
  induction xs generalizing s with
  | nil => exact .refl s b
  | cons x xs ih => exact (each s x holds).trans (ih (keeps s x holds))

/-! ## What the docket does not tell -/

theorem note_follows (s : Scheduler) {e : Event} (quiet : e.isQuiet = true)
    (at_once : b.down = true → e.isKilling = true) : Follows s b (s.note e) b :=
  .notes [e] rfl rfl (fun _ he => List.mem_singleton.1 he ▸ quiet)
    fun down _ he => List.mem_singleton.1 he ▸ at_once down

theorem Event.isQuiet_of_isAside {e : Event} (aside : Event.isAside e = true) :
    e.isQuiet = true := by
  cases e <;> first | rfl | cases aside

theorem aside_follows {h : Host} (aside : Aside s.toHost h) (up : b.down = false) :
    Follows s b { s with toHost := h } b := by
  obtain ⟨es, trace, mute⟩ := aside.trace
  refine .notes es ?_ trace (fun e he => Event.isQuiet_of_isAside (mute e he))
    fun down => absurd (up.symm.trans down) Bool.false_ne_true
  simp only [docket, aside.gateway, aside.channel, aside.made]

theorem releaseAll_follows (s : Scheduler) (vs : List Value) (b : Bench) :
    Follows s b (s.releaseAll vs) b := .same rfl rfl

theorem release_follows (s : Scheduler) (v : Value) (b : Bench) : Follows s b (s.release v) b :=
  .same rfl rfl

theorem stats_follows (s : Scheduler) {stats : SchedulerStats}
    (same : stats.resumedDuringDrain = s.stats.resumedDuringDrain) (b : Bench) :
    Follows s b { s with stats } b :=
  .same (congrArg (fun resumed => { s.docket b with resumed }) same) rfl

theorem releaseInput_follows (s : Scheduler) (input : Input) (b : Bench) :
    Follows s b (s.releaseInput input) b := by
  cases input <;> exact .same rfl rfl

theorem releaseOutcome_follows (s : Scheduler) (outcome : StepOutcome) (b : Bench) :
    Follows s b (s.releaseOutcome outcome) b := by
  rcases outcome with (_ | v) | _ | _ <;> exact .same rfl rfl

theorem answer_follows (s : Scheduler) (task : TaskId) (result : TaskAnswer) (b : Bench) :
    Follows s b (s.answer task result) b := by
  unfold answer
  split
  · exact .notes [.answered task result] rfl rfl
      (fun _ he => List.mem_singleton.1 he ▸ rfl) fun _ _ he => List.mem_singleton.1 he ▸ rfl
  · cases result <;> exact .same rfl rfl

theorem perform_follows (s : Scheduler) (e : Effect) (up : b.down = false) :
    Follows s b (s.perform e).2 b := by
  cases e with
  | kill task =>
    simp only [perform]
    split <;> exact .same rfl rfl
  | remark r =>
    refine s.note_follows rfl fun down => ?_
    rw [up] at down
    cases down
  | acquire _ | login _ _ | send _ _ | push _ _ | disconnect _ | waiters | maxThreads
  | setMaxThreads _ | setThreading _ | requestCheckpoint _ | requestShutdown _ | owner _
  | isWizard _ | newId | make _ | tryMake _ | keep _ | release _ | workspace _ | queueStats =>
    exact .same rfl rfl

/-! ## Kills -/

theorem docket_erase (distinct : (s.tasks.map Prod.fst).Nodup) (task : TaskId) :
    ((s.tasks.erase task).map fun x => (x.1, x.2.waiting)) =
      (s.tasks.map fun x => (x.1, x.2.waiting)).filter (·.1 ≠ task) := by
  rw [Named.erase_eq_filter distinct, List.filter_map]
  rfl

theorem docket_alive : (s.docket b).alive = s.tasks.map Prod.fst := by
  rw [Docket.alive, docket, List.map_map]
  rfl

theorem kill_tasks (s : Scheduler) (task : TaskId) :
    (s.kill task).2.tasks = s.tasks.erase task := by
  unfold kill
  cases found : s.tasks.get? task with
  | none =>
    refine (List.eraseP_of_forall_not fun x hx => ?_).symm
    have other : x.1 ≠ task := fun same =>
      Named.get?_eq_none.1 found (same ▸ List.mem_map_of_mem hx)
    simpa using other
  | some t =>
    dsimp only
    split
    · unfold answer
      repeat' split
      all_goals rfl
    · rfl

theorem erase_distinct (distinct : (s.tasks.map Prod.fst).Nodup) (task : TaskId) :
    ((s.tasks.erase task).map Prod.fst).Nodup :=
  distinct.sublist ((List.eraseP_sublist ..).map _)

theorem strike_follows (distinct : (s.tasks.map Prod.fst).Nodup) (task : TaskId) (player : Obj)
    (there : task ∈ s.tasks.map Prod.fst) (b : Bench) :
    Follows s b ((s.note (.killed task player)).strike task) b := by
  let gone : Scheduler := { s.note (.killed task player) with
    tasks := s.tasks.erase task, ready := s.ready.filter (·.1 ≠ task) }
  have killed : Follows s b gone b := by
    refine .step [.killed task player] rfl ?_
    have same : gone.docket b = (s.docket b).without task :=
      Docket.ext (docket_erase distinct task) rfl rfl rfl rfl rfl rfl rfl rfl rfl rfl
    rw [same]
    exact .killed _ task player (docket_alive ▸ there)
  refine killed.trans (.notes ((s.gateway.waiters.filter (·.task = task)).map fun w =>
    .silenced w.request) ?_ rfl ?_ ?_)
  · have table : (s.gateway.waiters.map fun w =>
        if w.task = task then { w with active := false } else w).map Waiter.task =
        s.gateway.waiters.map Waiter.task := by
      rw [List.map_map]
      refine List.map_congr_left fun w _ => ?_
      rw [Function.comp_apply]
      split <;> rfl
    exact congrArg (fun table => { gone.docket b with table }) table
  all_goals
    intros
    rename_i e he
    obtain ⟨w, -, rfl⟩ := List.mem_map.1 he
    rfl

theorem kill_follows (distinct : (s.tasks.map Prod.fst).Nodup) (task : TaskId) (b : Bench) :
    Follows s b (s.kill task).2 b := by
  unfold kill
  cases found : s.tasks.get? task with
  | none => exact .refl s b
  | some t =>
    have struck := strike_follows distinct task t.player
      (List.mem_map_of_mem (Named.mem_of_get? found)) b
    have told : ∀ s' : Scheduler,
        Follows s' b (if t.answerable then s'.answer task (.error .cancelled) else s') b := by
      intro s'
      split
      · exact s'.answer_follows _ _ b
      · exact .refl s' b
    exact struck.trans ((releaseAll_follows _ _ b).trans ((stats_follows _ (by rfl) b).trans
      ((told _).trans (releaseAll_follows _ _ b))))

theorem killAsked_follows (distinct : (s.tasks.map Prod.fst).Nodup) (b : Bench) :
    Follows s b s.killAsked b := by
  have forgot : Follows s b { s with asked := [] } b := .same rfl rfl
  refine forgot.trans (Follows.foldl (P := fun s => (s.tasks.map Prod.fst).Nodup)
    (fun s task distinct => s.kill_follows distinct task b) (fun s task distinct => ?_) _ distinct)
  rw [kill_tasks]
  exact erase_distinct distinct task

theorem killAsked_keys (distinct : (s.tasks.map Prod.fst).Nodup) (id : TaskId) :
    id ∈ s.killAsked.tasks.map Prod.fst ↔ id ∈ s.tasks.map Prod.fst ∧ id ∉ s.asked := by
  have all : ∀ (victims : List TaskId) (s : Scheduler), (s.tasks.map Prod.fst).Nodup →
      (id ∈ (victims.foldl (fun s task => (s.kill task).2) s).tasks.map Prod.fst ↔
        id ∈ s.tasks.map Prod.fst ∧ id ∉ victims) := by
    intro victims
    induction victims with
    | nil => simp
    | cons task victims ih =>
      intro s distinct
      have left : (s.kill task).2.tasks.map Prod.fst =
          (s.tasks.map Prod.fst).filter (· ≠ task) := by
        rw [kill_tasks, Named.erase_eq_filter distinct, List.filter_map]
        rfl
      rw [List.foldl_cons, ih _ (left ▸ distinct.filter _), left, List.mem_filter, List.mem_cons]
      simp only [ne_eq, decide_eq_true_eq, not_or, and_assoc]
  exact all s.asked { s with asked := [] } distinct

/-! ## Ends of tasks -/

theorem Orderly.on_no_errand {hand : Hand} (orderly : s.Orderly { hand with free := some task }) :
    task ∉ s.gateway.waiters.map Waiter.task ∧ ∀ c ∈ s.channel, c.task ≠ task := by
  obtain ⟨-, -, no_errand⟩ := orderly.roster.own task rfl
  refine ⟨fun mem => ?_, fun c hc => ?_⟩
  · obtain ⟨w, hw, its⟩ := List.mem_map.1 mem
    refine no_errand w.errand (List.mem_append_left _ (List.mem_append_left _ ?_)) its
    exact List.mem_map_of_mem hw
  · refine no_errand c.errand (List.mem_append_left _ (List.mem_append_right _ ?_))
    exact List.mem_map_of_mem hc

theorem tellSession_follows (s : Scheduler) (t : Task) (result : Except String Value) (b : Bench) :
    Follows s b (s.tellSession t result) b := by
  unfold tellSession
  split
  · exact .same rfl rfl
  · exact .refl s b

theorem tellHandle_follows (s : Scheduler) (task : TaskId) (t : Task)
    (result : Except String Value) (b : Bench) : Follows s b (s.tellHandle task t result) b := by
  unfold tellHandle
  split
  · cases result with
    | ok v => exact .trans (.same rfl rfl) (answer_follows _ _ _ _)
    | error message => exact answer_follows _ _ _ _
  · exact .refl s b

theorem complete_follows {hand : Hand} (orderly : s.Orderly { hand with free := some task })
    (result : Except String Value) (batch : List (TaskId × Input)) :
    Follows s { batch, free := some task } (s.complete task result) { batch } := by
  rw [complete_eq]
  cases found : s.tasks.get? task with
  | none => exact .step [] (List.append_nil _).symm (.gone _ task rfl
      (docket_alive ▸ Named.get?_eq_none.1 found))
  | some t =>
    obtain ⟨no_waiter, no_result⟩ := orderly.on_no_errand
    let gone : Scheduler :=
      { s with tasks := s.tasks.erase task, stats := countEnd s.stats result }.note
        (.ended task result)
    have ended : Follows s { batch, free := some task } gone { batch } := by
      refine .step [.ended task result] rfl ?_
      have ready : s.ready.filter (·.1 ≠ task) = s.ready := by
        refine List.filter_eq_self.2 fun x hx => ?_
        have no_turn := (orderly.roster.own task rfl).2.1
        have ne : x.1 ≠ task := fun same =>
          no_turn (List.mem_append_right _ (same ▸ List.mem_map_of_mem hx))
        simpa using ne
      have same : gone.docket { batch } =
          { (s.docket { batch, free := some task }).without task with free := none } := by
        have counted : (countEnd s.stats result).resumedDuringDrain =
            s.stats.resumedDuringDrain := by
          cases result <;> rfl
        exact Docket.ext (docket_erase orderly.roster.distinct task) rfl ready.symm rfl rfl rfl rfl
          rfl counted rfl rfl
      rw [same]
      exact .ended _ task result rfl
        (docket_alive ▸ List.mem_map_of_mem (Named.mem_of_get? found)) rfl no_waiter no_result
    exact ended.trans ((tellSession_follows _ t result _).trans
      (tellHandle_follows _ task t result _))

theorem complete_tasks (s : Scheduler) (task : TaskId) (result : Except String Value) :
    (s.complete task result).tasks = s.tasks ∨
      (s.complete task result).tasks = s.tasks.erase task := by
  unfold complete answer
  cases result <;> dsimp only <;> repeat' split
  all_goals first | exact Or.inl rfl | exact Or.inr rfl

theorem finish_follows {hand : Hand} (orderly : s.Orderly { hand with free := some task })
    (result : Except String Value) (batch : List (TaskId × Input)) :
    Follows s { batch, free := some task } (s.finish task result).2 { batch } := by
  refine (complete_follows orderly result batch).trans (killAsked_follows ?_ _)
  rcases s.complete_tasks task result with same | fewer
  · exact same ▸ orderly.roster.distinct
  · exact fewer ▸ erase_distinct orderly.roster.distinct task

/-! ## Steps of tasks -/

theorem updateTask_keys (s : Scheduler) (task : TaskId) (f : Task → Task) :
    (s.updateTask task f).tasks.map Prod.fst = s.tasks.map Prod.fst :=
  Named.update_keys f

theorem updateTask_docket (s : Scheduler) (task : TaskId) (f : Task → Task)
    (waiting : ∀ t, (f t).waiting = t.waiting) (b : Bench) :
    (s.updateTask task f).docket b = s.docket b := by
  have tasks : (s.tasks.update task f).map (fun x => (x.1, x.2.waiting)) =
      s.tasks.map fun x => (x.1, x.2.waiting) := by
    rw [Named.update, List.map_map]
    refine List.map_congr_left fun x _ => ?_
    rw [Function.comp_apply]
    split
    · rw [waiting]
    · rfl
  exact congrArg (fun tasks => { s.docket b with tasks }) tasks

theorem updateTask_follows (s : Scheduler) (task : TaskId) (f : Task → Task)
    (waiting : ∀ t, (f t).waiting = t.waiting) (b : Bench) :
    Follows s b (s.updateTask task f) b := .same (s.updateTask_docket task f waiting b) rfl

theorem suspend_closed {h : Host} (closed : h.gateway.accepting = false) (task : TaskId)
    (r : Request) :
    h.suspend task r = (.error .shuttingDown,
      ((h.count task r).2.abandon h.made.length r.toEnvelope).note
        (.refused h.made.length .shuttingDown)) := by
  have refused : (h.count task r).2.gateway.admission task = .refused .shuttingDown := by
    rw [Gateway.admission, show (h.count task r).2.gateway.accepting = false from closed]
    rfl
  simp only [Host.suspend, Host.suspendBy, refused]
  rfl

theorem suspend_follows (closed : s.gateway.accepting = false)
    (there : task ∈ s.tasks.map Prod.fst) (r : Request) (batch : List (TaskId × Input)) :
    Follows s { batch, free := some task } { s with toHost := (s.toHost.suspend task r).2 }
      { batch, free := some task, down := true } := by
  rw [suspend_closed closed]
  have aside := (s.toHost.count task r).2.abandon_aside s.made.length r.toEnvelope
  obtain ⟨es, trace, mute⟩ := aside.trace
  refine ⟨es ++ [.refused s.made.length .shuttingDown], ?_, ?_⟩
  · exact (congrArg (· ++ _) trace).trans (List.append_assoc ..)
  · have cleaned : Docket.Runs (s.docket { batch, free := some task }) es
        (s.docket { batch, free := some task }) :=
      .notes _ (fun e he => Event.isQuiet_of_isAside (mute e he)) nofun
    refine cleaned.tail ?_
    have refused := Docket.Step.refused (s.docket { batch, free := some task }) task r rfl
      (docket_alive ▸ there) rfl
    simp only [docket, Host.note, aside.gateway, aside.channel, aside.made]
    exact refused

theorem takeBody_follows (down : b.down = true) (free : b.free = some task)
    (there : task ∈ s.tasks.map Prod.fst) {v : Value}
    (shape : v.shape = Refusal.shuttingDown.errorMap) :
    Follows s b (s.takeBody task (some v)) { b with down := false } := by
  let away := s.updateTask task fun t => { t with body := none }
  have taken : Follows s b away b :=
    s.updateTask_follows task (fun t => { t with body := none }) (fun _ => rfl) b
  have keys : away.tasks.map Prod.fst = s.tasks.map Prod.fst := s.updateTask_keys task _
  have still : task ∈ (away.docket b).alive := (docket_alive.trans keys).symm ▸ there
  exact taken.trans (.step [.stepped task (some v)] rfl
    (.again (away.docket b) task v shape free still down))

/-- A request is turned down and the kills of the step are carried out. Gives what the task is to be
told. -/
def turnDown (s : Scheduler) (task : TaskId) (r : Request) (held : List Value)
    (next : Caller → Input → Act) : Value × Scheduler :=
  let s := s.putBack task held next
  let (v, s) := { s with toHost := (s.toHost.suspend task r).2 }.askHost
    (·.plain Refusal.shuttingDown.errorMap)
  (v, s.killAsked)

theorem turnDown_shape (s : Scheduler) (task : TaskId) (r : Request) (held : List Value)
    (next : Caller → Input → Act) :
    (s.turnDown task r held next).1.shape = Refusal.shuttingDown.errorMap :=
  Heap.plain_errorMap_shape _ _ _

theorem turnDown_follows (closed : s.gateway.accepting = false)
    (distinct : (s.tasks.map Prod.fst).Nodup) (there : task ∈ s.tasks.map Prod.fst) (r : Request)
    (held : List Value) (next : Caller → Input → Act) (batch : List (TaskId × Input)) :
    Follows s { batch, free := some task } (s.turnDown task r held next).2
      { batch, free := some task, down := true } := by
  let away := s.putBack task held next
  have put : Follows s { batch, free := some task } away { batch, free := some task } :=
    s.updateTask_follows task
      (fun t => { t with body := some { description := t.description, held, step := next } })
      (fun _ => rfl) _
  have keys : away.tasks.map Prod.fst = s.tasks.map Prod.fst := s.updateTask_keys task _
  let asked : Scheduler := { away with toHost := (away.toHost.suspend task r).2 }
  have refused : Follows away { batch, free := some task } asked
      { batch, free := some task, down := true } :=
    suspend_follows (s := away) closed (keys ▸ there) r batch
  have told : Follows asked { batch, free := some task, down := true }
      (asked.askHost (·.plain Refusal.shuttingDown.errorMap)).2
      { batch, free := some task, down := true } := .same rfl rfl
  exact put.trans (refused.trans (told.trans (killAsked_follows (keys ▸ distinct) _)))

theorem turnDown_keys (s : Scheduler) (distinct : (s.tasks.map Prod.fst).Nodup) (task : TaskId)
    (r : Request) (held : List Value) (next : Caller → Input → Act) (id : TaskId) :
    id ∈ (s.turnDown task r held next).2.tasks.map Prod.fst ↔
      id ∈ s.tasks.map Prod.fst ∧ id ∉ s.asked := by
  let away := s.putBack task held next
  have keys : away.tasks.map Prod.fst = s.tasks.map Prod.fst := s.updateTask_keys task _
  let asked : Scheduler := { away with toHost := (away.toHost.suspend task r).2 }
  have spared := killAsked_keys (s := (asked.askHost (·.plain Refusal.shuttingDown.errorMap)).2)
    (keys ▸ distinct) id
  exact spared.trans (and_congr_left' (keys ▸ Iff.rfl))

theorem move_closed (closed : s.gateway.accepting = false) (caller : Caller) (envelope : Envelope)
    (callback : Callback) (held : List Value) (next : Caller → Input → Act) :
    (Act.background envelope callback held next).move caller s =
      let (v, s) := s.turnDown caller.task { envelope with callback } held next
      if (s.tasks.get? caller.task).isSome then
        (.inl (next caller (.resume v)), s.takeBody caller.task (some v))
      else (.inr .gone, s.release v) := by
  have refused := congrArg Prod.fst (suspend_closed (h := (s.putBack caller.task held next).toHost)
    closed caller.task { envelope with callback })
  rw [Act.move]
  dsimp only [askHost]
  rw [refused]
  rfl

def benchAfter (task : TaskId) (batch : List (TaskId × Input)) (next : Act ⊕ StepOutcome) : Bench :=
  { batch, free := afterMove task next }

theorem move_follows (hand : Hand) {caller : Caller} (act : Act)
    (orderly : s.Orderly { hand with free := some caller.task })
    (closed : s.gateway.accepting = false) (there : caller.task ∈ s.tasks.map Prod.fst)
    (batch : List (TaskId × Input)) :
    Follows s { batch, free := some caller.task } (act.move caller s).2
      (benchAfter caller.task batch (act.move caller s).1) := by
  cases act with
  | complete v => exact finish_follows orderly (.ok v) batch
  | abort message => exact finish_follows orderly (.error message) batch
  | effect e next => exact s.perform_follows e rfl
  | background envelope callback held next =>
    have turned := turnDown_follows closed orderly.roster.distinct there { envelope with callback }
      held next batch
    have shape := s.turnDown_shape caller.task { envelope with callback } held next
    rw [move_closed closed]
    generalize s.turnDown caller.task { envelope with callback } held next = down at turned shape ⊢
    obtain ⟨v, s'⟩ := down
    refine turned.trans ?_
    dsimp only
    cases found : s'.tasks.get? caller.task with
    | some t =>
      exact takeBody_follows rfl rfl (List.mem_map_of_mem (Named.mem_of_get? found)) shape
    | none =>
      have gone : Follows s' { batch, free := some caller.task, down := true } s' { batch } :=
        .step [] (List.append_nil _).symm
          (.gone _ caller.task rfl (docket_alive ▸ Named.get?_eq_none.1 found))
      exact gone.trans (.same rfl rfl)

/-! ## Turns -/

theorem takeUp_follows (s : Scheduler) :
    Follows s {} { s with ready := [] } { batch := s.ready } :=
  .step [] (List.append_nil _).symm (.takeUp (s.docket {}) rfl)

theorem pick_follows (hand : Hand)
    (orderly : s.Orderly { hand with batch := task :: hand.batch, free := none }) (input : Input)
    (rest : List (TaskId × Input)) :
    Follows s { batch := (task, input) :: rest } (s.pick task input).2
      { batch := rest, free := (s.pick task input).1.map fun x => x.1.task } := by
  unfold pick
  cases found : s.tasks.get? task with
  | none =>
    have skipped : Follows s { batch := (task, input) :: rest } s { batch := rest } :=
      .step [] (List.append_nil _).symm (.skip _ task input rest rfl
        (docket_alive ▸ Named.get?_eq_none.1 found))
    exact skipped.trans (s.releaseInput_follows input _)
  | some t =>
    have mem := Named.mem_of_get? found
    dsimp only
    cases body : t.body with
    | none =>
      have present := (orderly.roster.stands _ mem nofun).body
      simp [body] at present
    | some body =>
      let away := (s.noteDelivery task input).updateTask task fun t => { t with body := none }
      have same : away.docket { batch := (task, input) :: rest } =
          s.docket { batch := (task, input) :: rest } := by
        refine (updateTask_docket _ task (fun t => { t with body := none }) (fun _ => rfl)
          _).trans ?_
        cases input <;> rfl
      have there : task ∈ (away.docket { batch := (task, input) :: rest }).alive := by
        rw [same, docket_alive]
        exact List.mem_map_of_mem mem
      have picked := Docket.Step.pick (away.docket { batch := (task, input) :: rest }) task input
        rest rfl there rfl rfl
      rw [same] at picked
      refine .step (Docket.turnEvents task input) ?_ (same ▸ picked)
      cases input with
      | start => rfl
      | resume v => exact List.append_assoc ..

/-! ## What comes in -/

theorem handleMessage_follows (draining : s.draining = true)
    (distinct : (s.tasks.map Prod.fst).Nodup) (ticket : Checkpoint.Ticket) (m : Message)
    (up : b.down = false) : Follows s b (s.handleMessage ticket m) b := by
  have noted (s : Scheduler) {e : Event} (quiet : e.isQuiet = true) : Follows s b (s.note e) b :=
    s.note_follows quiet fun down => absurd (up.symm.trans down) Bool.false_ne_true
  cases m with
  | submit player session body =>
    have closing : s.isClosing = true := by rw [isClosing, draining, Bool.true_or]
    rw [handleMessage, submit, if_pos closing]
    exact (s.releaseAll_follows body.held b).trans (noted _ rfl)
  | kill task =>
    have killed : Follows s b (s.kill task).2 b := kill_follows distinct task b
    rw [handleMessage]
    split
    all_goals
      rename_i answer
      rw [answer] at killed
      exact killed.trans (noted _ rfl)
  | checkpoint =>
    rw [handleMessage, if_pos draining]
    exact noted s rfl
  | shutdown farewell => exact .trans (.same rfl rfl) (noted _ rfl)
  | waiters | queueStats => exact noted s rfl

theorem takeMessage_follows (draining : s.draining = true)
    (distinct : (s.tasks.map Prod.fst).Nodup) (up : b.down = false) :
    Follows s b s.takeMessage b := by
  unfold takeMessage
  cases messages : s.messages with
  | nil => exact .refl s b
  | cons first rest =>
    have taken : Follows s b { s with messages := rest } b := .same rfl rfl
    exact taken.trans (handleMessage_follows (s := { s with messages := rest }) draining distinct
      first.1 first.2 up)

theorem takeCompletion_follows {hand : Hand} (draining : s.draining = true)
    (orderly : s.Orderly hand) (up : b.down = false) : Follows s b s.takeCompletion b := by
  unfold takeCompletion
  cases channel : s.channel with
  | nil => exact .refl s b
  | cons c rest =>
    dsimp only
    unfold handleCompletion
    dsimp only
    cases found : s.tasks.get? c.task with
    | none =>
      have late := Docket.Step.late (s.docket b) c rest channel
        (docket_alive ▸ Named.get?_eq_none.1 found) up
      simp only [onHost, note, found]
      exact .step [.taken c] rfl late
    | some t =>
      have mem := Named.mem_of_get? found
      have roster := (orderly.receive [c] channel).roster.perm (List.Perm.refl _) List.perm_middle
      have waits : t.waiting = some c.handle := (roster.meet mem).1
      have home := Docket.Step.home (s.docket b) c rest channel
        (List.mem_map.2 ⟨_, mem, by rw [waits]⟩) up draining
      have tasks : (s.tasks.update c.task fun t => { t with waiting := none }).map
          (fun x => (x.1, x.2.waiting)) =
          (s.tasks.map fun x => (x.1, x.2.waiting)).map
            fun x => if x.1 = c.task then (x.1, none) else x := by
        rw [Named.update, List.map_map, List.map_map]
        refine List.map_congr_left fun x _ => ?_
        rw [Function.comp_apply, Function.comp_apply]
        split <;> rfl
      have counted : (s.stats.resumedDuringDrain + if s.draining then 1 else 0) =
          s.stats.resumedDuringDrain + 1 := by
        rw [draining]
        rfl
      simp only [onHost, note, found, if_pos waits]
      exact .step [.taken c] rfl
        (home.to (Docket.ext tasks rfl rfl rfl rfl rfl rfl rfl counted rfl rfl))

/-! ## Workers -/

theorem jobs_follows (s : Scheduler) (jobs : List Job) (b : Bench) :
    Follows s b (s.onHost fun h => { h with jobs }) b := .same rfl rfl

theorem dropExtra_follows (s : Scheduler) (extra : Option Extra) (b : Bench) :
    Follows s b (s.onHost (·.dropExtra extra)) b := by
  rcases extra with _ | _ | _ <;> exact .same rfl rfl

/-- A waiter leaves the table, and its result goes into the channel if the task is there. -/
theorem retire_follows {w : Waiter} (found : s.gateway.waiter? w.handle = some w)
    (listening : s.listening = true) (wanted : w.active = true ∨ w.task ∉ s.tasks.map Prod.fst)
    (n : Nat) (v : Value) (extra : Option Extra) (up : b.down = false) :
    Follows s b (s.onHost (·.retire n w.handle w.task v extra)) b := by
  have hw : w ∈ s.gateway.waiters := List.mem_of_find?_eq_some found
  have known : w.task ∈ s.gateway.waiters.map Waiter.task := List.mem_map_of_mem hw
  have fewer : (s.gateway.remove w.handle).waiters.map Waiter.task ⊆
      s.gateway.waiters.map Waiter.task := (List.filter_sublist.map _).subset
  change Follows s b { s with toHost := s.toHost.retire n w.handle w.task v extra } b
  simp only [Host.retire, found]
  cases active : w.active with
  | false =>
    have gone := wanted.resolve_left (by simp [active])
    have thrown : Follows s b (s.note (.discarded n w.handle w.task)) b :=
      .step _ rfl (.unwanted (s.docket b) n w.handle w.task known (docket_alive ▸ gone) up)
    have left : Follows (s.note (.discarded n w.handle w.task)) b
        (s.onHost (·.leave w.handle (·.note (.discarded n w.handle w.task)))) b :=
      .step [] (List.append_nil _).symm (.leave (s.docket b) _ fewer)
    rw [if_pos (by simp)]
    exact thrown.trans (left.trans (.trans (release_follows _ v b) (dropExtra_follows _ extra b)))
  | true =>
    let c : Completion := { handle := w.handle, task := w.task, result := v }
    let told : Scheduler :=
      (s.onHost fun h => { h with channel := h.channel ++ [c] }).note (.sent n c)
    have sent : Follows s b told b := .step _ rfl (.sent (s.docket b) n c known up)
    have left : Follows told b (s.onHost (·.leave w.handle fun h =>
        { h with channel := h.channel ++ [c] }.note (.sent n c))) b :=
      .step [] (List.append_nil _).symm (.leave (told.docket b) _ fewer)
    rw [if_neg (by simp), if_neg (by simp [listening])]
    exact sent.trans (left.trans (dropExtra_follows _ extra b))

theorem step_follows (hand : Hand) (orderly : s.Orderly { hand with condemned := [] })
    (handle : Handle) (up : b.down = false) : Follows s b (s.onHost (·.step handle)) b := by
  change Follows s b { s with toHost := s.toHost.step handle } b
  cases found : s.job? handle with
  | none =>
    rw [Host.step, found]
    exact .refl s b
  | some j =>
    have hj : j ∈ s.jobs := List.mem_of_find?_eq_some found
    obtain ⟨rfl, -⟩ := Host.job?_split found
    rw [Host.step, found]
    dsimp only
    cases stage : j.stage with
    | ready r =>
      have work := (orderly.calm.jobs j hj r stage).work_aside s.toHost (some j.handle)
      dsimp only
      generalize s.toHost.work (Host.call r.callback) (some j.handle) r = done at work
      obtain ⟨v, h⟩ := done
      let worked : Scheduler := { s with toHost := h }
      have noted : Follows worked b (worked.note (.returned j.request v)) b :=
        worked.note_follows rfl fun down => absurd (up.symm.trans down) Bool.false_ne_true
      exact (aside_follows work up).trans (noted.trans (jobs_follows _ _ b))
    | returned v extra cleanup =>
      have cleaned := s.toHost.cleanUp_aside j.request extra cleanup
      exact (aside_follows cleaned up).trans (jobs_follows _ _ b)
    | cleaned v extra =>
      obtain ⟨w, hw, handle, task⟩ := orderly.kept.waiter_of_job hj
      let forgot : Scheduler := s.onHost (·.forget j.handle)
      have there := Gateway.waiter?_of_mem orderly.kept.books.numbered.distinct hw
      have wanted : w.active = true ∨ w.task ∉ s.tasks.map Prod.fst :=
        (orderly.wanted w hw).imp_right fun rest => rest.resolve_right List.not_mem_nil
      have retired :=
        retire_follows (s := forgot) there orderly.listening wanted j.request v extra up
      rw [handle, task] at retired
      exact (jobs_follows s _ b).trans retired

end Scheduler
end MooCore
