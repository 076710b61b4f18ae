import MooCore.Proofs.Background.Fate
/-!
# Requests under way at once

Threads take turns at any point, also while a callback is at work or while a request is being
checked. Here each request goes its way in small steps, between which the others go theirs, tasks
are killed and limits change. What is done in one go when a request is made, or when a thread is
taken a step further, is one of the ways through these small steps.
-/

set_option autoImplicit false
namespace MooCore.Background

/-- Where a request is on its way. -/
inductive Place where
  /-- nothing has been checked -/
  | asked (r : Request)
  /-- requests are accepted -/
  | admitted (r : Request)
  /-- threading is on, and the table is next -/
  | queued (r : Request)
  | turned (r : Request) (why : Refusal)
  /-- there is a waiter, and the thread is to be started -/
  | enrolled (handle : Handle) (r : Request)
  /-- there is a waiter but no thread, and the job is gone -/
  | stranded (handle : Handle) (why : Refusal)
  /-- the job is gone, and its task is to be told why -/
  | abandoned (why : Refusal)
  | ready (handle : Handle) (r : Request)
  /-- the callback is at work, on its thread or on the spot -/
  | working (handle : Option Handle) (r : Request)
  | returned (handle : Option Handle) (result : Value) (extra : Option Extra)
      (cleanup : Option Cleanup)
  | cleaned (handle : Option Handle) (result : Value) (extra : Option Extra)

/-- The next step of a request, after which it may be over. A starter of threads takes the job or
loses it; a callback comes to any end, and what it does before is done by other steps. -/
inductive Place.Step (n : Nat) (task : TaskId) : Host → Place → Host → Option Place → Prop
  | shut {h : Host} {r : Request} (shut : h.gateway.accepting = false) :
      Step n task h (.asked r) h (some (.turned r .shuttingDown))
  | admitted {h : Host} {r : Request} (accepting : h.gateway.accepting = true) :
      Step n task h (.asked r) h (some (.admitted r))
  | inline {h : Host} {r : Request} (off : h.gateway.threading = false) :
      Step n task h (.admitted r) h (some (.working none r))
  | queued {h : Host} {r : Request} (on : h.gateway.threading = true) :
      Step n task h (.admitted r) h (some (.queued r))
  | turned {h : Host} {r : Request} {why : Refusal} (full : h.gateway.objection task = some why) :
      Step n task h (.queued r) h (some (.turned r why))
  | enrolled {h : Host} {r : Request} (room : h.gateway.objection task = none) :
      Step n task h (.queued r) (h.enter n task r.title).2
        (some (.enrolled (h.enter n task r.title).1 r))
  | abandoned {h : Host} {r : Request} {why : Refusal} :
      Step n task h (.turned r why) (h.abandon n r.toEnvelope) (some (.abandoned why))
  | refused {h : Host} {why : Refusal} :
      Step n task h (.abandoned why) (h.note (.refused n why)) none
  | started {h : Host} {handle : Handle} {r : Request} :
      Step n task h (.enrolled handle r) (h.note (.accepted n handle task))
        (some (.ready handle r))
  | failed {h : Host} {handle : Handle} {r : Request} (message : String) :
      Step n task h (.enrolled handle r) (h.abandon n r.toEnvelope)
        (some (.stranded handle (.spawnFailed message)))
  | withdrawn {h : Host} {handle : Handle} {why : Refusal} :
      Step n task h (.stranded handle why) (h.leave handle id) (some (.abandoned why))
  | begun {h : Host} {handle : Handle} {r : Request} :
      Step n task h (.ready handle r) h (some (.working (some handle) r))
  | returned {h : Host} {handle : Option Handle} {r : Request} (ending : Host.Ending) :
      Step n task h (.working handle r)
        ((h.result ending).2.note (.returned n (h.result ending).1))
        (some (.returned handle (h.result ending).1 r.extra r.cleanup))
  | cleaned {h : Host} {handle : Option Handle} {v : Value} {extra : Option Extra}
      {cleanup : Option Cleanup} :
      Step n task h (.returned handle v extra cleanup) (h.cleanUp n extra cleanup).2
        (some (.cleaned handle v (h.cleanUp n extra cleanup).1))
  | immediate {h : Host} {v : Value} {extra : Option Extra} :
      Step n task h (.cleaned none v extra) ((h.dropExtra extra).note (.immediate n v)) none
  | retired {h : Host} {handle : Handle} {v : Value} {extra : Option Extra} :
      Step n task h (.cleaned (some handle) v extra) (h.retire n handle task v extra) none

/-- A request that is not over. -/
structure Passage where
  request : Nat
  task : TaskId
  place : Place

/-- A host with the requests that are not over; their order means nothing. -/
structure Traffic where
  host : Host
  passages : List Passage

/-- What happens next: a request is made or takes its next step, waiters are marked, a routine
leaves a note, or whatever else the table does not keep is changed, limits, values and sessions
among it. -/
inductive Traffic.Step : Traffic → Traffic → Prop
  | ask (s : Traffic) (task : TaskId) (r : Request) :
      Step s ⟨(s.host.count task r).2,
        { request := (s.host.count task r).1, task, place := .asked r } :: s.passages⟩
  | go {h h' : Host} {n : Nat} {task : TaskId} {place : Place} {next : Option Place}
      (step : place.Step n task h h' next) (ps : List Passage) :
      Step ⟨h, { request := n, task, place } :: ps⟩
        ⟨h', (next.map fun place => { request := n, task, place }).toList ++ ps⟩
  | order {h : Host} {ps ps' : List Passage} (same : ps.Perm ps') : Step ⟨h, ps⟩ ⟨h, ps'⟩
  | kill (s : Traffic) (task : TaskId) : Step s { s with host := (s.host.killWaiters task).2 }
  | enumerate (s : Traffic) (rule : TaskId → String → Verdict) :
      Step s { s with host := (s.host.enumerate rule).2 }
  | remark (s : Traffic) (r : Remark) : Step s { s with host := s.host.note (.remark r) }
  | elsewhere (h h' : Host) (waiters : h'.gateway.waiters = h.gateway.waiters)
      (next : h'.gateway.next = h.gateway.next) (streak : h'.gateway.streak = h.gateway.streak)
      (longest : h'.gateway.longest = h.gateway.longest) (made : h'.made = h.made)
      (trace : h'.trace = h.trace) (locked : h'.locked = h.locked) (ps : List Passage) :
      Step ⟨h, ps⟩ ⟨h', ps⟩

abbrev Traffic.Runs : Traffic → Traffic → Prop := Relation.ReflTransGen Traffic.Step

def Stage.place (handle : Handle) : Stage → Place
  | .ready r => .ready handle r
  | .returned v extra cleanup => .returned (some handle) v extra cleanup
  | .cleaned v extra => .cleaned (some handle) v extra

/-- A job whose thread has been started. -/
def Job.passage (j : Job) : Passage :=
  { request := j.request, task := j.task, place := j.stage.place j.handle }

/-- Everything under way when nothing is in the middle of a step. -/
def Host.traffic (h : Host) : Traffic := ⟨h, h.jobs.map Job.passage⟩

/-! ## Ways of one request -/

variable {n : Nat} {task : TaskId} {h h' : Host} {place place' : Place} {r : Request}

theorem Place.Step.on (step : place.Step n task h h' (some place')) (ps : List Passage) :
    Traffic.Runs ⟨h, { request := n, task, place } :: ps⟩
      ⟨h', { request := n, task, place := place' } :: ps⟩ :=
  .single (.go step ps)

theorem Place.Step.off (step : place.Step n task h h' none) (ps : List Passage) :
    Traffic.Runs ⟨h, { request := n, task, place } :: ps⟩ ⟨h', ps⟩ :=
  .single (.go step ps)

theorem Traffic.runs_same (h h' : Host) (ps : List Passage) (gateway : h'.gateway = h.gateway)
    (made : h'.made = h.made) (trace : h'.trace = h.trace) (locked : h'.locked = h.locked) :
    Traffic.Runs ⟨h, ps⟩ ⟨h', ps⟩ :=
  .single (.elsewhere h h' (by rw [gateway]) (by rw [gateway]) (by rw [gateway]) (by rw [gateway])
    made trace locked ps)

def Host.Goes (h h' : Host) : Prop :=
  ∃ more : List Job, h'.jobs = h.jobs ++ more ∧
    ∀ ps, Traffic.Runs ⟨h, ps⟩ ⟨h', ps ++ more.map Job.passage⟩

namespace Host

theorem Goes.of_runs (jobs : h'.jobs = h.jobs) (runs : ∀ ps, Traffic.Runs ⟨h, ps⟩ ⟨h', ps⟩) :
    Goes h h' :=
  ⟨[], by rw [jobs, List.append_nil], fun ps => by simpa using runs ps⟩

theorem Goes.refl (h : Host) : Goes h h := .of_runs rfl fun _ => .refl

theorem Goes.trans {h'' : Host} (first : Goes h h') (second : Goes h' h'') : Goes h h'' := by
  obtain ⟨more, jobs, runs⟩ := first
  obtain ⟨more', jobs', runs'⟩ := second
  refine ⟨more ++ more', by rw [jobs', jobs, List.append_assoc], fun ps => ?_⟩
  have last := runs' (ps ++ more.map Job.passage)
  rw [List.append_assoc, ← List.map_append] at last
  exact (runs ps).trans last

theorem Goes.same (gateway : h'.gateway = h.gateway) (made : h'.made = h.made)
    (trace : h'.trace = h.trace) (locked : h'.locked = h.locked) (jobs : h'.jobs = h.jobs) :
    Goes h h' :=
  .of_runs jobs fun ps => Traffic.runs_same h h' ps gateway made trace locked

theorem answer_goes (h : Host) (ctx : Context) (q : Query) : Goes h (h.answer ctx q).2 := by
  cases q with
  | kill task => exact .of_runs rfl fun ps => .single (.kill ⟨h, ps⟩ task)
  | noSession _ | report _ => exact .of_runs rfl fun ps => .single (.remark ⟨h, ps⟩ _)
  | peerName => rcases ctx with ⟨_, _ | _ | _⟩ <;> exact Goes.refl h
  | extra =>
    rcases ctx with ⟨_, _ | _ | _⟩
    · exact Goes.refl h
    · exact .same rfl rfl rfl rfl rfl
    · exact Goes.refl h
  | isActive => exact Goes.refl h
  | make _ _ | list _ | release _ | acquire _ => exact .same rfl rfl rfl rfl rfl

/-! ## Requests made in one go -/

theorem refuse_runs (h : Host) (n : Nat) (task : TaskId) (r : Request) (why : Refusal)
    (ps : List Passage) :
    Traffic.Runs ⟨h, { request := n, task, place := .turned r why } :: ps⟩
      ⟨(h.refuse n r.toEnvelope why).2, ps⟩ :=
  (Place.Step.abandoned.on ps).trans (Place.Step.refused.off ps)

variable (calm : ∀ handle h, Goes h (call r.callback r.extra handle r.argument h).2)

include calm in
theorem work_runs (h : Host) (n : Nat) (task : TaskId) (handle : Option Handle) :
    let done := h.work (call r.callback) handle r
    ∃ more : List Job, done.2.jobs = h.jobs ++ more ∧ ∀ ps,
      Traffic.Runs ⟨h, { request := n, task, place := .working handle r } :: ps⟩
        ⟨done.2.note (.returned n done.1),
          { request := n, task, place := .returned handle done.1 r.extra r.cleanup } ::
            (ps ++ more.map Job.passage)⟩ := by
  obtain ⟨more, jobs, runs⟩ := calm handle h
  refine ⟨more, (result_aside _ _).jobs.trans jobs, fun ps => ?_⟩
  exact (runs _).trans ((Place.Step.returned _).on _)

include calm in
theorem runInline_goes (h : Host) (n : Nat) (task : TaskId) :
    let after := (h.runInline (call r.callback) n r).2
    ∃ more : List Job, after.jobs = h.jobs ++ more ∧ ∀ ps,
      Traffic.Runs ⟨h, { request := n, task, place := .working none r } :: ps⟩
        ⟨after, ps ++ more.map Job.passage⟩ := by
  obtain ⟨more, jobs, runs⟩ := work_runs calm h n task none
  refine ⟨more, ?_, fun ps => ?_⟩
  · refine ((cleanUp_aside _ _ _ _).trans (dropExtra_aside _ _)).jobs.trans jobs
  · exact (runs ps).trans ((Place.Step.cleaned.on _).trans (Place.Step.immediate.off _))

include calm in
theorem runAtOnce_goes (h : Host) (n : Nat) (handle : Handle) (task : TaskId) :
    let after := h.runAtOnce (call r.callback) n handle task r
    ∃ more : List Job, after.jobs = h.jobs ++ more ∧ ∀ ps,
      Traffic.Runs ⟨h, { request := n, task, place := .ready handle r } :: ps⟩
        ⟨after, ps ++ more.map Job.passage⟩ := by
  obtain ⟨more, jobs, runs⟩ := work_runs calm h n task (some handle)
  refine ⟨more, ?_, fun ps => ?_⟩
  · exact (retire_jobs _ _ _ _ _ _).trans ((cleanUp_aside _ _ _ _).jobs.trans jobs)
  · exact (Place.Step.begun.on ps).trans <| (runs ps).trans <|
      (Place.Step.cleaned.on _).trans (Place.Step.retired.off _)

include calm in
theorem launch_goes (h : Host) (n : Nat) (handle : Handle) (task : TaskId) :
    let after := (h.launch (call r.callback) n handle task r).2
    ∃ more : List Job, after.jobs = h.jobs ++ more ∧ ∀ ps,
      Traffic.Runs ⟨h, { request := n, task, place := .enrolled handle r } :: ps⟩
        ⟨after, ps ++ more.map Job.passage⟩ := by
  unfold launch
  split
  · let job : Job := { handle, request := n, task, stage := .ready r }
    let after := { h with jobs := h.jobs ++ [job] }.note (.accepted n handle task)
    refine ⟨[job], rfl, fun ps => ?_⟩
    have moved : Traffic.Runs ⟨h.note (.accepted n handle task), job.passage :: ps⟩
        ⟨h.note (.accepted n handle task), ps ++ [job.passage]⟩ :=
      .single (.order (List.perm_append_singleton _ _).symm)
    have posted := Traffic.runs_same (h.note (.accepted n handle task)) after (ps ++ [job.passage])
      rfl rfl rfl rfl
    exact (Place.Step.started.on ps).trans (moved.trans posted)
  · obtain ⟨more, jobs, runs⟩ := runAtOnce_goes calm (h.note (.accepted n handle task)) n handle task
    exact ⟨more, jobs, fun ps => (Place.Step.started.on ps).trans (runs ps)⟩
  · rename_i message _
    refine ⟨[], ?_, fun ps => ?_⟩
    · rw [List.append_nil]
      exact (abandon_aside h n r.toEnvelope).jobs
    · rw [List.map_nil, List.append_nil]
      exact ((Place.Step.failed message).on ps).trans
        ((Place.Step.withdrawn.on ps).trans (Place.Step.refused.off ps))

theorem admission_runs (h : Host) (n : Nat) (task : TaskId) (r : Request) (ps : List Passage) :
    Traffic.Runs ⟨h, { request := n, task, place := .asked r } :: ps⟩
      (match h.gateway.admission task with
        | .refused why => ⟨h, { request := n, task, place := .turned r why } :: ps⟩
        | .inline => ⟨h, { request := n, task, place := .working none r } :: ps⟩
        | .thread =>
          let (handle, h) := h.enter n task r.title
          ⟨h, { request := n, task, place := .enrolled handle r } :: ps⟩) := by
  unfold Gateway.admission
  cases accepting : h.gateway.accepting with
  | false => exact (Place.Step.shut accepting).on ps
  | true =>
    refine ((Place.Step.admitted accepting).on ps).trans ?_
    cases threading : h.gateway.threading with
    | false => exact (Place.Step.inline threading).on ps
    | true =>
      refine ((Place.Step.queued threading).on ps).trans ?_
      cases objection : h.gateway.objection task with
      | some why => exact (Place.Step.turned objection).on ps
      | none => exact (Place.Step.enrolled objection).on ps

include calm in
theorem suspend_goes_of_calm (h : Host) (task : TaskId) : Goes h (h.suspend task r).2 := by
  have asked : ∀ ps, Traffic.Runs ⟨h, ps⟩
      ⟨(h.count task r).2, { request := h.made.length, task, place := .asked r } :: ps⟩ :=
    fun ps => .single (.ask ⟨h, ps⟩ task r)
  have checked := fun ps =>
    (asked ps).trans (admission_runs (h.count task r).2 h.made.length task r ps)
  unfold suspend suspendBy
  dsimp only
  generalize (h.count task r).2.gateway.admission task = admission at checked
  cases admission with
  | refused why =>
    exact .of_runs (abandon_aside _ _ _).jobs fun ps =>
      (checked ps).trans (refuse_runs _ _ _ _ _ _)
  | inline =>
    obtain ⟨more, jobs, runs⟩ := runInline_goes calm (h.count task r).2 h.made.length task
    exact ⟨more, jobs, fun ps => (checked ps).trans (runs ps)⟩
  | thread =>
    let entered := (h.count task r).2.enter h.made.length task r.title
    obtain ⟨more, jobs, runs⟩ := launch_goes calm entered.2 h.made.length entered.1 task
    exact ⟨more, jobs, fun ps => (checked ps).trans (runs ps)⟩

end Host

theorem Routine.run_goes (ctx : Host.Context) (routine : Routine) (h : Host) :
    Host.Goes h (routine.run ctx h).2 := by
  induction routine generalizing ctx h with
  | finish v => exact Host.Goes.refl h
  | crash message => exact Host.Goes.refl h
  | ask q next ih => exact (h.answer_goes ctx q).trans (ih _ ctx _)
  | suspend task envelope body next inside ih =>
    have request : Host.Goes h (h.suspend task { envelope with callback := body }).2 :=
      Host.suspend_goes_of_calm (r := { envelope with callback := body })
        (fun handle h => inside handle envelope.argument _ h) h task
    exact request.trans (ih _ ctx _)

namespace Host

theorem call_goes (callback : Callback) (extra : Option Extra) (handle : Option Handle) (v : Value)
    (h : Host) : Goes h (call callback extra handle v h).2 :=
  (callback handle v).run_goes _ h

theorem suspend_goes (h : Host) (task : TaskId) (r : Request) : Goes h (h.suspend task r).2 :=
  suspend_goes_of_calm (fun handle h => call_goes _ _ handle _ h) h task

/-! ## Threads taken a step further -/

theorem Goes.traffic (goes : Goes h h') : Traffic.Runs h.traffic h'.traffic := by
  obtain ⟨more, jobs, runs⟩ := goes
  have last := runs (h.jobs.map Job.passage)
  rwa [← List.map_append, ← jobs] at last

theorem advance_runs {before after : List Job} {j : Job} (split : h.jobs = before ++ j :: after)
    (none_before : ∀ a ∈ before, a.handle ≠ j.handle) (stage : Stage) :
    Traffic.Runs
      ⟨h, { j with stage : Job }.passage :: (before ++ after).map Job.passage⟩
      (h.advance j.handle stage).traffic := by
  rw [advance_eq split none_before]
  refine (Traffic.runs_same h { h with jobs := before ++ { j with stage } :: after } _ rfl rfl rfl
    rfl).trans ?_
  exact .single (.order (List.perm_middle.map Job.passage).symm)

theorem step_runs (h : Host) (handle : Handle) : Traffic.Runs h.traffic (h.step handle).traffic := by
  unfold step
  cases found : h.job? handle with
  | none => exact .refl
  | some j =>
    obtain ⟨rfl, before, after, split, none_before⟩ := job?_split found
    have picked : Traffic.Runs h.traffic ⟨h, j.passage :: (before ++ after).map Job.passage⟩ := by
      rw [traffic, split]
      exact .single (.order (List.perm_middle.map Job.passage))
    refine picked.trans ?_
    obtain ⟨handle, n, task, stage⟩ := j
    dsimp only at split none_before ⊢
    cases stage with
    | ready r =>
      let done := h.work (call r.callback) (some handle) r
      obtain ⟨more, jobs, runs⟩ := work_runs
        (fun handle h => call_goes r.callback r.extra handle _ h) h n task (some handle)
      rw [split, List.append_assoc, List.cons_append] at jobs
      have worked := (Place.Step.begun.on ((before ++ after).map Job.passage)).trans (runs _)
      rw [← List.map_append, List.append_assoc] at worked
      exact worked.trans (advance_runs (h := done.2.note (.returned n done.1)) jobs none_before
        (.returned done.1 r.extra r.cleanup))
    | returned v extra cleanup =>
      have jobs := (h.cleanUp_aside n extra cleanup).jobs.trans split
      exact (Place.Step.cleaned.on _).trans
        (advance_runs jobs none_before (.cleaned v (h.cleanUp n extra cleanup).1))
    | cleaned v extra =>
      refine (Traffic.runs_same h (h.forget handle) _ rfl rfl rfl rfl).trans ?_
      refine (Place.Step.retired.off _).trans ?_
      rw [forget_eq split none_before, traffic, retire_jobs]

end Host

theorem Move.carryOut_runs (h : Host) (move : Move) :
    Traffic.Runs h.traffic (move.carryOut h).traffic := by
  cases move with
  | suspend task r => exact (h.suspend_goes task r).traffic
  | step handle => exact h.step_runs handle
  | kill task => exact .single (.kill h.traffic task)
  | enumerate rule => exact .single (.enumerate h.traffic rule)
  | setMax _ | setThreading _ | stopAccepting | receive | stopListening | setStarter _
  | elsewhere _ _ _ =>
    exact .single (.elsewhere h (Move.carryOut h _) rfl rfl rfl rfl rfl rfl rfl _)

theorem Host.carryOut_runs (h : Host) (moves : List Move) :
    Traffic.Runs h.traffic (h.carryOut moves).traffic := by
  induction moves generalizing h with
  | nil => exact .refl
  | cons move moves ih => exact (move.carryOut_runs h).trans (ih _)

end MooCore.Background
