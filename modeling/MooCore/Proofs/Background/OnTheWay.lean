import MooCore.Proofs.Background.Fate
/-!
# What is on its way to a task

From the moment in which a thread is started for a task until its result is taken in, a job or a
result is on its way to the task. Nothing comes on the way but by a request in the name of the task,
whatever other background work is done, and what a job gives does not depend on when its steps are
taken.
-/

set_option autoImplicit false
namespace MooCore.Background

/-- The number of the requests that were made in the name of a task. -/
def Host.requests (h : Host) (id : TaskId) : Nat := h.made.countP (·.1 = id)

def Host.onTheWay (h : Host) (id : TaskId) : Nat :=
  h.jobs.countP (·.task = id) + h.channel.countP (·.task = id)

/-- Whenever the request is worked on, and wherever, its result is of this kind. -/
def Request.Gives (r : Request) (p : Value → Prop) : Prop :=
  ∀ (h : Host) handle, p (h.work (Host.call r.callback) handle r).1

def Stage.Gives (p : Value → Prop) : Stage → Prop
  | .ready r => r.Gives p
  | .returned v _ _ | .cleaned v _ => p v

/-- What is on its way to a task is of this kind. -/
structure Host.Brings (h : Host) (id : TaskId) (p : Value → Prop) : Prop where
  jobs : ∀ j ∈ h.jobs, j.task = id → j.stage.Gives p
  channel : ∀ c ∈ h.channel, c.task = id → p c.result

/-- Nothing comes on the way to a task unless a request is made in its name, and what is on its way
stays what it is. -/
structure Host.Minds (id : TaskId) (h h' : Host) : Prop where
  made : h.made <+: h'.made
  way : h'.requests id = h.requests id →
    h'.onTheWay id ≤ h.onTheWay id ∧ ∀ p, h.Brings id p → h'.Brings id p

variable {h h' h'' : Host} {id task : TaskId} {r : Request} {p : Value → Prop}

namespace Host

theorem requests_le (made : h.made <+: h'.made) (id : TaskId) : h.requests id ≤ h'.requests id :=
  made.sublist.countP_le

theorem requests_same (made : h'.made = h.made) (id : TaskId) : h'.requests id = h.requests id := by
  rw [requests, made, requests]

theorem Minds.trans (first : Minds id h h') (second : Minds id h' h'') : Minds id h h'' where
  made := first.made.trans second.made
  way := fun unasked => by
    have le := requests_le first.made id
    have le' := requests_le second.made id
    obtain ⟨fewer, brings⟩ := first.way (by omega)
    obtain ⟨fewer', brings'⟩ := second.way (by omega)
    exact ⟨fewer'.trans fewer, fun p before => brings' p (brings p before)⟩

theorem Minds.fewer (made : h'.made = h.made) (jobs : h'.jobs = h.jobs)
    (channel : h'.channel.Sublist h.channel) : Minds id h h' where
  made := made ▸ List.prefix_refl _
  way := fun _ => ⟨by rw [onTheWay, onTheWay, jobs]; exact Nat.add_le_add_left channel.countP_le _,
    fun _ brings => ⟨jobs ▸ brings.jobs, fun c hc => brings.channel c (channel.subset hc)⟩⟩

theorem Minds.same (made : h'.made = h.made) (jobs : h'.jobs = h.jobs)
    (channel : h'.channel = h.channel) : Minds id h h' :=
  .fewer made jobs (channel ▸ List.Sublist.refl _)

theorem Minds.refl (h : Host) : Minds id h h := .same rfl rfl rfl

theorem Minds.add {more : List Job} {sent : List Completion} (made : h.made <+: h'.made)
    (jobs : h'.jobs = h.jobs ++ more) (channel : h'.channel = h.channel ++ sent)
    (others : ∀ j ∈ more, j.task ≠ id) (others' : ∀ c ∈ sent, c.task ≠ id) : Minds id h h' where
  made := made
  way := fun _ => by
    have none_more : more.countP (·.task = id) = 0 :=
      List.countP_eq_zero.2 fun j hj => by simpa using others j hj
    have none_sent : sent.countP (·.task = id) = 0 :=
      List.countP_eq_zero.2 fun c hc => by simpa using others' c hc
    refine ⟨?_, fun p brings => ⟨fun j hj its => ?_, fun c hc its => ?_⟩⟩
    · rw [onTheWay, jobs, channel, List.countP_append, List.countP_append, none_more, none_sent]
      exact Nat.le_refl _
    · rw [jobs] at hj
      exact (List.mem_append.1 hj).elim (fun old => brings.jobs j old its)
        fun new => absurd its (others j new)
    · rw [channel] at hc
      exact (List.mem_append.1 hc).elim (fun old => brings.channel c old its)
        fun new => absurd its (others' c new)

end Host

theorem Aside.minds (aside : Aside h h') : Host.Minds id h h' :=
  .same aside.made aside.jobs aside.channel

namespace Host

/-! ## Requests in the name of others -/

theorem retire_channel (h : Host) (n : Nat) (handle : Handle) (task : TaskId) (v : Value)
    (extra : Option Extra) :
    (h.retire n handle task v extra).made = h.made ∧
      ((h.retire n handle task v extra).channel = h.channel ∨
        (h.retire n handle task v extra).channel =
          h.channel ++ [{ handle, task, result := v }]) := by
  have left (told : Host) : (told.dropExtra extra).made = told.made ∧
      (told.dropExtra extra).channel = told.channel :=
    ⟨(dropExtra_aside told extra).made, (dropExtra_aside told extra).channel⟩
  unfold retire
  dsimp only
  rw [(left _).1, (left _).2]
  split
  · exact ⟨rfl, Or.inl rfl⟩
  · split
    · exact ⟨rfl, Or.inl rfl⟩
    · split
      · exact ⟨rfl, Or.inl rfl⟩
      · exact ⟨rfl, Or.inr rfl⟩

theorem retire_minds (h : Host) (n : Nat) (handle : Handle) (other : task ≠ id) (v : Value)
    (extra : Option Extra) : Minds id h (h.retire n handle task v extra) := by
  obtain ⟨made, channel⟩ := h.retire_channel n handle task v extra
  have jobs : (h.retire n handle task v extra).jobs = h.jobs ++ [] :=
    (h.retire_jobs n handle task v extra).trans (List.append_nil _).symm
  have prefixed : h.made <+: (h.retire n handle task v extra).made := made ▸ List.prefix_refl _
  rcases channel with same | sent
  · exact .add prefixed jobs (same.trans (List.append_nil _).symm) nofun nofun
  · exact .add prefixed jobs sent nofun fun _ hc => List.mem_singleton.1 hc ▸ other

theorem answer_minds (h : Host) (ctx : Context) (q : Query) : Minds id h (h.answer ctx q).2 := by
  cases q with
  | kill task => exact .same rfl rfl rfl
  | isActive | peerName | extra | make _ _ | list _ | release _ | acquire _ | noSession _
  | report _ => exact (h.answer_aside ctx _ (by intro _ same; cases same)).minds

section
variable (calm : ∀ handle h, Minds id h (call r.callback r.extra handle r.argument h).2)

include calm in
theorem work_minds (h : Host) (handle : Option Handle) :
    Minds id h (h.work (call r.callback) handle r).2 :=
  (calm handle h).trans (result_aside _ _).minds

include calm in
theorem runInline_minds (h : Host) (n : Nat) :
    Minds id h (h.runInline (call r.callback) n r).2 := by
  refine (work_minds calm h none).trans ?_
  unfold runInline
  dsimp only
  generalize h.work (call r.callback) none r = done
  have noted : Minds id done.2 (done.2.note (.returned n done.1)) := .same rfl rfl rfl
  have cleaned := (done.2.note (.returned n done.1)).cleanUp_aside n r.extra r.cleanup
  exact noted.trans (cleaned.minds.trans ((dropExtra_aside _ _).minds.trans (.same rfl rfl rfl)))

include calm in
theorem runAtOnce_minds (other : task ≠ id) (h : Host) (n : Nat) (handle : Handle) :
    Minds id h (h.runAtOnce (call r.callback) n handle task r) := by
  refine (work_minds calm h (some handle)).trans ?_
  unfold runAtOnce
  dsimp only
  generalize h.work (call r.callback) (some handle) r = done
  have noted : Minds id done.2 (done.2.note (.returned n done.1)) := .same rfl rfl rfl
  have cleaned := (done.2.note (.returned n done.1)).cleanUp_aside n r.extra r.cleanup
  exact noted.trans (cleaned.minds.trans (retire_minds _ n handle other _ _))

include calm in
theorem launch_minds (other : task ≠ id) (h : Host) (n : Nat) (handle : Handle) :
    Minds id h (h.launch (call r.callback) n handle task r).2 := by
  unfold launch
  split
  · exact .add (List.prefix_refl _) rfl (List.append_nil _).symm
      (fun _ hj => List.mem_singleton.1 hj ▸ other) nofun
  · have noted : Minds id h (h.note (.accepted n handle task)) := .same rfl rfl rfl
    exact noted.trans (runAtOnce_minds calm other _ n handle)
  · exact (abandon_aside h n r.toEnvelope).minds.trans (.same rfl rfl rfl)

include calm in
theorem suspend_minds_of_calm (h : Host) (task : TaskId) :
    Minds id h (h.suspend task r).2 := by
  have deals := h.suspend_deals task r
  by_cases own : task = id
  · refine ⟨deals.leads.grows.made, fun unasked => ?_⟩
    have le := requests_le deals.grows.made id
    have one : (h.count task r).2.requests id = h.requests id + 1 := by
      simp [requests, count, own]
    omega
  · have counted : Minds id h (h.count task r).2 :=
      .add (List.prefix_append _ _) (List.append_nil _).symm (List.append_nil _).symm
        (List.forall_mem_nil _) (List.forall_mem_nil _)
    refine counted.trans ?_
    unfold suspend suspendBy
    dsimp only
    split
    · exact (abandon_aside _ _ r.toEnvelope).minds.trans (.same rfl rfl rfl)
    · exact runInline_minds calm _ _
    · have entered : Minds id (h.count task r).2
          ((h.count task r).2.enter (h.count task r).1 task r.title).2 := .same rfl rfl rfl
      exact entered.trans (launch_minds calm own _ _ _)

end

end Host

theorem Routine.run_minds (routine : Routine) (ctx : Host.Context) (h : Host) :
    Host.Minds id h (routine.run ctx h).2 := by
  induction routine generalizing ctx h with
  | finish v | crash message => exact .refl h
  | ask q next ih => exact (h.answer_minds ctx q).trans (ih _ ctx _)
  | suspend task envelope body next inside ih =>
    have made : Host.Minds id h (h.suspend task { envelope with callback := body }).2 :=
      Host.suspend_minds_of_calm (r := { envelope with callback := body })
        (fun handle h => inside handle envelope.argument _ h) h task
    exact made.trans (ih _ ctx _)

namespace Host

theorem call_minds (r : Request) (handle : Option Handle) (h : Host) :
    Minds id h (call r.callback r.extra handle r.argument h).2 :=
  (r.callback handle r.argument).run_minds _ h

theorem suspend_minds (h : Host) (task : TaskId) (r : Request) :
    Minds id h (h.suspend task r).2 := suspend_minds_of_calm (call_minds r) h task

/-! ## Jobs -/

/-- One job has come further, or its result has come into the channel, or is thrown away. -/
theorem Minds.of_job {before after : List Job} {j : Job} (jobs : List Job)
    (sent : List Completion) (made : h'.made = h.made) (split : h.jobs = before ++ j :: after)
    (its_jobs : h'.jobs = before ++ jobs ++ after) (channel : h'.channel = h.channel ++ sent)
    (one : jobs.length + sent.length ≤ 1)
    (on : ∀ j' ∈ jobs, j'.task = j.task ∧ ∀ p, j.stage.Gives p → j'.stage.Gives p)
    (done : ∀ c ∈ sent, c.task = j.task ∧ ∀ p, j.stage.Gives p → p c.result) :
    Minds id h h' where
  made := made ▸ List.prefix_refl _
  way := fun _ => by
    have fewer : jobs.countP (·.task = id) + sent.countP (·.task = id) ≤
        if j.task = id then 1 else 0 := by
      split
      · have le : jobs.countP (·.task = id) ≤ jobs.length := List.countP_le_length
        have le' : sent.countP (·.task = id) ≤ sent.length := List.countP_le_length
        omega
      · rename_i other
        have none_left : jobs.countP (·.task = id) = 0 :=
          List.countP_eq_zero.2 fun j' hj => by simpa [(on j' hj).1] using other
        have none_sent : sent.countP (·.task = id) = 0 :=
          List.countP_eq_zero.2 fun c hc => by simpa [(done c hc).1] using other
        omega
    refine ⟨?_, fun p brings => ⟨fun j' hj its => ?_, fun c hc its => ?_⟩⟩
    · simp only [onTheWay, its_jobs, channel, split, List.countP_append, List.countP_cons,
        decide_eq_true_iff]
      omega
    · have its_own : j ∈ h.jobs := split ▸ List.mem_append_right _ (List.mem_cons_self ..)
      rw [its_jobs] at hj
      have old_or : j' ∈ jobs ∨ j' ∈ h.jobs := by
        rw [split]
        simp only [List.mem_append, List.mem_cons] at hj ⊢
        tauto
      rcases old_or with new | old
      · obtain ⟨same, gives⟩ := on j' new
        exact gives p (brings.jobs j its_own (same ▸ its))
      · exact brings.jobs j' old its
    · have its_own : j ∈ h.jobs := split ▸ List.mem_append_right _ (List.mem_cons_self ..)
      rw [channel] at hc
      rcases List.mem_append.1 hc with old | new
      · exact brings.channel c old its
      · obtain ⟨same, gives⟩ := done c new
        exact gives p (brings.jobs j its_own (same ▸ its))

/-- A job goes on. -/
theorem step_minds (h : Host) (handle : Handle) : Minds id h (h.step handle) := by
  unfold step
  cases found : h.job? handle with
  | none => exact .refl h
  | some j =>
    dsimp only
    obtain ⟨rfl, before, after, split, none_before⟩ := job?_split found
    cases stage : j.stage with
    | ready r =>
      dsimp only
      have worked : Minds id h (h.work (call r.callback) (some j.handle) r).2 :=
        work_minds (call_minds r) h (some j.handle)
      obtain ⟨more, jobs⟩ := (work_leads (fun handle h => call_leads _ _ handle _ h) h
        (some j.handle) : Leads h (h.work (call r.callback) (some j.handle) r).2).jobs
      have gives (p : Value → Prop) (its : r.Gives p) := its h (some j.handle)
      generalize h.work (call r.callback) (some j.handle) r = done at worked jobs gives ⊢
      rw [split, List.append_assoc] at jobs
      refine worked.trans ?_
      rw [advance_eq (h := done.2.note (.returned j.request done.1)) jobs.symm none_before]
      refine .of_job [{ j with stage := .returned done.1 r.extra r.cleanup }] [] rfl jobs.symm
        (by simp) (List.append_nil _).symm (Nat.le_refl _) (fun j' hj => ?_) nofun
      rw [List.mem_singleton.1 hj, stage]
      exact ⟨rfl, gives⟩
    | returned v extra cleanup =>
      dsimp only
      have aside := h.cleanUp_aside j.request extra cleanup
      generalize h.cleanUp j.request extra cleanup = done at aside ⊢
      have jobs := aside.jobs.trans split
      refine aside.minds.trans ?_
      rw [advance_eq jobs none_before]
      refine .of_job [{ j with stage := .cleaned v done.1 }] [] rfl jobs (by simp)
        (List.append_nil _).symm (Nat.le_refl _) (fun j' hj => ?_) nofun
      rw [List.mem_singleton.1 hj, stage]
      exact ⟨rfl, fun p gives => gives⟩
    | cleaned v extra =>
      dsimp only
      have left := (h.forget j.handle).retire_jobs j.request j.handle j.task v extra
      obtain ⟨made, channel⟩ := (h.forget j.handle).retire_channel j.request j.handle j.task v extra
      rw [forget_eq split none_before] at left made channel ⊢
      have jobs := left.trans (by simp : before ++ after = before ++ [] ++ after)
      rcases channel with same | sent
      · exact .of_job [] [] made split jobs (same.trans (List.append_nil _).symm) (Nat.zero_le _)
          nofun nofun
      · refine .of_job [] _ made split jobs sent (Nat.le_refl _) nofun fun c hc => ?_
        rw [List.mem_singleton.1 hc, stage]
        exact ⟨rfl, fun p gives => gives⟩

/-! ## A request in the task's own name -/

theorem brings_of_free (free : h.onTheWay id = 0) (p : Value → Prop) : h.Brings id p := by
  obtain ⟨no_job, no_result⟩ := Nat.add_eq_zero_iff.1 free
  refine ⟨fun j hj its => ?_, fun c hc its => ?_⟩
  · exact absurd (decide_eq_true its) (List.countP_eq_zero.1 no_job j hj)
  · exact absurd (decide_eq_true its) (List.countP_eq_zero.1 no_result c hc)

theorem Brings.one {more : List Job} {sent : List Completion} (free : h.onTheWay id = 0)
    (jobs : h'.jobs = h.jobs ++ more) (channel : h'.channel = h.channel ++ sent)
    (one : more.length + sent.length ≤ 1) (gives : ∀ j ∈ more, j.stage.Gives p)
    (given : ∀ c ∈ sent, p c.result) : h'.onTheWay id ≤ 1 ∧ h'.Brings id p := by
  have before := brings_of_free free p
  refine ⟨?_, fun j hj its => ?_, fun c hc its => ?_⟩
  · have le : more.countP (·.task = id) ≤ more.length := List.countP_le_length
    have le' : sent.countP (·.task = id) ≤ sent.length := List.countP_le_length
    rw [onTheWay] at free ⊢
    rw [jobs, channel, List.countP_append, List.countP_append]
    omega
  · rw [jobs] at hj
    exact (List.mem_append.1 hj).elim (fun old => before.jobs j old its) (gives j)
  · rw [channel] at hc
    exact (List.mem_append.1 hc).elim (fun old => before.channel c old its) (given c)

theorem runAtOnce_brings (gives : r.Gives p) (free : h.onTheWay task = 0) (n : Nat)
    (handle : Handle)
    (unasked : (h.runAtOnce (call r.callback) n handle task r).requests task = h.requests task) :
    (h.runAtOnce (call r.callback) n handle task r).onTheWay task ≤ 1 ∧
      (h.runAtOnce (call r.callback) n handle task r).Brings task p := by
  have worked : Minds task h (h.work (call r.callback) (some handle) r).2 :=
    work_minds (call_minds r) h (some handle)
  have its := gives h (some handle)
  unfold runAtOnce at unasked ⊢
  dsimp only at unasked ⊢
  generalize h.work (call r.callback) (some handle) r = done at worked its unasked ⊢
  have aside := (done.2.note (.returned n done.1)).cleanUp_aside n r.extra r.cleanup
  generalize (done.2.note (.returned n done.1)).cleanUp n r.extra r.cleanup = cleaned
    at aside unasked ⊢
  obtain ⟨made, channel⟩ := cleaned.2.retire_channel n handle task done.1 cleaned.1
  have jobs := (cleaned.2.retire_jobs n handle task done.1 cleaned.1).trans aside.jobs
  have none_left : done.2.onTheWay task = 0 := by
    have same : done.2.requests task = h.requests task := by
      rw [← unasked, requests, requests, made, aside.made]
      rfl
    have fewer := (worked.way same).1
    omega
  rcases channel with same | sent
  · exact Brings.one none_left (jobs.trans (List.append_nil _).symm)
      (same.trans (aside.channel.trans (List.append_nil _).symm)) (Nat.zero_le _) nofun nofun
  · exact Brings.one none_left (jobs.trans (List.append_nil _).symm)
      (sent.trans (congrArg (· ++ _) aside.channel)) (Nat.le_refl _) nofun
      fun _ hc => List.mem_singleton.1 hc ▸ its

/-- If nothing is on its way, and nothing else is asked for meanwhile, a request is turned down, or
its result is there at once, or one job or result is on its way. -/
theorem suspend_own (gives : r.Gives p) (free : h.onTheWay task = 0)
    (once : (h.suspend task r).2.requests task ≤ h.requests task + 1) :
    match (h.suspend task r).1 with
    | .error why => .refused h.made.length why ∈ (h.suspend task r).2.trace
    | .ok (.immediate v) => p v ∧ (h.suspend task r).2.onTheWay task = 0
    | .ok (.waiting _) =>
      (h.suspend task r).2.onTheWay task ≤ 1 ∧ (h.suspend task r).2.Brings task p := by
  have counted : (h.count task r).2.requests task = h.requests task + 1 := by
    simp [requests, count]
  have unasked : (h.suspend task r).2.requests task = (h.count task r).2.requests task :=
    le_antisymm (counted ▸ once) (requests_le (h.suspend_deals task r).grows.made task)
  have free' : (h.count task r).2.onTheWay task = 0 := free
  have numbered : (h.count task r).1 = h.made.length := rfl
  unfold suspend suspendBy at unasked ⊢
  dsimp only at unasked ⊢
  generalize h.count task r = asked at counted unasked free' numbered ⊢
  cases admission : asked.2.gateway.admission task with
  | refused why =>
    dsimp only [refuse]
    exact numbered ▸ List.mem_append_right _ (List.mem_singleton_self _)
  | inline =>
    have inline : Minds task asked.2 (asked.2.runInline (call r.callback) asked.1 r).2 :=
      runInline_minds (call_minds r) asked.2 asked.1
    rw [admission] at unasked
    have fewer := (inline.way unasked).1
    dsimp only
    exact ⟨gives asked.2 none, by omega⟩
  | thread =>
    rw [admission] at unasked
    dsimp only at unasked ⊢
    have entered : (asked.2.enter asked.1 task r.title).2.requests task = asked.2.requests task :=
      rfl
    have free_there : (asked.2.enter asked.1 task r.title).2.onTheWay task = 0 := free'
    generalize asked.2.enter asked.1 task r.title = entry at entered free_there unasked ⊢
    rw [← entered] at unasked
    unfold launch at unasked ⊢
    cases starter : entry.2.starter with
    | later =>
      exact Brings.one free_there rfl (List.append_nil _).symm (Nat.le_refl _)
        (fun _ hj => List.mem_singleton.1 hj ▸ gives) (List.forall_mem_nil _)
    | atOnce =>
      rw [starter] at unasked
      exact runAtOnce_brings gives (h := entry.2.note (.accepted asked.1 entry.1 task)) free_there
        asked.1 entry.1 unasked
    | failing message =>
      dsimp only [refuse]
      exact numbered ▸ List.mem_append_right _ (List.mem_singleton_self _)

end Host
end MooCore.Background
