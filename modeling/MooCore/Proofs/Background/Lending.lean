import MooCore.Builtin.Threads
import MooCore.Proofs.Background.Cleanups
import MooCore.Proofs.Sessions.Holds
/-!
# Sessions that are lent

The hold that a request brings along is passed on with it, to its job, and ends when the request is
turned down or its cleanup is called, whatever comes in between. If only look-ups bring holds, and
no callback takes any, the holds on the sessions are those of the look-ups that are not cleaned up
and those that a step is about to hand over.
-/

set_option autoImplicit false
namespace MooCore
open Background

namespace Builtin

/-- The request of a look-up, which brings a hold on the session. -/
def lookup (session : SessionId) : Request where
  title := "connection_name_lookup"
  argument := .int (Int64.ofNat session)
  extra := some (.guard session)
  cleanup := some { label := none }
  callback := lookingUp

end Builtin

def Sessions.giveBack (r : Sessions) : Option SessionId → Sessions
  | none => r
  | some session => r.unguard session

theorem Sessions.HeldBy.giveBack {r : Sessions} {session? : Option SessionId}
    {holds : List SessionId} (held : r.HeldBy (session?.toList ++ holds)) :
    (r.giveBack session?).HeldBy holds := by
  cases session? with
  | none => exact held
  | some session => exact held.unguard

namespace Background

/-- The session that extra data holds. -/
def held? : Option Extra → Option SessionId
  | some (.guard session) => some session
  | some (.value _) | none => none

/-- A routine that takes no hold, in requests of its own neither. -/
inductive Routine.Guardless : Routine → Prop
  | finish (v : Value) : Guardless (.finish v)
  | crash (message : Option String) : Guardless (.crash message)
  | ask (q : Query) (next : q.Answer → Routine) (other : ∀ session, q ≠ .acquire session)
      (going_on : ∀ a, Guardless (next a)) : Guardless (.ask q next)
  | suspend (task : TaskId) (envelope : Envelope) (body : Option Handle → Value → Routine)
      (next : Response → Routine) (unheld : held? envelope.extra = none)
      (inside : ∀ handle v, Guardless (body handle v)) (going_on : ∀ a, Guardless (next a)) :
      Guardless (.suspend task envelope body next)

def Callback.Guardless (callback : Callback) : Prop := ∀ handle v, (callback handle v).Guardless

/-- A request takes no hold, and one that brings a hold is a look-up. -/
structure Request.Careful (r : Request) : Prop where
  guardless : Callback.Guardless r.callback
  looks_up : ∀ session, held? r.extra = some session → r = Builtin.lookup session

theorem lookingUp_guardless : Callback.Guardless Builtin.lookingUp := fun _ _ =>
  .ask _ _ nofun fun name => by
    cases name with
    | none => exact .ask _ _ nofun fun _ => .ask _ _ nofun fun _ => .finish _
    | some name => exact .ask _ _ nofun fun _ => .ask _ _ nofun fun _ => .finish _

theorem lookup_careful (session : SessionId) : (Builtin.lookup session).Careful where
  guardless := lookingUp_guardless
  looks_up := fun _ its => by rw [← Option.some.inj its]

/-- The session that a job holds. -/
def Stage.held? : Stage → Option SessionId
  | .ready r => Background.held? r.extra
  | .returned _ extra _ | .cleaned _ extra => Background.held? extra

/-- A job holds its session until its cleanup is called. -/
def Stage.Careful : Stage → Prop
  | .ready r => r.Careful
  | .returned _ extra cleanup => (Background.held? extra).isSome → cleanup.isSome
  | .cleaned _ extra => Background.held? extra = none

def lentBy (jobs : List Job) : List SessionId := jobs.filterMap fun j => j.stage.held?

def Host.lent (h : Host) : List SessionId := lentBy h.jobs

variable {h h' h'' : Host} {r : Request} {session? : Option SessionId} {extra : Option Extra}
  {hand hand' hand'' : List SessionId} {task : TaskId} {ctx : Host.Context}

/-! ## One request -/

/-- What becomes of the hold that a request brings along: it goes to the job of the request, or it
has ended. Otherwise the sessions and the holds are as before. -/
structure Host.Hands (session? : Option SessionId) (h h' : Host) : Prop where
  made : ∃ more : List (TaskId × Request), h'.made = h.made ++ more ∧ ∀ x ∈ more, x.2.Careful
  jobs : ∃ more : List Job, h'.jobs = h.jobs ++ more ∧ (∀ j ∈ more, j.stage.Careful) ∧
    (h'.sessions = h.sessions ∧ lentBy more = session?.toList ∨
      h'.sessions = h.sessions.giveBack session? ∧ lentBy more = [])

namespace Host

theorem Hands.ended (made : h'.made = h.made) (jobs : h'.jobs = h.jobs)
    (sessions : h'.sessions = h.sessions.giveBack session?) : Hands session? h h' :=
  ⟨⟨[], by rw [made, List.append_nil], nofun⟩,
    ⟨[], by rw [jobs, List.append_nil], nofun, Or.inr ⟨sessions, rfl⟩⟩⟩

theorem Hands.same (made : h'.made = h.made) (jobs : h'.jobs = h.jobs)
    (sessions : h'.sessions = h.sessions) : Hands none h h' := .ended made jobs sessions

theorem Hands.none_iff :
    Hands none h h' ↔ h'.sessions = h.sessions ∧
      (∃ more : List (TaskId × Request), h'.made = h.made ++ more ∧ ∀ x ∈ more, x.2.Careful) ∧
      ∃ more : List Job, h'.jobs = h.jobs ++ more ∧ (∀ j ∈ more, j.stage.Careful) ∧
        lentBy more = [] := by
  constructor
  · rintro ⟨made, more, jobs, careful, ⟨sessions, lent⟩ | ⟨sessions, lent⟩⟩ <;>
      exact ⟨sessions, made, more, jobs, careful, lent⟩
  · rintro ⟨sessions, made, more, jobs, careful, lent⟩
    exact ⟨made, more, jobs, careful, Or.inl ⟨sessions, lent⟩⟩

theorem Hands.trans (first : Hands none h h') (second : Hands session? h' h'') :
    Hands session? h h'' := by
  obtain ⟨sessions, ⟨made, its_made, careful⟩, jobs, its_jobs, careful_jobs, none_lent⟩ :=
    Hands.none_iff.1 first
  obtain ⟨⟨made', its_made', careful'⟩, jobs', its_jobs', careful_jobs', ended⟩ := second
  refine ⟨⟨made ++ made', by rw [its_made', its_made, List.append_assoc], fun x hx => ?_⟩,
    ⟨jobs ++ jobs', by rw [its_jobs', its_jobs, List.append_assoc], fun j hj => ?_, ?_⟩⟩
  · exact (List.mem_append.1 hx).elim (careful x) (careful' x)
  · exact (List.mem_append.1 hj).elim (careful_jobs j) (careful_jobs' j)
  · have lent : lentBy (jobs ++ jobs') = lentBy jobs' := by
      rw [lentBy, List.filterMap_append]
      exact congrArg (· ++ lentBy jobs') none_lent
    rwa [lent, ← sessions]

theorem Hands.refl (h : Host) : Hands none h h := .same rfl rfl rfl

theorem Hands.onward (first : Hands session? h h') (made : h''.made = h'.made)
    (jobs : h''.jobs = h'.jobs) (sessions : h''.sessions = h'.sessions) : Hands session? h h'' := by
  obtain ⟨its_made, more, its_jobs, careful, ended⟩ := first
  refine ⟨?_, more, jobs.trans its_jobs, careful, ?_⟩
  · rwa [made]
  · rwa [sessions]

theorem dropExtra_sessions (h : Host) (extra : Option Extra) :
    (h.dropExtra extra).sessions = h.sessions.giveBack (held? extra) := by
  rcases extra with _ | _ | _ <;> rfl

theorem cleanUp_sessions (h : Host) (n : Nat) (extra : Option Extra) (cleanup : Option Cleanup) :
    (h.cleanUp n extra cleanup).2.sessions.giveBack (held? (h.cleanUp n extra cleanup).1) =
      h.sessions.giveBack (held? extra) := by
  cases cleanup with
  | none => rfl
  | some c => exact dropExtra_sessions _ extra

theorem retire_sessions (h : Host) (n : Nat) (handle : Handle) (task : TaskId) (v : Value)
    (extra : Option Extra) :
    (h.retire n handle task v extra).sessions = h.sessions.giveBack (held? extra) := by
  unfold retire
  dsimp only
  rw [dropExtra_sessions]
  congr 1
  repeat' split
  all_goals rfl

theorem result_hands (h : Host) (ending : Ending) : Hands none h (h.result ending).2 := by
  cases ending with
  | ok v => exact .refl h
  | error message => exact .same rfl rfl rfl

theorem abandon_hands (h : Host) (n : Nat) (e : Envelope) :
    Hands (held? e.extra) h (h.abandon n e) :=
  have aside := h.abandon_aside n e
  .ended aside.made aside.jobs
    ((dropExtra_sessions _ _).trans (h.cleanUp_sessions n e.extra e.cleanup))

theorem answer_hands (h : Host) (ctx : Context) (q : Query)
    (other : ∀ session, q ≠ .acquire session) : Hands none h (h.answer ctx q).2 := by
  cases q with
  | acquire session => exact absurd rfl (other session)
  | peerName => rcases ctx with ⟨_, _ | _ | _⟩ <;> exact .same rfl rfl rfl
  | extra => rcases ctx with ⟨_, _ | _ | _⟩ <;> exact .same rfl rfl rfl
  | isActive | kill _ | make _ _ | list _ | release _ | noSession _ | report _ =>
    exact .same rfl rfl rfl

section
variable (calm : ∀ handle h, Hands none h (call r.callback r.extra handle r.argument h).2)

include calm in
theorem work_hands (h : Host) (handle : Option Handle) :
    Hands none h (h.work (call r.callback) handle r).2 :=
  (calm handle h).trans (result_hands _ _)

include calm in
theorem runInline_hands (h : Host) (n : Nat) :
    Hands (held? r.extra) h (h.runInline (call r.callback) n r).2 := by
  refine (work_hands calm h none).trans ?_
  unfold runInline
  dsimp only
  generalize h.work (call r.callback) none r = done
  have aside := (done.2.note (.returned n done.1)).cleanUp_aside n r.extra r.cleanup
  refine .ended ((dropExtra_aside _ _).made.trans aside.made)
    ((dropExtra_aside _ _).jobs.trans aside.jobs) ?_
  exact (dropExtra_sessions _ _).trans (cleanUp_sessions _ n r.extra r.cleanup)

include calm in
theorem runAtOnce_hands (h : Host) (n : Nat) (handle : Handle) (task : TaskId) :
    Hands (held? r.extra) h (h.runAtOnce (call r.callback) n handle task r) := by
  refine (work_hands calm h (some handle)).trans ?_
  unfold runAtOnce
  dsimp only
  generalize h.work (call r.callback) (some handle) r = done
  have aside := (done.2.note (.returned n done.1)).cleanUp_aside n r.extra r.cleanup
  refine .ended ((retire_ends _ n handle task done.1 _).made.trans aside.made)
    ((retire_jobs _ n handle task done.1 _).trans aside.jobs) ?_
  exact (retire_sessions ..).trans (cleanUp_sessions _ n r.extra r.cleanup)

include calm in
theorem launch_hands (careful : r.Careful) (h : Host) (n : Nat) (handle : Handle)
    (task : TaskId) :
    Hands (held? r.extra) h (h.launch (call r.callback) n handle task r).2 := by
  unfold launch
  split
  · refine ⟨⟨[], (List.append_nil _).symm, nofun⟩,
      ⟨[{ handle, request := n, task, stage := .ready r }], rfl, fun j hj => ?_, Or.inl ⟨rfl, ?_⟩⟩⟩
    · rw [List.mem_singleton.1 hj]
      exact careful
    · simp only [lentBy, List.filterMap_cons, List.filterMap_nil, Stage.held?]
      cases held? r.extra <;> rfl
  · have noted : Hands none h (h.note (.accepted n handle task)) := .same rfl rfl rfl
    exact noted.trans (runAtOnce_hands calm _ n handle task)
  · exact (abandon_hands h n r.toEnvelope).onward rfl rfl rfl

include calm in
theorem suspend_hands_of_calm (careful : r.Careful) (h : Host) (task : TaskId) :
    Hands (held? r.extra) h (h.suspend task r).2 := by
  have counted : Hands none h (h.count task r).2 :=
    Hands.none_iff.2 ⟨rfl, ⟨[(task, r)], rfl, fun x hx => List.mem_singleton.1 hx ▸ careful⟩,
      [], (List.append_nil _).symm, nofun, rfl⟩
  refine counted.trans ?_
  unfold suspend suspendBy
  dsimp only
  split
  · exact (abandon_hands _ _ r.toEnvelope).onward rfl rfl rfl
  · exact runInline_hands calm _ _
  · have entered : Hands none (h.count task r).2
        ((h.count task r).2.enter (h.count task r).1 task r.title).2 := .same rfl rfl rfl
    exact entered.trans (launch_hands calm careful _ _ _ task)

end

end Host

theorem Routine.Guardless.run_hands {routine : Routine} (guardless : routine.Guardless)
    (ctx : Host.Context) (h : Host) : Host.Hands none h (routine.run ctx h).2 := by
  induction guardless generalizing ctx h with
  | finish v | crash message => exact .refl h
  | ask q next other _ ih => exact (h.answer_hands ctx q other).trans (ih _ ctx _)
  | suspend task envelope body next unheld body_guardless _ inside ih =>
    let r : Request := { envelope with callback := body }
    have careful : r.Careful :=
      ⟨body_guardless, fun session its => absurd (unheld.symm.trans its) nofun⟩
    have made : Host.Hands (held? r.extra) h (h.suspend task r).2 :=
      Host.suspend_hands_of_calm (r := r) (fun handle h => inside handle envelope.argument _ h)
        careful h task
    rw [show held? r.extra = none from unheld] at made
    exact made.trans (ih _ ctx _)

theorem Traffic.Runs.longest_le {s s' : Traffic} (runs : s.Runs s') :
    s.host.gateway.longest ≤ s'.host.gateway.longest := by
  induction runs with
  | refl => exact Nat.le_refl _
  | tail _ step ih => exact ih.trans step.longest_le

namespace Host

theorem call_hands (careful : r.Careful) (handle : Option Handle) (v : Value) (h : Host) :
    Hands none h (call r.callback r.extra handle v h).2 :=
  (careful.guardless handle v).run_hands _ h

theorem suspend_hands (careful : r.Careful) (h : Host) (task : TaskId) :
    Hands (held? r.extra) h (h.suspend task r).2 :=
  suspend_hands_of_calm (fun handle h => call_hands careful handle _ h) careful h task

/-! ## Lending -/

/-- Every hold is that of a job, or is in the given hand; the jobs have what they need to give the
sessions back. -/
structure Lends (h : Host) (hand : List SessionId) : Prop where
  traffic : h.traffic.Sound
  manned : h.traffic.Manned
  sessions : h.sessions.HeldBy (h.lent ++ hand)
  jobs : ∀ j ∈ h.jobs, j.stage.Careful
  made : ∀ x ∈ h.made, x.2.Careful

/-- Holds change hands, as long as the handles do not run out. -/
structure Passes (h : Host) (hand : List SessionId) (h' : Host) (hand' : List SessionId) :
    Prop where
  longest : h.gateway.longest ≤ h'.gateway.longest
  lends : h'.gateway.longest < Gateway.handleLimit → h.Lends hand → h'.Lends hand'

theorem Passes.refl (h : Host) (hand : List SessionId) : Passes h hand h hand :=
  ⟨Nat.le_refl _, fun _ lends => lends⟩

theorem Passes.trans (first : Passes h hand h' hand') (second : Passes h' hand' h'' hand'') :
    Passes h hand h'' hand'' where
  longest := first.longest.trans second.longest
  lends := fun few lends =>
    second.lends few (first.lends (second.longest.trans_lt few) lends)

theorem Passes.of_runs (runs : h.traffic.Runs h'.traffic)
    (sessions : h.Lends hand → h'.sessions.HeldBy (h'.lent ++ hand'))
    (jobs : h.Lends hand → ∀ j ∈ h'.jobs, j.stage.Careful)
    (made : h.Lends hand → ∀ x ∈ h'.made, x.2.Careful) : Passes h hand h' hand' where
  longest := runs.longest_le
  lends := fun few lends =>
    ⟨lends.traffic.runs runs, lends.manned.runs lends.traffic runs few, sessions lends, jobs lends,
      made lends⟩

def workings (h : Host) :=
  (h.gateway.waiters, h.gateway.next, h.gateway.streak, h.gateway.longest, h.made, h.locked, h.jobs)

theorem Passes.aside (same : h'.workings = h.workings)
    (trace : ∃ es : List Event, h'.trace = h.trace ++ es ∧ ∀ e ∈ es, e.subject? = none)
    (sessions : ∀ holds, h.sessions.HeldBy holds → h'.sessions.HeldBy holds) :
    Passes h hand h' hand := by
  simp only [workings, Prod.mk.injEq] at same
  obtain ⟨waiters, next, streak, longest, made, locked, jobs⟩ := same
  obtain ⟨es, trace, mute⟩ := trace
  have passages : h'.traffic = ⟨h', h.jobs.map Job.passage⟩ := by rw [traffic, jobs]
  have lent : h'.lent = h.lent := by rw [Host.lent, jobs, Host.lent]
  refine ⟨longest.ge, fun few lends => ⟨?_, ?_, ?_, jobs ▸ lends.jobs, made ▸ lends.made⟩⟩
  · rw [passages]
    refine lends.traffic.extend made (locked.trans lends.traffic.unlocked)
      fun n c extra phase life => ?_
    have none_own : lifeOf n es = [] := lifeOf_others fun e he k its => by
      rw [mute e he] at its
      cases its
    rwa [trace, lifeOf_append, none_own, List.append_nil]
  · rw [passages]
    refine lends.manned.relabel (lends.manned.numbered.of_sublist ?_ next streak longest)
      (by rw [waiters])
    rw [Gateway.handles, waiters, Gateway.handles]
    exact List.Sublist.refl _
  · rw [lent]
    exact sessions _ lends.sessions

theorem Passes.same (same : h'.workings = h.workings) (trace : h'.trace = h.trace)
    (sessions : h'.sessions = h.sessions) : Passes h hand h' hand :=
  .aside same ⟨[], by rw [trace, List.append_nil], nofun⟩ fun _ held => sessions ▸ held

theorem suspend_passes (careful : r.Careful) (h : Host) (task : TaskId) (hand : List SessionId) :
    Passes h ((held? r.extra).toList ++ hand) (h.suspend task r).2 hand := by
  obtain ⟨⟨requests, made, careful_made⟩, jobs, its_jobs, careful_jobs, ended⟩ :=
    suspend_hands careful h task
  have lent : (h.suspend task r).2.lent = h.lent ++ lentBy jobs := by
    rw [Host.lent, its_jobs, lentBy, List.filterMap_append]
    rfl
  refine .of_runs (h.suspend_goes task r).traffic (fun lends => ?_) (fun lends => ?_)
    fun lends => ?_
  · have held := lends.sessions
    rw [lent]
    rcases ended with ⟨sessions, handed⟩ | ⟨sessions, none_lent⟩
    · rw [sessions, handed, List.append_assoc]
      exact held
    · rw [sessions, none_lent, List.append_nil]
      exact (held.perm (List.perm_append_comm_assoc ..)).giveBack
  · rw [its_jobs]
    exact fun j hj => (List.mem_append.1 hj).elim (lends.jobs j) (careful_jobs j)
  · rw [made]
    exact fun x hx => (List.mem_append.1 hx).elim (lends.made x) (careful_made x)

theorem killWaiters_passes (h : Host) (task : TaskId) (hand : List SessionId) :
    Passes h hand (h.killWaiters task).2 hand :=
  .of_runs (.single (.kill h.traffic task)) Lends.sessions Lends.jobs Lends.made

theorem enumerate_passes (h : Host) (rule : TaskId → String → Verdict) (hand : List SessionId) :
    Passes h hand (h.enumerate rule).2 hand :=
  .of_runs (.single (.enumerate h.traffic rule)) Lends.sessions Lends.jobs Lends.made

theorem acquire_passes (h : Host) (session : SessionId) (hand : List SessionId) :
    Passes h hand { h with sessions := (h.sessions.guard session).2 }
      (if (h.sessions.guard session).1 then session :: hand else hand) := by
  have still : Traffic.Runs h.traffic
      { h with sessions := (h.sessions.guard session).2 : Host }.traffic :=
    Traffic.runs_same h _ _ rfl rfl rfl rfl
  refine .of_runs still (fun lends => ?_) Lends.jobs Lends.made
  have taken := lends.sessions.guard session
  split at taken
  · rename_i granted
    rw [if_pos granted]
    exact taken.perm List.perm_middle.symm
  · rename_i refused
    rw [if_neg refused, taken]
    exact lends.sessions

theorem lentBy_split (before after : List Job) (j : Job) :
    (lentBy (before ++ j :: after)).Perm (j.stage.held?.toList ++ lentBy (before ++ after)) := by
  have one : lentBy (j :: (before ++ after)) = j.stage.held?.toList ++ lentBy (before ++ after) := by
    rw [lentBy, List.filterMap_cons]
    cases j.stage.held? <;> rfl
  rw [← one]
  exact List.perm_middle.filterMap _

/-- One job has come further, or is over, and others have come in that hold nothing; the session
that it does not hold any more is given back. -/
theorem Passes.of_job {before after : List Job} {j : Job} (later : Option Stage)
    (more : List Job) (runs : h.traffic.Runs h'.traffic)
    (split : h.jobs = before ++ j :: after)
    (jobs : h'.jobs =
      before ++ (later.map fun stage => { j with stage : Job }).toList ++ after ++ more)
    (careful : ∀ j ∈ more, j.stage.Careful) (unlent : lentBy more = [])
    (made : ∀ x ∈ h'.made, x.2.Careful) (on : ∀ stage, later = some stage → stage.Careful)
    (passed : h'.sessions = h.sessions ∧ later.bind Stage.held? = j.stage.held? ∨
      h'.sessions = h.sessions.giveBack j.stage.held? ∧ later.bind Stage.held? = none) :
    Passes h hand h' hand := by
  have lent : h.lent.Perm (j.stage.held?.toList ++ lentBy (before ++ after)) := by
    rw [Host.lent, split]
    exact lentBy_split before after j
  have lent' : h'.lent.Perm ((later.bind Stage.held?).toList ++ lentBy (before ++ after)) := by
    have same : h'.lent = lentBy
        (before ++ (later.map fun stage => { j with stage : Job }).toList ++ after) := by
      rw [Host.lent, jobs, lentBy, List.filterMap_append]
      exact (congrArg _ unlent).trans (List.append_nil _)
    rw [same]
    cases later with
    | none => rw [Option.map_none, Option.toList_none, List.append_nil]; rfl
    | some stage =>
      rw [Option.map_some, Option.toList_some, List.append_assoc, List.singleton_append]
      exact lentBy_split before after { j with stage }
  refine .of_runs runs (fun lends => ?_) (fun lends => ?_) fun _ => made
  · have held := lends.sessions.perm ((lent.append_right hand).trans (by rw [List.append_assoc]))
    rcases passed with ⟨sessions, kept⟩ | ⟨sessions, gone⟩
    · rw [sessions]
      refine held.perm ?_
      rw [← List.append_assoc, ← kept]
      exact (lent'.append_right hand).symm
    · rw [sessions]
      refine held.giveBack.perm ?_
      rw [gone] at lent'
      exact (lent'.append_right hand).symm
  · intro j' hj
    rw [jobs] at hj
    rcases List.mem_append.1 hj with old | new
    · have split_mem : j' ∈ (later.map fun stage => { j with stage : Job }).toList ∨
          j' ∈ h.jobs := by
        rw [split]
        simp only [List.mem_append, List.mem_cons] at old ⊢
        tauto
      rcases split_mem with now | old
      · obtain ⟨stage, its, rfl⟩ := Option.map_eq_some_iff.1 (Option.mem_toList.1 now)
        exact on stage its
      · exact lends.jobs j' old
    · exact careful j' new

/-- A job goes on, and gives its session back when its cleanup is called. -/
theorem step_passes (h : Host) (handle : Handle) (hand : List SessionId) :
    Passes h hand (h.step handle) hand := by
  have runs := h.step_runs handle
  refine ⟨runs.longest_le, fun few lends => Passes.lends ?_ few lends⟩
  unfold step at runs ⊢
  cases found : h.job? handle with
  | none => exact .refl h hand
  | some j =>
    simp only [found] at runs ⊢
    obtain ⟨rfl, before, after, split, none_before⟩ := job?_split found
    have careful := lends.jobs j (split ▸ List.mem_append_right _ (List.mem_cons_self ..))
    cases stage : j.stage with
    | ready r =>
      simp only [stage] at runs careful ⊢
      obtain ⟨sessions, ⟨requests, made, careful_made⟩, more, jobs, careful_more, unlent⟩ :=
        Hands.none_iff.1 (work_hands (fun handle => call_hands careful handle r.argument) h
          (some j.handle))
      generalize h.work (call r.callback) (some j.handle) r = done at *
      rw [split, List.append_assoc] at jobs
      rw [advance_eq (h := done.2.note (.returned j.request done.1)) jobs none_before] at runs ⊢
      refine .of_job (some (.returned done.1 r.extra r.cleanup)) more runs split ?_
        careful_more unlent ?_ ?_ (Or.inl ⟨sessions, ?_⟩)
      · simp
      · change ∀ x ∈ done.2.made, x.2.Careful
        rw [made]
        exact fun x hx => (List.mem_append.1 hx).elim (lends.made x) (careful_made x)
      · rintro _ ⟨⟩ holds
        obtain ⟨session, its⟩ := Option.isSome_iff_exists.1 holds
        rw [careful.looks_up session its]
        rfl
      · rw [stage]
        rfl
    | returned v extra cleanup =>
      simp only [stage] at runs careful ⊢
      have aside := h.cleanUp_aside j.request extra cleanup
      have back := h.cleanUp_sessions j.request extra cleanup
      have gone : held? (h.cleanUp j.request extra cleanup).1 = none := by
        cases cleanup with
        | none => exact Option.not_isSome_iff_eq_none.1 fun holds => nomatch careful holds
        | some c => rfl
      generalize h.cleanUp j.request extra cleanup = done at *
      rw [advance_eq (aside.jobs.trans split) none_before] at runs ⊢
      refine .of_job (some (.cleaned v done.1)) [] runs split ?_ nofun rfl
        ?_ ?_ (Or.inr ⟨?_, gone⟩)
      · simp
      · exact aside.made ▸ lends.made
      · rintro _ ⟨⟩
        exact gone
      · rw [gone] at back
        rw [stage]
        exact back
    | cleaned v extra =>
      simp only [stage] at runs careful ⊢
      have back := (h.forget j.handle).retire_sessions j.request j.handle j.task v extra
      have ends := (h.forget j.handle).retire_ends j.request j.handle j.task v extra
      have jobs := (h.forget j.handle).retire_jobs j.request j.handle j.task v extra
      rw [show held? extra = none from careful] at back
      rw [forget_eq split none_before] at runs back ends jobs ⊢
      refine .of_job none [] runs split ?_ nofun rfl ?_ nofun
        (Or.inl ⟨back, ?_⟩)
      · simpa using jobs
      · rw [ends.made]
        exact lends.made
      · rw [stage]
        exact careful.symm

/-! ## Look-ups -/

/-- The look-ups of a session that were asked for and whose cleanup has not been called. -/
def lookups (h : Host) (session : SessionId) : List Nat :=
  (List.range h.made.length).filter fun n =>
    (h.made[n]?.bind fun x => held? x.2.extra) = some session ∧ cleanings n h.trace = 0

/-- A look-up is not over while its job holds the session. -/
theorem Lends.mem_lookups (lends : h.Lends hand) {session : SessionId} {n : Nat} :
    n ∈ h.lookups session ↔ ∃ j ∈ h.jobs, j.request = n ∧ j.stage.held? = some session := by
  have owed {task : TaskId} (its : h.made[n]? = some (task, Builtin.lookup session)) :=
    lends.traffic.cleanedOnce its rfl
  rw [lookups, List.mem_filter, List.mem_range, decide_eq_true_iff]
  constructor
  · rintro ⟨-, its, uncalled⟩
    obtain ⟨⟨task, r⟩, made, holds⟩ := Option.bind_eq_some_iff.1 its
    obtain rfl : r = Builtin.lookup session :=
      (lends.made _ (List.mem_of_getElem? made)).looks_up session holds
    have there : ∃ p ∈ h.traffic.passages, p.request = n ∧ p.place.owes = true := by
      by_contra none_owes
      have called := (owed made).paid fun p hp same => by
        rw [Bool.eq_false_iff]
        exact fun owes => none_owes ⟨p, hp, same, owes⟩
      exact absurd (uncalled.symm.trans called) nofun
    obtain ⟨p, hp, rfl, owes⟩ := there
    obtain ⟨j, hj, rfl⟩ := List.mem_map.1 hp
    refine ⟨j, hj, rfl, ?_⟩
    obtain ⟨r, made', bears, -⟩ := lends.traffic.current _ hp
    have its_own := made'.symm.trans made
    cases its_own
    obtain ⟨handle, n, task, stage⟩ := j
    cases stage with
    | ready r => exact congrArg (fun r : Request => held? r.extra) bears
    | returned v extra cleanup => exact congrArg held? bears.1
    | cleaned v extra => cases owes
  · rintro ⟨j, hj, rfl, holds⟩
    have hp : j.passage ∈ h.traffic.passages := List.mem_map_of_mem hj
    obtain ⟨r, made, bears, -⟩ := lends.traffic.current _ hp
    have careful := lends.made _ (List.mem_of_getElem? made)
    have owes : j.passage.place.owes = true ∧ held? r.extra = some session := by
      have kept := lends.jobs j hj
      obtain ⟨handle, n, task, stage⟩ := j
      cases stage with
      | ready r => exact ⟨rfl, congrArg (fun r : Request => held? r.extra) bears ▸ holds⟩
      | returned v extra cleanup => exact ⟨rfl, congrArg held? bears.1 ▸ holds⟩
      | cleaned v extra => exact absurd (holds.symm.trans kept) nofun
    obtain rfl := careful.looks_up session owes.2
    exact ⟨lends.traffic.request_lt hp, by rw [show h.made[j.request]? = _ from made]; rfl,
      (owed made).owed _ hp rfl owes.1⟩

theorem Lends.lent_count (lends : h.Lends hand) (session : SessionId) :
    h.lent.count session = (h.lookups session).length := by
  have distinct : (h.jobs.map Job.request).Nodup := by
    have distinct := lends.traffic.distinct
    rwa [Host.traffic, List.map_map] at distinct
  rw [lent, lentBy, List.count_filterMap, List.countP_eq_length_filter,
    ← List.length_map Job.request]
  refine List.Perm.length_eq ((List.perm_ext_iff_of_nodup ?_ ?_).2 fun n => ?_)
  · exact distinct.sublist (List.filter_sublist.map _)
  · exact List.nodup_range.filter _
  · rw [lends.mem_lookups, List.mem_map]
    simp only [List.mem_filter, beq_iff_eq]
    exact exists_congr fun j => by tauto

theorem Lends.activity (lends : h.Lends hand) {s : Session} (mem : s ∈ h.sessions.all) :
    s.activity = (h.lookups s.id).length + hand.count s.id := by
  rw [lends.sessions.activity mem, List.count_append, lends.lent_count]

theorem Lends.none_lent (lends : h.Lends hand) (empty : h.gateway.waiters = []) : h.lent = [] := by
  have none_left : h.jobs = [] := by
    refine List.eq_nil_iff_forall_not_mem.2 fun j hj => ?_
    have stands := lends.manned.stands j.passage (List.mem_map_of_mem hj) j.handle ?_
    · change _ ∈ h.gateway.waiters.map Waiter.entry at stands
      rw [empty] at stands
      cases stands
    · obtain ⟨handle, n, task, stage⟩ := j
      cases stage <;> rfl
  rw [lent, none_left]
  rfl

end Host
end Background
end MooCore
