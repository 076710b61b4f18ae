import MooCore.Proofs.Background.Fate
/-!
# Errands

A task in the background is on an errand: it stands in the table of waiters, or its result is in the
channel. Work that makes no requests of its own and kills nothing moves an errand from the table to
the channel and does nothing else to them.
-/

set_option autoImplicit false
namespace MooCore

/-- Nothing went wrong between the tasks and their threads. -/
def Event.isFine : Event → Bool
  | .stray .. | .reentered _ | .vanished .. | .refused _ (.alreadyWaiting _) => false
  | _ => true

def Fine (trace trace' : List Event) : Prop :=
  ∃ es, trace' = trace ++ es ∧ ∀ e ∈ es, e.isFine = true

theorem Fine.refl (trace : List Event) : Fine trace trace := ⟨[], by simp, by simp⟩

theorem Fine.trans {trace trace' trace'' : List Event} (first : Fine trace trace')
    (second : Fine trace' trace'') : Fine trace trace'' := by
  obtain ⟨es, rfl, fine⟩ := first
  obtain ⟨es', rfl, fine'⟩ := second
  refine ⟨es ++ es', List.append_assoc .., fun e he => ?_⟩
  exact (List.mem_append.1 he).elim (fine e) (fine' e)

theorem Fine.single (trace : List Event) {e : Event} (fine : e.isFine = true) :
    Fine trace (trace ++ [e]) := ⟨[e], rfl, by simpa using fine⟩

theorem Fine.subset {trace trace' : List Event} (fine : Fine trace trace') : trace ⊆ trace' := by
  obtain ⟨es, rfl, -⟩ := fine
  exact List.subset_append_left _ _

theorem Fine.all {trace trace' : List Event} (more : Fine trace trace')
    (fine : ∀ e ∈ trace, e.isFine = true) : ∀ e ∈ trace', e.isFine = true := by
  obtain ⟨es, rfl, fine'⟩ := more
  exact fun e he => (List.mem_append.1 he).elim (fine e) (fine' e)

namespace Background

variable {h h' h'' : Host} {calls : List Post} {r : Request} {task : TaskId} {handle : Handle}
  {w : Waiter} {v : Value}

theorem Event.isFine_of_isAside {e : Event} (aside : Event.isAside e = true) :
    e.isFine = true := by
  cases e <;> first | rfl | cases aside

theorem Aside.fine (aside : Aside h h') : Fine h.trace h'.trace := by
  obtain ⟨es, trace, mute⟩ := aside.trace
  exact ⟨es, trace, fun e he => Event.isFine_of_isAside (mute e he)⟩

/-! ## Calm routines -/

/-- A routine that makes no requests and kills nothing. -/
inductive Routine.Calm : Routine → Prop
  | finish (result : Value) : Calm (.finish result)
  | crash (message : Option String) : Calm (.crash message)
  | ask (q : Query) (next : q.Answer → Routine) (mild : ∀ task, q ≠ .kill task)
      (going_on : ∀ a, Calm (next a)) : Calm (.ask q next)

def Callback.Calm (callback : Callback) : Prop := ∀ handle v, (callback handle v).Calm

theorem Routine.Calm.run_aside {routine : Routine} (calm : routine.Calm) (ctx : Host.Context)
    (h : Host) : Aside h (routine.run ctx h).2 := by
  induction calm generalizing h with
  | finish v => exact Aside.refl h
  | crash message => exact Aside.refl h
  | ask q next mild _ ih => exact (h.answer_aside ctx q mild).trans (ih _ _)

theorem Callback.Calm.work_aside (calm : Callback.Calm r.callback) (h : Host)
    (handle : Option Handle) : Aside h (h.work (Host.call r.callback) handle r).2 :=
  ((calm handle r.argument).run_aside _ h).trans (Host.result_aside _ _)

/-! ## Hosts that differ in nothing but values -/

/-- Neither the waiters nor the jobs nor the results on their way are touched. -/
structure Still (h h' : Host) : Prop where
  waiters : h'.gateway.waiters = h.gateway.waiters
  jobs : h'.jobs = h.jobs
  channel : h'.channel = h.channel
  listening : h'.listening = h.listening
  trace : Fine h.trace h'.trace

theorem Still.trans (first : Still h h') (second : Still h' h'') : Still h h'' where
  waiters := second.waiters.trans first.waiters
  jobs := second.jobs.trans first.jobs
  channel := second.channel.trans first.channel
  listening := second.listening.trans first.listening
  trace := first.trace.trans second.trace

theorem Aside.still (aside : Aside h h') : Still h h' where
  waiters := by rw [aside.gateway]
  jobs := aside.jobs
  channel := aside.channel
  listening := aside.listening
  trace := aside.fine

theorem Host.note_still (h : Host) {e : Event} (fine : e.isFine = true) : Still h (h.note e) :=
  ⟨rfl, rfl, rfl, rfl, Fine.single _ fine⟩

/-- And no request has come any further. -/
structure Beside (h h' : Host) : Prop extends Still h h' where
  longest : h'.gateway.longest = h.gateway.longest
  kept : Kept h [] → Kept h' []

theorem Aside.beside (aside : Aside h h') : Beside h h' where
  toStill := aside.still
  longest := by rw [aside.gateway]
  kept := fun kept => kept.aside aside

theorem Beside.refl (h : Host) : Beside h h := (Aside.refl h).beside

theorem Beside.trans (first : Beside h h') (second : Beside h' h'') : Beside h h'' where
  toStill := first.toStill.trans second.toStill
  longest := second.longest.trans first.longest
  kept := fun kept => second.kept (first.kept kept)

theorem Host.note_beside (h : Host) {e : Event} (mute : e.mark? = none)
    (fine : e.isFine = true) : Beside h (h.note e) where
  toStill := h.note_still fine
  longest := rfl
  kept := fun kept => kept.of_books rfl (List.prefix_refl _)
    (kept.books.mute fun _ he => List.mem_singleton.1 he ▸ mute)

theorem Beside.of_same (waiters : h'.gateway.waiters = h.gateway.waiters)
    (next : h'.gateway.next = h.gateway.next) (streak : h'.gateway.streak = h.gateway.streak)
    (longest : h'.gateway.longest = h.gateway.longest) (made : h'.made = h.made)
    (trace : h'.trace = h.trace) (jobs : h'.jobs = h.jobs) (channel : h'.channel = h.channel)
    (listening : h'.listening = h.listening) : Beside h h' where
  toStill := ⟨waiters, jobs, channel, listening, trace ▸ Fine.refl _⟩
  longest := longest
  kept := fun kept => kept.same_table waiters next streak longest made trace jobs

theorem Host.dropAll_aside (h : Host) (vs : List Value) : Aside h (h.dropAll vs) :=
  .of_same rfl rfl rfl rfl rfl rfl rfl

theorem Host.buildAll_aside (h : Host) (rs : List Recipe) : Aside h (h.buildAll rs).2 := by
  induction rs generalizing h with
  | nil => exact Aside.refl h
  | cons r rs ih =>
    have built : Aside h (h.build r).2 :=
      .of_same rfl rfl rfl rfl rfl rfl rfl
    exact built.trans (ih _)

/-! ## Errands -/

/-- A task, and the handle behind which its work is done. -/
abbrev Errand := TaskId × Handle

def Waiter.errand (w : Waiter) : Errand := (w.task, w.handle)

def Completion.errand (c : Completion) : Errand := (c.task, c.handle)

def sentOn (task : TaskId) : Response → List Errand
  | .ok (.waiting handle) => [(task, handle)]
  | .ok (.immediate _) | .error _ => []

def Host.errands (h : Host) : List Errand :=
  h.gateway.waiters.map Waiter.errand ++ h.channel.map Completion.errand

theorem Still.errands (still : Still h h') : h'.errands = h.errands := by
  rw [Host.errands, still.waiters, still.channel, Host.errands]

theorem Gateway.Numbered.remove_perm {g : Gateway} (numbered : g.Numbered) (hw : w ∈ g.waiters) :
    g.waiters.Perm (w :: (g.remove w.handle).waiters) := by
  obtain ⟨before, after, split⟩ := List.append_of_mem hw
  have distinct := numbered.distinct
  rw [handles, split, List.map_append, List.map_cons] at distinct
  have apart := (List.nodup_middle.1 distinct)
  rw [List.nodup_cons, ← List.map_append] at apart
  have others : ∀ a ∈ before ++ after, a.handle ≠ w.handle :=
    fun a ha same => apart.1 (same ▸ List.mem_map_of_mem ha)
  have left : (g.remove w.handle).waiters = before ++ after := by
    rw [Gateway.remove, split]
    change List.filter _ (before ++ w :: after) = before ++ after
    rw [List.filter_append, List.filter_cons_of_neg (by simp), ← List.filter_append]
    exact List.filter_eq_self.2 fun a ha => by simpa using others a ha
  rw [left, split]
  exact List.perm_middle

/-! ## The end of a job -/

/-- What the end of a job does, where its waiter is found. -/
structure Retired (h : Host) (w : Waiter) (v : Value) (h' : Host) : Prop where
  gateway : h'.gateway = h.gateway.remove w.handle
  jobs : h'.jobs = h.jobs
  listening : h'.listening = h.listening
  channel : h'.channel = h.channel ++
    if w.active then [{ handle := w.handle, task := w.task, result := v }] else []
  trace : Fine h.trace h'.trace

theorem Host.retire_retired (found : h.gateway.waiter? w.handle = some w)
    (listening : h.listening = true) (n : Nat) (v : Value) (extra : Option Extra) :
    Retired h w v (h.retire n w.handle w.task v extra) := by
  cases active : w.active with
  | false =>
    have told : h.retire n w.handle w.task v extra =
        ((h.leave w.handle (·.note (.discarded n w.handle w.task))).drop v).dropExtra extra := by
      simp only [retire, found, active, Bool.not_false, if_true]
    have dropped := (drop_aside (h.leave w.handle (·.note (.discarded n w.handle w.task))) v).trans
      (dropExtra_aside _ extra)
    rw [told]
    refine ⟨dropped.gateway, dropped.jobs, dropped.listening, dropped.channel.trans ?_, ?_⟩
    · simp [leave, locking, note, active]
    · exact (Fine.single h.trace (e := .discarded n w.handle w.task) rfl).trans dropped.fine
  | true =>
    let c : Completion := { handle := w.handle, task := w.task, result := v }
    let gone := h.leave w.handle fun h => { h with channel := h.channel ++ [c] }.note (.sent n c)
    have told : h.retire n w.handle w.task v extra = gone.dropExtra extra := by
      simp only [retire, found, active, Bool.not_true, Bool.false_eq_true, if_false]
      rw [if_neg (by simp [listening])]
    have dropped := dropExtra_aside gone extra
    rw [told]
    refine ⟨dropped.gateway, dropped.jobs, dropped.listening, dropped.channel.trans ?_, ?_⟩
    · simp [gone, leave, locking, c, note, active]
    · exact (Fine.single h.trace (e := .sent n c) rfl).trans dropped.fine

theorem Retired.errands (retired : Retired h w v h') (numbered : h.gateway.Numbered)
    (hw : w ∈ h.gateway.waiters) :
    h.errands.Perm ((if w.active then [] else [w.errand]) ++ h'.errands) := by
  have table := (numbered.remove_perm hw).map Waiter.errand
  rw [Host.errands, Host.errands, retired.channel, retired.gateway, List.map_append]
  refine (table.append_right _).trans ?_
  cases active : w.active with
  | false => simp
  | true =>
    simp only [if_true, List.nil_append, List.map_cons, List.map_nil, ← List.append_assoc]
    exact (List.perm_append_singleton _ _).symm

/-! ## Requests -/

/-- What making a calm request does: the task is sent on an errand if it is told to wait. -/
structure Served (h : Host) (task : TaskId) (r : Request) (response : Response) (h' : Host) :
    Prop where
  waiters : ∀ w ∈ h'.gateway.waiters, w ∈ h.gateway.waiters ∨ w.active = true
  jobs : ∀ j ∈ h'.jobs, j ∈ h.jobs ∨ j.stage = .ready r
  listening : h'.listening = h.listening
  trace : Fine h.trace h'.trace
  errands : h'.errands.Perm (sentOn task response ++ h.errands)

theorem Still.served (still : Still h h') {response : Response}
    (at_home : sentOn task response = []) : Served h task r response h' where
  waiters := fun w hw => Or.inl (still.waiters ▸ hw)
  jobs := fun j hj => Or.inl (still.jobs ▸ hj)
  listening := still.listening
  trace := still.trace
  errands := by rw [still.errands, at_home, List.nil_append]

theorem Gateway.admission_refused {g : Gateway} {why : Refusal}
    (refused : g.admission task = .refused why) (at_home : g.isWaiting task = false) (n : Nat) :
    (Event.refused n why).isFine = true := by
  unfold admission at refused
  split at refused
  · cases refused; rfl
  · split at refused
    · cases refused
    · split at refused
      · rename_i against
        cases refused
        rw [objection, at_home] at against
        split at against
        · cases against; rfl
        · cases against
      · cases refused

namespace Host

theorem count_still (h : Host) (task : TaskId) (r : Request) : Still h (h.count task r).2 :=
  ⟨rfl, rfl, rfl, rfl, Fine.refl _⟩

theorem refuse_still (h : Host) (n : Nat) (e : Envelope) (why : Refusal)
    (fine : (Event.refused n why).isFine = true) : Still h (h.refuse n e why).2 :=
  (h.abandon_aside n e).still.trans (note_still _ fine)

variable (calm : Callback.Calm r.callback)

include calm in
theorem runInline_still (h : Host) (n : Nat) :
    Still h (h.runInline (call r.callback) n r).2 :=
  (calm.work_aside h none).still.trans <|
    (note_still _ rfl).trans <| (cleanUp_aside _ _ _ _).still.trans <|
      (dropExtra_aside _ _).still.trans (note_still _ rfl)

theorem enroll_errands (numbered : h.gateway.Numbered) (task : TaskId) (r : Request)
    (now : Instant) :
    (h.enroll task r now).errands.Perm ((task, h.gateway.fresh) :: h.errands) := by
  simp only [errands, enroll, numbered.register_waiters, List.map_append, List.map_cons,
    List.map_nil, Waiter.errand, List.append_assoc]
  exact List.perm_middle

theorem enroll_waiters (numbered : h.gateway.Numbered) (task : TaskId) (r : Request)
    (now : Instant) :
    ∀ w ∈ (h.enroll task r now).gateway.waiters, w ∈ h.gateway.waiters ∨ w.active = true := by
  intro w hw
  simp only [enroll, numbered.register_waiters] at hw
  rcases List.mem_append.1 hw with old | new
  · exact Or.inl old
  · exact Or.inr (List.mem_singleton.1 new ▸ rfl)

include calm in
/-- A thread that does not wait has its result in the channel before anybody waits for it. -/
theorem runAtOnce_served (numbered : h.gateway.Numbered) (listening : h.listening = true)
    (task : TaskId) (now : Instant) :
    Served h task r (.ok (.waiting h.gateway.fresh))
      (((h.enroll task r now).note (.accepted h.made.length h.gateway.fresh task)).runAtOnce
        (call r.callback) h.made.length h.gateway.fresh task r) := by
  have noted := (h.enroll task r now).note_still
    (e := .accepted h.made.length h.gateway.fresh task) rfl
  have work := calm.work_aside
    ((h.enroll task r now).note (.accepted h.made.length h.gateway.fresh task))
    (some h.gateway.fresh)
  simp only [runAtOnce]
  generalize ((h.enroll task r now).note (.accepted h.made.length h.gateway.fresh task)).work
    (call r.callback) (some h.gateway.fresh) r = done at work
  obtain ⟨v, h'⟩ := done
  dsimp only at work ⊢
  have cleaned := cleanUp_aside (h'.note (.returned h.made.length v)) h.made.length r.extra
    r.cleanup
  have still : Still (h.enroll task r now) _ :=
    noted.trans (work.still.trans ((note_still h' rfl).trans cleaned.still))
  have table := cleaned.gateway.trans work.gateway
  let w : Waiter := { handle := h.gateway.fresh, request := h.made.length, task,
                      title := r.title, started := now }
  have found := (congrArg (Gateway.waiter? · w.handle) table).trans
    (numbered.waiter?_register now h.made.length task r.title)
  have retired := retire_retired (w := w) found (still.listening.trans listening) h.made.length v
    (cleanUp (h'.note (.returned h.made.length v)) h.made.length r.extra r.cleanup).1
  have left := numbered.register_remove now h.made.length task r.title
  have waiters := (congrArg Gateway.waiters
    (retired.gateway.trans (congrArg (Gateway.remove · w.handle) table))).trans left
  change Gateway.waiters (retire _ _ h.gateway.fresh task v _).gateway = _ at waiters
  refine ⟨fun w hw => Or.inl (waiters ▸ hw), fun j hj => Or.inl ?_, ?_, ?_, ?_⟩
  · rw [retired.jobs, still.jobs] at hj
    exact hj
  · exact retired.listening.trans still.listening
  · exact still.trace.trans retired.trace
  · rw [errands, waiters, retired.channel, still.channel, List.map_append, ← List.append_assoc]
    exact List.perm_append_singleton _ _

theorem withdraw_still (numbered : h.gateway.Numbered) (task : TaskId) (r : Request)
    (now : Instant) (message : String) :
    let refused := ((h.enroll task r now).refuse h.made.length r.toEnvelope
      (.spawnFailed message)).2
    Still h (refused.leave h.gateway.fresh id) := by
  intro refused
  have still := (h.enroll task r now).refuse_still h.made.length r.toEnvelope
    (.spawnFailed message) rfl
  refine ⟨?_, still.jobs, still.channel, still.listening, still.trace⟩
  have table := (abandon_aside (h.enroll task r now) h.made.length r.toEnvelope).gateway
  change (((h.enroll task r now).abandon h.made.length r.toEnvelope).gateway.remove
    h.gateway.fresh).waiters = _
  rw [table]
  exact numbered.register_remove now h.made.length task r.title

include calm in
theorem launch_served (numbered : h.gateway.Numbered) (listening : h.listening = true)
    (task : TaskId) (now : Instant) :
    let answer :=
      (h.enroll task r now).launch (call r.callback) h.made.length h.gateway.fresh task r
    Served h task r answer.1 answer.2 := by
  unfold launch
  split
  · refine ⟨enroll_waiters numbered task r now, fun j hj => ?_, rfl, Fine.single _ rfl,
      enroll_errands numbered task r now⟩
    rcases List.mem_append.1 hj with old | new
    · exact Or.inl old
    · exact Or.inr (List.mem_singleton.1 new ▸ rfl)
  · exact runAtOnce_served calm numbered listening task now
  · exact (withdraw_still numbered task r now _).served rfl

theorem suspend_served (numbered : h.gateway.Numbered) (listening : h.listening = true)
    (calm : Callback.Calm r.callback) (at_home : h.gateway.isWaiting task = false) :
    Served h task r (h.suspend task r).1 (h.suspend task r).2 := by
  simp only [suspend, suspendBy]
  split
  · rename_i why refused
    exact ((h.count_still task r).trans (refuse_still _ _ _ _
      (Gateway.admission_refused refused at_home _))).served rfl
  · exact ((h.count_still task r).trans (runInline_still calm _ _)).served rfl
  · have clock : Still h h.now.2 := ⟨rfl, rfl, rfl, rfl, Fine.refl _⟩
    have served := launch_served (h := h.now.2) calm numbered listening task h.now.1
    exact ⟨served.waiters, served.jobs, served.listening, served.trace, served.errands⟩

end Host

/-! ## Steps of a worker -/

/-- What a step of a calm worker does: an errand is given up only if its task is no longer to be
told of its end. -/
structure Worked (h h' : Host) : Prop where
  waiters : ∀ w ∈ h'.gateway.waiters, w ∈ h.gateway.waiters
  jobs : ∀ j ∈ h'.jobs, ∀ r, j.stage = .ready r → j ∈ h.jobs
  listening : h'.listening = h.listening
  trace : Fine h.trace h'.trace
  errands : ∃ given_up : List Errand, h.errands.Perm (given_up ++ h'.errands) ∧
    ∀ x ∈ given_up, ∃ w ∈ h.gateway.waiters, w.active = false ∧ w.errand = x

theorem Still.worked (still : Still h h') : Worked h h' where
  waiters := fun w hw => still.waiters ▸ hw
  jobs := fun j hj _ _ => still.jobs ▸ hj
  listening := still.listening
  trace := still.trace
  errands := ⟨[], by rw [still.errands, List.nil_append], nofun⟩

theorem Worked.advance (worked : Worked h h') {stage : Stage} (begun : ∀ r, stage ≠ .ready r) :
    Worked h (h'.advance handle stage) := by
  refine ⟨worked.waiters, fun j hj r at_start => ?_, worked.listening, worked.trace,
    worked.errands⟩
  obtain ⟨i, there⟩ := List.mem_iff_getElem?.1 hj
  rw [Host.advance, List.getElem?_modify] at there
  obtain ⟨j', hj', same⟩ := Option.map_eq_some_iff.1 there
  split at same
  · subst same
    exact absurd at_start (begun r)
  · subst same
    exact worked.jobs j' (List.mem_of_getElem? hj') r at_start

theorem Kept.waiter_of_job (kept : Kept h []) {j : Job} (hj : j ∈ h.jobs) :
    ∃ w ∈ h.gateway.waiters, w.handle = j.handle ∧ w.task = j.task := by
  have mem : j.post ∈ h.jobs.map Job.post ++ [] :=
    List.mem_append_left _ (List.mem_map_of_mem hj)
  obtain ⟨w, hw, entry⟩ := kept.books.waiter_of_post mem rfl
  simp only [Waiter.entry, Prod.mk.injEq] at entry
  exact ⟨w, hw, entry.1, entry.2.2⟩

theorem Kept.job_of_waiter (kept : Kept h []) (hw : w ∈ h.gateway.waiters) :
    ∃ j ∈ h.jobs, j.handle = w.handle ∧ j.task = w.task := by
  obtain ⟨p, hp, handle, -, task⟩ := kept.books.post_of_waiter hw
  rw [List.append_nil] at hp
  obtain ⟨j, hj, rfl⟩ := List.mem_map.1 hp
  exact ⟨j, hj, Option.some.inj handle, task⟩

theorem Kept.step_worked (kept : Kept h []) (listening : h.listening = true)
    (calm : ∀ j ∈ h.jobs, ∀ r, j.stage = .ready r → Callback.Calm r.callback)
    (handle : Handle) : Worked h (h.step handle) := by
  unfold Host.step
  cases found : h.job? handle with
  | none => exact ⟨fun _ hw => hw, fun _ hj _ _ => hj, rfl, Fine.refl _, [], by simp, nofun⟩
  | some j =>
    have hj : j ∈ h.jobs := List.mem_of_find?_eq_some found
    obtain ⟨rfl, -⟩ := Host.job?_split found
    dsimp only
    cases stage : j.stage with
    | ready r =>
      have work := (calm j hj r stage).work_aside h (some j.handle)
      exact (work.still.trans (Host.note_still _ rfl)).worked.advance nofun
    | returned v extra cleanup => exact (h.cleanUp_aside _ extra cleanup).still.worked.advance nofun
    | cleaned v extra =>
      obtain ⟨w, hw, handle, task⟩ := kept.waiter_of_job hj
      have numbered := kept.books.numbered
      have retired := Host.retire_retired (h := h.forget j.handle)
        (Gateway.waiter?_of_mem numbered.distinct hw) listening j.request v extra
      rw [handle, task] at retired
      refine ⟨fun u hu => ?_, fun k hk _ _ => ?_, retired.listening, retired.trace,
        if w.active then [] else [w.errand], ?_, fun x hx => ⟨w, hw, ?_⟩⟩
      · rw [retired.gateway] at hu
        exact List.mem_of_mem_filter hu
      · rw [retired.jobs] at hk
        exact List.mem_of_mem_eraseP hk
      · exact retired.errands numbered hw
      · cases active : w.active with
        | true => simp [active] at hx
        | false => exact ⟨rfl, by simpa [active, eq_comm] using hx⟩

end Background
end MooCore
