import MooCore.Proofs.Background.Keeping
/-!
# The fate of every request

Workers take their steps in any order, and between any two of them requests are made, tasks are
killed and limits change. Every request has one fate all the same.
-/

set_option autoImplicit false
namespace MooCore.Background

variable {h h' : Host} {calls : List Post} {handle : Handle} {j : Job} {before after : List Job}

/-! ## Steps of a worker -/

theorem Host.job?_split (found : h.job? handle = some j) :
    j.handle = handle ∧ ∃ before after, h.jobs = before ++ j :: after ∧
      ∀ a ∈ before, a.handle ≠ handle := by
  obtain ⟨its, before, after, split, none_before⟩ := List.find?_eq_some_iff_append.1 found
  refine ⟨by simpa using its, before, after, split, fun a ha same => ?_⟩
  exact absurd (none_before a ha) (by simp [same])

namespace Kept

theorem take (kept : Kept h calls) (split : h.jobs = before ++ j :: after) :
    Kept { h with jobs := before ++ after } (j.post :: calls) := by
  refine ⟨kept.books.perm ?_, fun a ha r at_start => kept.ready a ?_ r at_start⟩
  · rw [split]
    simp only [List.map_append, List.map_cons, List.append_assoc, List.cons_append]
    refine List.Perm.append_left _ ?_
    exact List.perm_middle.symm
  · rw [split]
    rcases List.mem_append.1 ha with ha | ha
    · exact List.mem_append_left _ ha
    · exact List.mem_append_right _ (List.mem_cons_of_mem _ ha)

theorem put (kept : Kept { h with jobs := before ++ after } (j.post :: calls))
    (begun : ∀ r, j.stage ≠ .ready r) : Kept { h with jobs := before ++ j :: after } calls := by
  refine ⟨kept.books.perm ?_, fun a ha r at_start => ?_⟩
  · simp only [List.map_append, List.map_cons, List.append_assoc, List.cons_append]
    refine List.Perm.append_left _ ?_
    exact List.perm_middle
  · rcases List.mem_append.1 ha with ha | ha
    · exact kept.ready a (List.mem_append_left _ ha) r at_start
    · rcases List.mem_cons.1 ha with rfl | ha
      · exact absurd at_start (begun r)
      · exact kept.ready a (List.mem_append_right _ ha) r at_start

theorem others (kept : Kept h calls) (split : h.jobs = before ++ j :: after) :
    ∀ a ∈ before ++ after, a.handle ≠ j.handle := by
  intro a ha same
  have head := (kept.take split).head
  refine head.handle_ne rfl (q := a.post) (List.mem_append_left _ (List.mem_map_of_mem ha)) ?_
  exact congrArg some same

end Kept

theorem modify_findIdx {α : Type} {p : α → Bool} {f : α → α} {a : α} (its : p a = true)
    {before : List α} (none_before : ∀ b ∈ before, p b = false) (after : List α) :
    (before ++ a :: after).modify ((before ++ a :: after).findIdx p) f =
      before ++ f a :: after := by
  induction before with
  | nil => simp [List.findIdx_cons, its]
  | cons b before ih =>
    have other := none_before b (List.mem_cons_self ..)
    simpa [List.findIdx_cons, other] using ih fun c hc => none_before c (List.mem_cons_of_mem _ hc)

theorem Host.advance_eq (split : h.jobs = before ++ j :: after)
    (none_before : ∀ a ∈ before, a.handle ≠ j.handle) (stage : Stage) :
    h.advance j.handle stage = { h with jobs := before ++ { j with stage } :: after } := by
  rw [Host.advance, split, modify_findIdx (by simp) (by simpa using none_before)]

theorem Host.forget_eq (split : h.jobs = before ++ j :: after)
    (none_before : ∀ a ∈ before, a.handle ≠ j.handle) :
    h.forget j.handle = { h with jobs := before ++ after } := by
  rw [Host.forget, split, List.eraseP_append_right _ (by simpa using none_before),
    List.eraseP_cons_of_pos (by simp)]

theorem Host.advance_grows (h : Host) (handle : Handle) (stage : Stage) :
    Grows h (h.advance handle stage) :=
  ⟨Nat.le_refl _, List.prefix_refl _, List.prefix_refl _, fun listening => ⟨listening, rfl⟩⟩

theorem Host.step_grows (h : Host) (handle : Handle) : Grows h (h.step handle) := by
  unfold step
  split
  · exact Grows.refl h
  · rename_i j _
    split
    · rename_i r _
      exact (work_leads (fun handle h => call_leads _ _ handle _ h) h (some handle)).grows.trans
        ((note_grows _ rfl).trans (advance_grows _ _ _))
    · exact (cleanUp_aside _ _ _ _).grows.trans (advance_grows _ _ _)
    · have forgotten : Grows h (h.forget handle) :=
        ⟨Nat.le_refl _, List.prefix_refl _, List.prefix_refl _,
          fun listening => ⟨listening, rfl⟩⟩
      exact forgotten.trans (retire_grows _ _ _ _ _ _)

theorem Kept.step (kept : Kept h calls)
    (few : (h.step handle).gateway.longest < Gateway.handleLimit) :
    Kept (h.step handle) calls := by
  unfold Host.step at few ⊢
  cases found : h.job? handle with
  | none => exact kept
  | some j =>
    obtain ⟨rfl, before, after, split, none_before⟩ := Host.job?_split found
    rw [found] at few
    simp only at few ⊢
    cases stage : j.stage with
    | ready r =>
      rw [stage] at few
      simp only at few ⊢
      have work := Host.work_leads (fun handle h => Host.call_leads r.callback r.extra handle _ h) h
        (some j.handle)
      have came := h.work_came j.request (some j.handle) r
      generalize h.work (Host.call r.callback) (some j.handle) r = done at work came few
      obtain ⟨v, h'⟩ := done
      have kept' := work.kept few calls kept
      obtain ⟨more, jobs⟩ := work.jobs
      have split' : h'.jobs = before ++ j :: (after ++ more) := by
        rw [← jobs, split, List.append_assoc, List.cons_append]
      have made : h'.made[j.request]? = some (j.task, r) :=
        kept'.ready j (by rw [split']; simp) r stage
      have undone : j.post.result = none := by simp only [Job.post, stage, Stage.result?]
      have returned := (kept'.take split').returned rfl undone (v := v) fun r' there => ?_
      · rw [Host.advance_eq (h := h'.note _) split' none_before]
        refine Kept.put returned fun _ same => ?_
        cases same
      · rw [show j.post.request = j.request from rfl, made] at there
        cases there
        exact came
    | returned v extra cleanup =>
      rw [stage] at few
      simp only at few ⊢
      have cleaned := h.cleanUp_aside j.request extra cleanup
      have kept' := kept.aside cleaned
      have split' := cleaned.jobs.trans split
      rw [Host.advance_eq split' none_before]
      refine Kept.put ?_ fun _ same => by cases same
      have post : ({ j with stage := .cleaned v (h.cleanUp j.request extra cleanup).1 } : Job).post =
          j.post := by
        simp only [Job.post, stage, Stage.result?]
      rw [post]
      exact kept'.take split'
    | cleaned v extra =>
      rw [stage] at few
      simp only at few ⊢
      have done : j.post.result = some v := by simp only [Job.post, stage, Stage.result?]
      rw [Host.forget_eq split none_before]
      exact (kept.take split).retire rfl done extra

/-! ## Runs -/

/-- One thing that happens to a host: a request is made, a worker takes its next step, waiters are
marked, the limits change, results are received, or the rest of the server goes on. -/
inductive Move where
  | suspend (task : TaskId) (r : Request)
  | step (handle : Handle)
  | kill (task : TaskId)
  | enumerate (rule : TaskId → String → Verdict)
  | setMax (n : Nat)
  | setThreading (on : Bool)
  | stopAccepting
  | receive
  | stopListening
  | setStarter (s : Starter)
  | elsewhere (w : Workspace) (l : Lobby) (clock : Instant)

def Move.carryOut (h : Host) : Move → Host
  | suspend task r => (h.suspend task r).2
  | step handle => h.step handle
  | kill task => (h.killWaiters task).2
  | enumerate rule => (h.enumerate rule).2
  | setMax n => { h with gateway := (h.gateway.setMax n).2 }
  | setThreading on => { h with gateway := (h.gateway.setThreading on).2 }
  | stopAccepting => { h with gateway := h.gateway.stopAccepting }
  | receive => h.receive.2
  | stopListening => h.stopListening
  | setStarter s => { h with starter := s }
  | elsewhere w l clock => { h with toWorkspace := w, toLobby := l, clock }

def Host.carryOut (h : Host) (moves : List Move) : Host := moves.foldl Move.carryOut h

/-- A host to which nothing has happened. -/
def Host.opened (w : Workspace) (l : Lobby) (max : Nat) (threading : Bool) : Host :=
  { w, l with gateway := { max, threading } }

theorem enumerate_grows (h : Host) (rule : TaskId → String → Verdict) :
    Grows h (h.enumerate rule).2 := by
  have grows := Host.noteAll_grows { h with gateway := (h.gateway.enumerate rule).2 }
    (Host.total_silenced (h.gateway.enumerate rule).1.silenced)
  obtain ⟨picked, -, table, -, -⟩ := Books.offer_eq rule h.gateway h.gateway.waiters
  have longest : (h.gateway.enumerate rule).2.longest = h.gateway.longest := by
    rw [Gateway.enumerate, table, Books.deactivateAll_eq]
  exact ⟨longest ▸ grows.longest, grows.made, grows.trace, grows.heard⟩

theorem Move.carryOut_grows (h : Host) (move : Move) : Grows h (move.carryOut h) := by
  have same : ∀ {h' : Host}, h'.gateway.longest = h.gateway.longest → h'.made = h.made →
      h'.trace = h.trace → (h'.listening = true → h.listening = true) → Grows h h' := by
    intro h' longest made trace listening
    exact ⟨longest.ge, by rw [made], by rw [trace], fun heard => ⟨listening heard, by rw [trace]⟩⟩
  cases move with
  | suspend task r => exact (h.suspend_deals task r).leads.grows
  | step handle => exact h.step_grows handle
  | kill task => exact (h.killWaiters_leads task).grows
  | enumerate rule => exact enumerate_grows h rule
  | setMax _ | setThreading _ | stopAccepting | receive | setStarter _ | elsewhere _ _ _ =>
    exact same rfl rfl rfl id
  | stopListening => exact same rfl rfl rfl nofun

theorem Move.carryOut_kept (kept : Kept h []) (move : Move)
    (few : (move.carryOut h).gateway.longest < Gateway.handleLimit) :
    Kept (move.carryOut h) [] := by
  cases move with
  | suspend task r => exact (h.suspend_deals task r).kept few [] kept
  | step handle => exact kept.step few
  | kill task => exact kept.killWaiters task
  | enumerate rule => exact kept.enumerate rule
  | setMax _ | setThreading _ | stopAccepting | receive | stopListening | setStarter _
  | elsewhere _ _ _ => exact kept.same_table rfl rfl rfl rfl rfl rfl rfl

theorem Host.carryOut_grows (h : Host) (moves : List Move) : Grows h (h.carryOut moves) := by
  induction moves generalizing h with
  | nil => exact Grows.refl h
  | cons move moves ih => exact (move.carryOut_grows h).trans (ih _)

theorem Kept.carryOut (kept : Kept h []) (moves : List Move)
    (few : (h.carryOut moves).gateway.longest < Gateway.handleLimit) :
    Kept (h.carryOut moves) [] := by
  induction moves generalizing h with
  | nil => exact kept
  | cons move moves ih =>
    exact ih (move.carryOut_kept kept
      ((Host.carryOut_grows _ moves).longest.trans_lt few)) few

theorem Host.opened_kept (w : Workspace) (l : Lobby) (max : Nat) (threading : Bool) :
    Kept (opened w l max threading) [] where
  books :=
    { numbered := ⟨List.nodup_nil, fun some_there => absurd rfl some_there, Nat.le_refl _⟩
      manned := List.Perm.refl _
      distinct := List.nodup_nil
      current := fun _ hp => absurd hp List.not_mem_nil
      closed := fun n task r there => by cases there
      unmade := fun _ _ => rfl
      accounted := rfl }
  ready := fun _ hj => absurd hj List.not_mem_nil

/-! ## Fates -/

theorem threads_eq (js : List Job) :
    (js.map Job.post).filterMap Post.entry = js.map fun j => (j.handle, j.request, j.task) := by
  induction js with
  | nil => rfl
  | cons j js ih =>
    rw [List.map_cons, Books.filterMap_cons_thread rfl, ih]
    rfl

theorem Kept.manned (kept : Kept h []) :
    (h.jobs.map fun j => (j.handle, j.request, j.task)).Perm
      (h.gateway.waiters.map Waiter.entry) := by
  have manned := kept.books.manned
  rwa [List.append_nil, threads_eq] at manned

theorem Kept.distinct (kept : Kept h []) : (h.jobs.map Job.request).Nodup := by
  have distinct := kept.books.distinct
  rwa [List.append_nil, List.map_map] at distinct

theorem Kept.current (kept : Kept h []) (hj : j ∈ h.jobs) :
    ∃ r, h.made[j.request]? = some (j.task, r) ∧
      Tells h.trace j.request j.task r (about j.request h.trace)
        (.waiting j.handle (h.gateway.isActive j.handle) j.stage.result?) :=
  kept.books.current j.post (List.mem_append_left _ (List.mem_map_of_mem hj))

/-- What a request is answered is what the trace says of it, and one that is turned down leaves the
waiters as they were. -/
def Reported (n : Nat) (task : TaskId) (before after : List Waiter) (trace : List Event) :
    Response → Prop
  | .error why => .refused n why ∈ trace ∧ after = before
  | .ok (.immediate v) => .immediate n v ∈ trace
  | .ok (.waiting handle) => .accepted n handle task ∈ trace

theorem Reported.mono {n : Nat} {task : TaskId} {before after : List Waiter}
    {trace trace' : List Event} {response : Response}
    (reported : Reported n task before after trace response) (more : trace <+: trace') :
    Reported n task before after trace' response := by
  match response, reported with
  | .error why, ⟨refused, same⟩ => exact ⟨more.subset refused, same⟩
  | .ok (.immediate v), immediate => exact more.subset immediate
  | .ok (.waiting handle), accepted => exact more.subset accepted

theorem mem_note (h : Host) (e : Event) : e ∈ (h.note e).trace :=
  List.mem_append_right _ (List.mem_singleton_self _)

/-- Work that comes to its argument. -/
def echoing : Request :=
  { title := "echo", argument := .int 7, callback := fun _ v => .finish v }

end MooCore.Background
