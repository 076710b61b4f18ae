import MooCore.Proofs.Background.Books
/-!
# Work that keeps the books

Callbacks may make requests and kill tasks while they run, whether on a thread or on the spot. The
books agree again at the end of everything they do, with the requests that are under way around them
still open.
-/

set_option autoImplicit false
namespace MooCore.Background

def Event.isAside : Event → Bool
  | .cleaned .. | .remark _ => true
  | _ => false

theorem Event.mark?_of_isAside {e : Event} (aside : Event.isAside e = true) : e.mark? = none := by
  cases e <;> first | rfl | cases aside

/-- What a request's work leaves behind once the values and sessions it touched are set aside. -/
structure Aside (h h' : Host) : Prop where
  gateway : h'.gateway = h.gateway
  made : h'.made = h.made
  starter : h'.starter = h.starter
  jobs : h'.jobs = h.jobs
  channel : h'.channel = h.channel
  listening : h'.listening = h.listening
  trace : ∃ es : List Event, h'.trace = h.trace ++ es ∧ ∀ e ∈ es, Event.isAside e = true

variable {h h' h'' : Host} {calls : List Post} {p : Post} {r : Request} {task : TaskId}
  {handle : Handle} {v : Value}

theorem Aside.of_same (gateway : h'.gateway = h.gateway) (made : h'.made = h.made)
    (starter : h'.starter = h.starter) (jobs : h'.jobs = h.jobs) (channel : h'.channel = h.channel)
    (listening : h'.listening = h.listening) (trace : h'.trace = h.trace) : Aside h h' :=
  ⟨gateway, made, starter, jobs, channel, listening, [], by rw [trace, List.append_nil], nofun⟩

theorem Aside.refl (h : Host) : Aside h h :=
  .of_same rfl rfl rfl rfl rfl rfl rfl

theorem Aside.trans (first : Aside h h') (second : Aside h' h'') : Aside h h'' := by
  obtain ⟨es, trace, mute⟩ := first.trace
  obtain ⟨es', trace', mute'⟩ := second.trace
  refine ⟨second.gateway.trans first.gateway, second.made.trans first.made,
    second.starter.trans first.starter, second.jobs.trans first.jobs,
    second.channel.trans first.channel, second.listening.trans first.listening, es ++ es', ?_, ?_⟩
  · rw [trace', trace, List.append_assoc]
  · intro e he
    rcases List.mem_append.1 he with he | he
    · exact mute e he
    · exact mute' e he

namespace Host

theorem note_aside (h : Host) {e : Event} (aside : Event.isAside e = true) :
    Aside h (h.note e) :=
  ⟨rfl, rfl, rfl, rfl, rfl, rfl, [e], rfl, fun _ he => List.mem_singleton.1 he ▸ aside⟩

theorem drop_aside (h : Host) (v : Value) : Aside h (h.drop v) :=
  .of_same rfl rfl rfl rfl rfl rfl rfl

theorem dropExtra_aside (h : Host) (extra : Option Extra) : Aside h (h.dropExtra extra) := by
  cases extra with
  | none => exact Aside.refl h
  | some x =>
    cases x with
    | value v => exact h.drop_aside v
    | guard s => exact .of_same rfl rfl rfl rfl rfl rfl rfl

theorem cleanUp_aside (h : Host) (n : Nat) (extra : Option Extra) (cleanup : Option Cleanup) :
    Aside h (h.cleanUp n extra cleanup).2 := by
  cases cleanup with
  | none => exact Aside.refl h
  | some c => exact (h.note_aside rfl).trans (dropExtra_aside _ _)

theorem abandon_aside (h : Host) (n : Nat) (e : Envelope) : Aside h (h.abandon n e) :=
  (h.cleanUp_aside n e.extra e.cleanup).trans ((drop_aside _ _).trans (dropExtra_aside _ _))

theorem result_aside (h : Host) (ending : Ending) : Aside h (h.result ending).2 := by
  cases ending with
  | ok v => exact Aside.refl h
  | error message => exact .of_same rfl rfl rfl rfl rfl rfl rfl

theorem answer_aside (h : Host) (ctx : Context) (q : Query) (mild : ∀ task, q ≠ .kill task) :
    Aside h (h.answer ctx q).2 := by
  have same : Aside h { h with clock := h.clock } := Aside.refl h
  cases q with
  | isActive => exact same
  | kill task => exact absurd rfl (mild task)
  | peerName => rcases ctx with ⟨_, _ | _ | _⟩ <;> exact same
  | extra =>
    rcases ctx with ⟨_, _ | _ | _⟩
    · exact same
    · exact .of_same rfl rfl rfl rfl rfl rfl rfl
    · exact same
  | make _ _ | list _ | acquire _ =>
    exact .of_same rfl rfl rfl rfl rfl rfl rfl
  | release v => exact h.drop_aside v
  | noSession _ | report _ => exact h.note_aside rfl

end Host

/-! ## Books of a host -/

def Stage.result? : Stage → Option Value
  | .ready _ => none
  | .returned v _ _ | .cleaned v _ => some v

def Job.post (j : Job) : Post :=
  { request := j.request, handle := some j.handle, task := j.task, result := j.stage.result? }

/-- The books of a host agree, with some requests under way that are no jobs. -/
structure Kept (h : Host) (calls : List Post) : Prop where
  books : Books h.gateway h.made h.trace (h.jobs.map Job.post ++ calls)
  ready : ∀ j ∈ h.jobs, ∀ r, j.stage = .ready r → h.made[j.request]? = some (j.task, r)

namespace Kept

theorem head (kept : Kept h (p :: calls)) :
    Books h.gateway h.made h.trace (p :: (h.jobs.map Job.post ++ calls)) :=
  kept.books.perm List.perm_middle

theorem of_books (kept : Kept h calls) {calls' : List Post} (jobs : h'.jobs = h.jobs)
    (made : h.made <+: h'.made)
    (books : Books h'.gateway h'.made h'.trace (h.jobs.map Job.post ++ calls')) :
    Kept h' calls' := by
  refine ⟨by rw [jobs]; exact books, fun j hj r ready => ?_⟩
  rw [jobs] at hj
  obtain ⟨more, made⟩ := made
  have there := kept.ready j hj r ready
  rw [← made, List.getElem?_append_left (List.getElem?_eq_some_iff.1 there).1, there]

theorem same_table (kept : Kept h calls) (waiters : h'.gateway.waiters = h.gateway.waiters)
    (next : h'.gateway.next = h.gateway.next) (streak : h'.gateway.streak = h.gateway.streak)
    (longest : h'.gateway.longest = h.gateway.longest) (made : h'.made = h.made)
    (trace : h'.trace = h.trace) (jobs : h'.jobs = h.jobs) : Kept h' calls := by
  refine kept.of_books jobs (by rw [made]) ?_
  rw [made, trace]
  refine kept.books.relabel (kept.books.numbered.of_sublist ?_ next streak longest) waiters
  rw [Gateway.handles, waiters, Gateway.handles]

theorem aside (kept : Kept h calls) (aside : Aside h h') : Kept h' calls := by
  obtain ⟨es, trace, mute⟩ := aside.trace
  refine kept.of_books aside.jobs (by rw [aside.made]) ?_
  rw [aside.gateway, aside.made, trace]
  exact kept.books.mute fun e he => Event.mark?_of_isAside (mute e he)

theorem ask (kept : Kept h calls) (task : TaskId) (r : Request) :
    Kept (h.count task r).2 ({ request := h.made.length, handle := none, task } :: calls) := by
  refine kept.of_books rfl (List.prefix_append _ _) ?_
  exact (kept.books.ask task r).perm List.perm_middle.symm

theorem refuse (kept : Kept h (p :: calls)) (spot : p.handle = none) (undone : p.result = none)
    (e : Envelope) (why : Refusal) : Kept (h.refuse p.request e why).2 calls := by
  have kept' := kept.aside (h.abandon_aside p.request e)
  exact kept'.of_books rfl (List.prefix_refl _) (kept'.head.refuse spot undone why)

theorem worked (kept : Kept h (p :: calls)) (spot : p.handle = none) (undone : p.result = none)
    (came : ∀ r, h.made[p.request]? = some (p.task, r) →
      r.CameTo p.request none (h.trace ++ [.returned p.request v]) v) :
    Kept (h.note (.returned p.request v)) ({ p with result := some v } :: calls) :=
  kept.of_books rfl (List.prefix_refl _)
    ((kept.head.worked spot undone came).perm List.perm_middle.symm)

theorem immediate (kept : Kept h (p :: calls)) (spot : p.handle = none)
    (done : p.result = some v) : Kept (h.note (.immediate p.request v)) calls :=
  kept.of_books rfl (List.prefix_refl _) (kept.head.immediate spot done)

theorem returned (kept : Kept h (p :: calls)) (thread : p.handle = some handle)
    (undone : p.result = none)
    (came : ∀ r, h.made[p.request]? = some (p.task, r) →
      r.CameTo p.request (some handle) (h.trace ++ [.returned p.request v]) v) :
    Kept (h.note (.returned p.request v)) ({ p with result := some v } :: calls) :=
  kept.of_books rfl (List.prefix_refl _)
    ((kept.head.returned thread undone came).perm List.perm_middle.symm)

theorem accept (kept : Kept h (p :: calls)) (spot : p.handle = none) (undone : p.result = none)
    (now : Instant) (title : String)
    (few : (h.gateway.register now p.request p.task title).2.longest < Gateway.handleLimit) :
    Kept ({ h with gateway := (h.gateway.register now p.request p.task title).2 }.note
      (.accepted p.request h.gateway.fresh p.task))
      ({ p with handle := some h.gateway.fresh } :: calls) :=
  kept.of_books rfl (List.prefix_refl _)
    ((kept.head.accept spot undone now title few).perm List.perm_middle.symm)

/-- A thread that reports back finds its waiter. -/
theorem retire (kept : Kept h (p :: calls)) (thread : p.handle = some handle)
    (done : p.result = some v) (extra : Option Extra) :
    Kept (h.retire p.request handle p.task v extra) calls := by
  have books := kept.head
  obtain ⟨w, hw, entry⟩ := books.waiter_of_post (List.mem_cons_self ..) thread
  simp only [Waiter.entry, Prod.mk.injEq] at entry
  obtain ⟨rfl, -, -⟩ := entry
  have found := Gateway.waiter?_of_mem books.numbered.distinct hw
  have active := Gateway.isActive_of_mem books.numbered.distinct hw
  have chapter : p.chapter h.gateway = .waiting w.handle w.active (some v) := by
    simp only [Post.chapter, thread, done, active]
  simp only [Host.retire, found]
  cases wanted : w.active with
  | false =>
    rw [wanted] at chapter
    refine Kept.aside ?_ ((Host.drop_aside _ _).trans (Host.dropExtra_aside _ _))
    refine kept.of_books rfl (List.prefix_refl _) (books.retire thread rfl (by decide) ?_)
    intro r es told
    rw [chapter] at told
    exact ⟨.discarded, trivial, told.discarded⟩
  | true =>
    rw [wanted] at chapter
    cases heard : h.listening with
    | false =>
      refine Kept.aside ?_ (Host.dropExtra_aside _ _)
      refine kept.of_books rfl (List.prefix_refl _) (books.retire thread rfl (by decide) ?_)
      intro r es told
      rw [chapter] at told
      exact ⟨.lost, trivial, told.lost⟩
    | true =>
      refine Kept.aside ?_ (Host.dropExtra_aside _ _)
      refine kept.of_books rfl (List.prefix_refl _) (books.retire thread rfl (by decide) ?_)
      intro r es told
      rw [chapter] at told
      exact ⟨.sent, trivial, told.sent⟩

theorem killWaiters (kept : Kept h calls) (task : TaskId) : Kept (h.killWaiters task).2 calls :=
  kept.of_books rfl (List.prefix_refl _) (kept.books.kill task)

theorem enumerate (kept : Kept h calls) (rule : TaskId → String → Verdict) :
    Kept (h.enumerate rule).2 calls :=
  kept.of_books rfl (List.prefix_refl _) (kept.books.enumerate rule)

end Kept

/-! ## Callbacks -/

/-- The trace, the list of requests and the longest streak only grow, and nothing is lost as long as
somebody listens. -/
structure Grows (h h' : Host) : Prop where
  longest : h.gateway.longest ≤ h'.gateway.longest
  made : h.made <+: h'.made
  trace : h.trace <+: h'.trace
  heard : h'.listening = true → h.listening = true ∧ total .lost h'.trace = total .lost h.trace

theorem Grows.trans (first : Grows h h') (second : Grows h' h'') : Grows h h'' where
  longest := first.longest.trans second.longest
  made := first.made.trans second.made
  trace := first.trace.trans second.trace
  heard := fun listening => by
    obtain ⟨listening', same'⟩ := second.heard listening
    obtain ⟨listening'', same⟩ := first.heard listening'
    exact ⟨listening'', same'.trans same⟩

theorem Aside.grows (aside : Aside h h') : Grows h h' := by
  obtain ⟨es, trace, mute⟩ := aside.trace
  refine ⟨by rw [aside.gateway], by rw [aside.made], ?_, fun listening => ?_⟩
  · rw [trace]
    exact List.prefix_append _ _
  · rw [aside.listening] at listening
    rw [trace, total_append, total_mute (fun e he => Event.mark?_of_isAside (mute e he)) .lost]
    exact ⟨listening, rfl⟩

theorem Grows.refl (h : Host) : Grows h h := (Aside.refl h).grows

/-- What a callback may do to a host while it runs. -/
structure Leads (h h' : Host) : Prop where
  grows : Grows h h'
  jobs : h.jobs <+: h'.jobs
  kept : h'.gateway.longest < Gateway.handleLimit → ∀ calls, Kept h calls → Kept h' calls

theorem Leads.trans (first : Leads h h') (second : Leads h' h'') : Leads h h'' where
  grows := first.grows.trans second.grows
  jobs := first.jobs.trans second.jobs
  kept := fun few calls kept =>
    second.kept few calls (first.kept (second.grows.longest.trans_lt few) calls kept)

theorem Aside.leads (aside : Aside h h') : Leads h h' :=
  ⟨aside.grows, by rw [aside.jobs], fun _ _ kept => kept.aside aside⟩

theorem Leads.refl (h : Host) : Leads h h := (Aside.refl h).leads

namespace Host

theorem note_grows (h : Host) {e : Event} (other : total .lost [e] = 0) : Grows h (h.note e) :=
  ⟨Nat.le_refl _, List.prefix_refl _, List.prefix_append _ _,
    fun listening => ⟨listening, by rw [note, total_append, other, Nat.add_zero]⟩⟩

theorem leave_grows (h : Host) (handle : Handle) {e : Event} (other : total .lost [e] = 0) :
    Grows h (h.leave handle (·.note e)) :=
  ⟨Nat.le_refl _, List.prefix_refl _, List.prefix_append _ _,
    fun listening => ⟨listening, (h.note_grows other).heard listening |>.2⟩⟩

theorem retire_grows (h : Host) (n : Nat) (handle : Handle) (task : TaskId) (v : Value)
    (extra : Option Extra) : Grows h (h.retire n handle task v extra) := by
  refine Grows.trans ?_ (dropExtra_aside _ _).grows
  split
  · exact (h.leave_grows handle rfl).trans (drop_aside _ _).grows
  · split
    · exact (h.leave_grows handle rfl).trans (drop_aside _ _).grows
    · split
      · rename_i unheard
        refine ⟨Nat.le_refl _, List.prefix_refl _, List.prefix_append _ _, fun listening => ?_⟩
        change h.listening = true at listening
        simp [listening] at unheard
      · refine ⟨Nat.le_refl _, List.prefix_refl _, List.prefix_append _ _, fun listening => ?_⟩
        exact ⟨listening, total_append _ _ _⟩

theorem retire_jobs (h : Host) (n : Nat) (handle : Handle) (task : TaskId) (v : Value)
    (extra : Option Extra) : (h.retire n handle task v extra).jobs = h.jobs := by
  refine (dropExtra_aside _ _).jobs.trans ?_
  split
  · exact (drop_aside _ _).jobs
  · split
    · exact (drop_aside _ _).jobs
    · split <;> rfl

theorem noteAll_grows (h : Host) {es : List Event} (other : total .lost es = 0) :
    Grows h (h.noteAll es) :=
  ⟨Nat.le_refl _, List.prefix_refl _, List.prefix_append _ _,
    fun listening => ⟨listening, by rw [noteAll, total_append, other, Nat.add_zero]⟩⟩

theorem total_silenced (ns : List Nat) : total .lost (ns.map Event.silenced) = 0 :=
  List.countP_eq_zero.2 fun e he => by
    obtain ⟨n, -, rfl⟩ := List.mem_map.1 he
    simp [Event.mark?]

theorem killWaiters_leads (h : Host) (task : TaskId) : Leads h (h.killWaiters task).2 := by
  have marked := total_silenced ((h.gateway.waiters.filter (·.task = task)).map Waiter.request)
  rw [List.map_map] at marked
  have grows := noteAll_grows { h with gateway := (h.gateway.kill task).2 } marked
  exact ⟨⟨grows.longest, grows.made, grows.trace, grows.heard⟩, List.prefix_refl _,
    fun _ _ kept => kept.killWaiters task⟩

theorem answer_leads (h : Host) (ctx : Context) (q : Query) : Leads h (h.answer ctx q).2 := by
  cases q with
  | kill task => exact h.killWaiters_leads task
  | isActive | peerName | extra | make _ _ | list _ | release _ | acquire _ | noSession _
  | report _ => exact (h.answer_aside ctx _ (by intro _ same; cases same)).leads

/-! ### Requests -/

variable (calm : ∀ handle h, Leads h (call r.callback r.extra handle r.argument h).2)

include calm in
theorem work_leads (h : Host) (handle : Option Handle) :
    Leads h (h.work (call r.callback) handle r).2 :=
  (calm handle h).trans (result_aside _ _).leads

theorem count_grows (h : Host) (task : TaskId) (r : Request) : Grows h (h.count task r).2 :=
  ⟨Nat.le_refl _, List.prefix_append _ _, List.prefix_refl _, fun listening => ⟨listening, rfl⟩⟩

/-- What making a request may do to a host. -/
structure Deals (h : Host) (task : TaskId) (r : Request) (h' : Host) : Prop where
  grows : Grows (h.count task r).2 h'
  jobs : h.jobs <+: h'.jobs
  kept : h'.gateway.longest < Gateway.handleLimit → ∀ calls, Kept h calls → Kept h' calls

theorem Deals.leads {h h' : Host} {task : TaskId} (deals : Deals h task r h') : Leads h h' :=
  ⟨(h.count_grows task r).trans deals.grows, deals.jobs, deals.kept⟩

theorem Deals.made {h h' : Host} {task : TaskId} (deals : Deals h task r h') :
    h'.made[h.made.length]? = some (task, r) := by
  obtain ⟨more, made⟩ := deals.grows.made
  rw [← made]
  simp [count]

theorem refuse_deals (h : Host) (task : TaskId) (r : Request) (why : Refusal) :
    Deals h task r ((h.count task r).2.refuse h.made.length r.toEnvelope why).2 := by
  have given := abandon_aside (h.count task r).2 h.made.length r.toEnvelope
  refine ⟨given.grows.trans (note_grows _ rfl), ?_, ?_⟩
  · change h.jobs <+: (Host.abandon (h.count task r).2 h.made.length r.toEnvelope).jobs
    rw [given.jobs]
    exact List.prefix_refl _
  · exact fun _ calls kept => (kept.ask task r).refuse rfl rfl r.toEnvelope why

include calm in
theorem runInline_deals (h : Host) (task : TaskId) :
    Deals h task r ((h.count task r).2.runInline (call r.callback) h.made.length r).2 := by
  have work := work_leads calm (h.count task r).2 none
  have came := (h.count task r).2.work_came h.made.length none r
  simp only [runInline]
  generalize (h.count task r).2.work (call r.callback) none r = done at work came
  obtain ⟨v, h'⟩ := done
  let cleaned := (h'.note (.returned h.made.length v)).cleanUp h.made.length r.extra r.cleanup
  have finished : Aside (h'.note (.returned h.made.length v)) (cleaned.2.dropExtra cleaned.1) :=
    (cleanUp_aside _ _ _ _).trans (dropExtra_aside _ _)
  refine ⟨work.grows.trans ((note_grows _ rfl).trans (finished.grows.trans (note_grows _ rfl))), ?_,
    fun few calls kept => ?_⟩
  · change h.jobs <+: (cleaned.2.dropExtra cleaned.1).jobs
    rw [finished.jobs]
    exact work.jobs
  · have few' : h'.gateway.longest < Gateway.handleLimit :=
      (finished.grows.longest).trans_lt few
    have kept' := work.kept few' _ (kept.ask task r)
    have worked := kept'.worked rfl rfl (v := v) fun r' there => ?_
    · exact (worked.aside finished).immediate rfl rfl
    · have made : h'.made[h.made.length]? = some (task, r) := by
        obtain ⟨more, made⟩ := work.grows.made
        rw [← made]
        simp [count]
      rw [made] at there
      cases there
      exact came

include calm in
theorem runAtOnce_grows (h : Host) (n : Nat) (handle : Handle) (task : TaskId) :
    Grows h (h.runAtOnce (call r.callback) n handle task r) ∧
      h.jobs <+: (h.runAtOnce (call r.callback) n handle task r).jobs := by
  have work := work_leads calm h (some handle)
  simp only [runAtOnce]
  generalize h.work (call r.callback) (some handle) r = done at work
  obtain ⟨v, h'⟩ := done
  have cleaned := cleanUp_aside (h'.note (.returned n v)) n r.extra r.cleanup
  refine ⟨work.grows.trans <| (note_grows _ rfl).trans <|
      cleaned.grows.trans (retire_grows _ _ _ _ _ _),
    ?_⟩
  rw [retire_jobs, cleaned.jobs]
  exact work.jobs

include calm in
theorem runAtOnce_kept {h : Host} (kept : Kept h (p :: calls)) (thread : p.handle = some handle)
    (undone : p.result = none) (its : h.made[p.request]? = some (p.task, r))
    (few : (h.runAtOnce (call r.callback) p.request handle p.task r).gateway.longest <
      Gateway.handleLimit) :
    Kept (h.runAtOnce (call r.callback) p.request handle p.task r) calls := by
  have work := work_leads calm h (some handle)
  have came := h.work_came p.request (some handle) r
  simp only [runAtOnce] at few ⊢
  generalize h.work (call r.callback) (some handle) r = done at work came few
  obtain ⟨v, h'⟩ := done
  have cleaned := cleanUp_aside (h'.note (.returned p.request v)) p.request r.extra r.cleanup
  have few' : h'.gateway.longest < Gateway.handleLimit :=
    (cleaned.grows.trans (retire_grows _ _ _ _ _ _)).longest.trans_lt few
  have returned := (work.kept few' _ kept).returned thread undone (v := v) fun r' there => ?_
  · exact (returned.aside cleaned).retire thread rfl _
  · have made : h'.made[p.request]? = some (p.task, r) := by
      obtain ⟨more, made⟩ := work.grows.made
      rw [← made, List.getElem?_append_left (List.getElem?_eq_some_iff.1 its).1, its]
    rw [made] at there
    cases there
    exact came

def enroll (h : Host) (task : TaskId) (r : Request) (now : Instant) : Host :=
  { (h.count task r).2 with
    gateway := (h.gateway.register now h.made.length task r.title).2
    locked := false }

theorem enroll_grows (h : Host) (task : TaskId) (r : Request) (now : Instant) :
    Grows (h.count task r).2 (h.enroll task r now) :=
  ⟨Gateway.register_longest _ _ _ _ _, List.prefix_refl _, List.prefix_refl _,
    fun listening => ⟨listening, rfl⟩⟩

theorem enroll_kept {h : Host} (kept : Kept h calls) (task : TaskId) (r : Request) (now : Instant)
    (few : (h.enroll task r now).gateway.longest < Gateway.handleLimit) :
    Kept ((h.enroll task r now).note (.accepted h.made.length h.gateway.fresh task))
      ({ request := h.made.length, handle := some h.gateway.fresh, task } :: calls) :=
  ((kept.ask task r).accept rfl rfl now r.title few).aside (.of_same rfl rfl rfl rfl rfl rfl rfl)

theorem enroll_made (h : Host) (task : TaskId) (r : Request) (now : Instant) :
    (h.enroll task r now).made[h.made.length]? = some (task, r) := by
  simp [enroll, count]

theorem post_kept {h : Host} {j : Job} (kept : Kept h (j.post :: calls))
    (ready : ∀ r, j.stage = .ready r → h.made[j.request]? = some (j.task, r)) :
    Kept { h with jobs := h.jobs ++ [j] } calls := by
  refine ⟨?_, fun j' hj' r' at_start => ?_⟩
  · rw [List.map_append, List.append_assoc]
    exact kept.books
  · rcases List.mem_append.1 hj' with old | new
    · exact kept.ready j' old r' at_start
    · cases List.mem_singleton.1 new
      exact ready r' at_start

theorem abandon_gateway (h : Host) (g : Gateway) (n : Nat) (e : Envelope) :
    { h with gateway := g }.abandon n e = { h.abandon n e with gateway := g } := by
  rcases e with ⟨_, _, _ | _ | _, _ | _⟩ <;> rfl

theorem withdraw_kept {h : Host} (kept : Kept h calls) (task : TaskId) (r : Request) (now : Instant)
    (few : (h.enroll task r now).gateway.longest < Gateway.handleLimit) (why : Refusal) :
    let refused := ((h.enroll task r now).refuse h.made.length r.toEnvelope why).2
    Kept (refused.leave h.gateway.fresh id) calls := by
  have numbered := kept.books.numbered
  let g := (h.enroll task r now).gateway.remove h.gateway.fresh
  have asked := kept.ask task r
  have relabelled : Kept { (h.count task r).2 with gateway := g, locked := false }
      ({ request := h.made.length, handle := none, task } :: calls) :=
    asked.of_books rfl (List.prefix_refl _) (asked.books.relabel
      ((numbered.register now h.made.length task r.title few).remove _)
      (numbered.register_remove now h.made.length task r.title))
  have refused := relabelled.refuse rfl rfl r.toEnvelope why
  have table := (abandon_aside (h.enroll task r now) h.made.length r.toEnvelope).gateway
  have same := abandon_gateway { (h.count task r).2 with locked := false }
  intro withdrawn
  change Kept { ((h.enroll task r now).abandon h.made.length r.toEnvelope).note
    (.refused h.made.length why) with
    gateway := ((h.enroll task r now).abandon h.made.length r.toEnvelope).gateway.remove
      h.gateway.fresh
    locked := false } calls
  rw [table, enroll, same]
  rw [refuse, same] at refused
  exact refused.aside (.of_same rfl rfl rfl rfl rfl rfl rfl)

include calm in
/-- A request that gets its waiter. -/
theorem launch_deals (h : Host) (task : TaskId) (now : Instant) :
    Deals h task r
      ((h.enroll task r now).launch (call r.callback) h.made.length h.gateway.fresh task r).2
    := by
  have enrolled := h.enroll_grows task r now
  unfold launch
  split
  · have accepted := note_grows (h.enroll task r now)
      (e := .accepted h.made.length h.gateway.fresh task) rfl
    refine ⟨enrolled.trans ⟨accepted.longest, accepted.made, accepted.trace, accepted.heard⟩,
      List.prefix_append _ _, fun few calls kept => ?_⟩
    let job : Job :=
      { handle := h.gateway.fresh, request := h.made.length, task, stage := .ready r }
    have its : Kept _ (job.post :: calls) := enroll_kept kept task r now few
    refine post_kept its fun r' at_start => ?_
    cases at_start
    exact h.enroll_made task r now
  · obtain ⟨grows, jobs⟩ := runAtOnce_grows calm
      ((h.enroll task r now).note (.accepted h.made.length h.gateway.fresh task))
      h.made.length h.gateway.fresh task
    refine ⟨enrolled.trans ((note_grows _ rfl).trans grows), jobs, fun few calls kept => ?_⟩
    exact runAtOnce_kept calm
      (enroll_kept kept task r now (((note_grows _ rfl).trans grows).longest.trans_lt few)) rfl rfl
      (h.enroll_made task r now) few
  · rename_i message _
    have given := abandon_aside (h.enroll task r now) h.made.length r.toEnvelope
    refine ⟨?_, ?_, fun few calls kept => ?_⟩
    · have refused := given.grows.trans
        (note_grows _ (e := .refused h.made.length (.spawnFailed message)) rfl)
      exact enrolled.trans ⟨refused.longest, refused.made, refused.trace, refused.heard⟩
    · change h.jobs <+: ((h.enroll task r now).abandon h.made.length r.toEnvelope).jobs
      rw [given.jobs]
      exact List.prefix_refl _
    · exact withdraw_kept kept task r now (given.grows.longest.trans_lt few) (.spawnFailed message)

include calm in
theorem suspend_deals_of_calm (h : Host) (task : TaskId) : Deals h task r (h.suspend task r).2 := by
  simp only [suspend, suspendBy]
  split
  · exact h.refuse_deals task r _
  · exact runInline_deals calm h task
  · have clock : Aside h h.now.2 :=
      .of_same rfl rfl rfl rfl rfl rfl rfl
    have launched := launch_deals calm h.now.2 task h.now.1
    have grows := launched.grows
    exact ⟨⟨grows.longest, grows.made, grows.trace, grows.heard⟩, launched.jobs,
      fun few calls kept => launched.kept few calls (kept.aside clock)⟩

end Host

theorem Routine.run_leads (ctx : Host.Context) (routine : Routine) (h : Host) :
    Leads h (routine.run ctx h).2 := by
  induction routine generalizing ctx h with
  | finish v => exact Leads.refl h
  | crash message => exact Leads.refl h
  | ask q next ih => exact (h.answer_leads ctx q).trans (ih _ ctx _)
  | suspend task envelope body next inside ih =>
    have request : Leads h (h.suspend task { envelope with callback := body }).2 :=
      (Host.suspend_deals_of_calm (r := { envelope with callback := body })
        (fun handle h => inside handle envelope.argument _ h) h task).leads
    exact request.trans (ih _ ctx _)

theorem Host.call_leads (callback : Callback) (extra : Option Extra) (handle : Option Handle)
    (v : Value) (h : Host) : Leads h (call callback extra handle v h).2 :=
  (callback handle v).run_leads _ h

theorem Host.suspend_deals (h : Host) (task : TaskId) (r : Request) :
    Deals h task r (h.suspend task r).2 :=
  suspend_deals_of_calm (fun handle h => call_leads _ _ handle _ h) h task

end MooCore.Background
