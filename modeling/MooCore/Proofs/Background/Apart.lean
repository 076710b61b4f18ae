import MooCore.Background.Host
/-!
# What background work leaves alone

Whatever a callback does, on a thread or on the spot, it begins and ends no task, steps none and
kills none; it logs nobody in, and it changes neither the limit nor the mode of the threads.
-/

set_option autoImplicit false
namespace MooCore

/-- The task in whose life an event is a point: it was made, stepped, handed a result from the
channel, ended or killed. -/
def Event.life? : Event → Option TaskId
  | .created id .. | .stepped id _ | .reentered id | .delivered id | .ended id _ | .killed id _ =>
    some id
  | _ => none

/-- Whether an event is one of the scheduler's own, about its tasks and their results. Background
work sees no such event. -/
def Event.isOwn : Event → Bool
  | .created .. | .stepped .. | .reentered _ | .delivered _ | .ended .. | .killed .. | .taken _
  | .answered .. => true
  | _ => false

theorem Event.filterMap_own {α : Type} {f : Event → Option α}
    (mute : ∀ e, e.isOwn = false → f e = none) (es : List Event) :
    (es.filter Event.isOwn).filterMap f = es.filterMap f := by
  induction es with
  | nil => rfl
  | cons e es ih =>
    cases own : e.isOwn with
    | true => rw [List.filter_cons_of_pos own, List.filterMap_cons, List.filterMap_cons, ih]
    | false =>
      rw [List.filter_cons_of_neg (by simp [own]), List.filterMap_cons_none (mute e own), ih]

theorem Event.filterMap_cons {α : Type} (f : Event → Option α) (e : Event) (es : List Event) :
    (e :: es).filterMap f = (f e).toList ++ es.filterMap f := by
  rw [List.filterMap_cons]
  cases f e <;> rfl

theorem Event.life?_of_other {e : Event} (other : e.isOwn = false) : e.life? = none := by
  cases e <;> first | rfl | cases other

/-- Every session ever opened, with whether it is registered and who is logged in on it. -/
def Sessions.logins (r : Sessions) : List (SessionId × Bool × Option Obj) :=
  r.all.map fun x => (x.id, x.registered, x.player)

theorem Sessions.adjust_logins (r : Sessions) (id : SessionId) {f : Session → Session}
    (same : ∀ x, (f x).id = x.id ∧ (f x).registered = x.registered ∧ (f x).player = x.player) :
    (r.adjust id f).logins = r.logins := by
  rw [logins, logins, adjust, List.map_map]
  refine List.map_congr_left fun x _ => ?_
  rw [Function.comp_apply]
  split
  · rw [(same x).1, (same x).2.1, (same x).2.2]
  · rfl

theorem Sessions.change_logins (r : Sessions) (id : SessionId) {f : Session → Session}
    (same : ∀ x, (f x).id = x.id ∧ (f x).registered = x.registered ∧ (f x).player = x.player) :
    (r.change id f).2.logins = r.logins := by
  rw [change]
  split
  · exact r.adjust_logins id same
  · rfl

theorem Sessions.guard_logins (r : Sessions) (id : SessionId) :
    (r.guard id).2.logins = r.logins := r.change_logins id fun _ => ⟨rfl, rfl, rfl⟩

theorem Sessions.unguard_logins (r : Sessions) (id : SessionId) :
    (r.unguard id).logins = r.logins := r.adjust_logins id fun _ => ⟨rfl, rfl, rfl⟩

/-- Holds on sessions are taken and ended, and nothing else is done to the sessions. -/
inductive Sessions.Attends : Sessions → Sessions → Prop where
  | refl (r : Sessions) : Attends r r
  | guard {r r' : Sessions} (before : Attends r r') (id : SessionId) : Attends r (r'.guard id).2
  | unguard {r r' : Sessions} (before : Attends r r') (id : SessionId) : Attends r (r'.unguard id)

theorem Sessions.Attends.trans {r r' r'' : Sessions} (first : Attends r r')
    (second : Attends r' r'') : Attends r r'' := by
  induction second with
  | refl => exact first
  | guard _ id ih => exact ih.guard id
  | unguard _ id ih => exact ih.unguard id

theorem Sessions.Attends.logins {r r' : Sessions} (attends : Attends r r') :
    r'.logins = r.logins := by
  induction attends with
  | refl => rfl
  | guard _ id ih => exact (guard_logins _ id).trans ih
  | unguard _ id ih => exact (unguard_logins _ id).trans ih

namespace Background

/-- What background work leaves alone. -/
structure Apart (h h' : Host) : Prop where
  trace : ∃ es : List Event, h'.trace = h.trace ++ es ∧ ∀ e ∈ es, e.isOwn = false
  max : h'.gateway.max = h.gateway.max
  threading : h'.gateway.threading = h.gateway.threading
  sessions : h.sessions.Attends h'.sessions

variable {h h' h'' : Host} {r : Request}

theorem Apart.logins (apart : Apart h h') : h'.sessions.logins = h.sessions.logins :=
  apart.sessions.logins

theorem Apart.of_same (trace : h'.trace = h.trace) (max : h'.gateway.max = h.gateway.max)
    (threading : h'.gateway.threading = h.gateway.threading)
    (sessions : h.sessions.Attends h'.sessions) : Apart h h' :=
  ⟨⟨[], by rw [trace, List.append_nil], nofun⟩, max, threading, sessions⟩

theorem Apart.refl (h : Host) : Apart h h := .of_same rfl rfl rfl (.refl _)

theorem Apart.trans (first : Apart h h') (second : Apart h' h'') : Apart h h'' := by
  obtain ⟨es, trace, mute⟩ := first.trace
  obtain ⟨es', trace', mute'⟩ := second.trace
  refine ⟨⟨es ++ es', by rw [trace', trace, List.append_assoc], fun e he => ?_⟩,
    second.max.trans first.max, second.threading.trans first.threading,
    first.sessions.trans second.sessions⟩
  exact (List.mem_append.1 he).elim (mute e) (mute' e)

namespace Host

theorem noteAll_apart (h : Host) {es : List Event} (mute : ∀ e ∈ es, e.isOwn = false) :
    Apart h (h.noteAll es) :=
  ⟨⟨es, rfl, mute⟩, rfl, rfl, .refl _⟩

theorem note_apart (h : Host) {e : Event} (mute : e.isOwn = false) : Apart h (h.note e) :=
  h.noteAll_apart fun _ he => List.mem_singleton.1 he ▸ mute

theorem locking_apart {f : Host → Host} (apart : ∀ h, Apart h (f h)) (h : Host) :
    Apart h (h.locking f) := by
  have inside := apart { h with locked := true }
  exact ⟨inside.trace, inside.max, inside.threading, inside.sessions⟩

theorem drop_apart (h : Host) (v : Value) : Apart h (h.drop v) := .of_same rfl rfl rfl (.refl _)

theorem dropExtra_apart (h : Host) (extra : Option Extra) : Apart h (h.dropExtra extra) := by
  rcases extra with _ | v | session
  · exact Apart.refl h
  · exact h.drop_apart v
  · exact .of_same rfl rfl rfl (.unguard (.refl _) session)

theorem cleanUp_apart (h : Host) (n : Nat) (extra : Option Extra) (cleanup : Option Cleanup) :
    Apart h (h.cleanUp n extra cleanup).2 := by
  cases cleanup with
  | none => exact Apart.refl h
  | some c => exact (h.note_apart rfl).trans (dropExtra_apart _ _)

theorem abandon_apart (h : Host) (n : Nat) (e : Envelope) : Apart h (h.abandon n e) :=
  (h.cleanUp_apart n e.extra e.cleanup).trans ((drop_apart _ _).trans (dropExtra_apart _ _))

theorem result_apart (h : Host) (ending : Ending) : Apart h (h.result ending).2 := by
  cases ending with
  | ok v => exact Apart.refl h
  | error message => exact .of_same rfl rfl rfl (.refl _)

theorem killWaiters_apart (h : Host) (task : TaskId) : Apart h (h.killWaiters task).2 := by
  refine ⟨⟨_, rfl, fun e he => ?_⟩, rfl, rfl, .refl _⟩
  obtain ⟨w, -, rfl⟩ := List.mem_map.1 he
  rfl

theorem answer_apart (h : Host) (ctx : Context) (q : Query) : Apart h (h.answer ctx q).2 := by
  cases q with
  | kill task => exact h.killWaiters_apart task
  | peerName => rcases ctx with ⟨_, _ | _ | _⟩ <;> exact Apart.refl h
  | extra =>
    rcases ctx with ⟨_, _ | _ | _⟩
    · exact Apart.refl h
    · exact .of_same rfl rfl rfl (.refl _)
    · exact Apart.refl h
  | acquire session => exact .of_same rfl rfl rfl (.guard (.refl _) session)
  | noSession _ | report _ => exact h.note_apart rfl
  | isActive | make _ _ | list _ | release _ => exact .of_same rfl rfl rfl (.refl _)

theorem leave_apart {f : Host → Host} (apart : ∀ h, Apart h (f h)) (h : Host) (handle : Handle) :
    Apart h (h.leave handle f) := by
  refine locking_apart (fun h => ?_) h
  have left : Apart h { h with gateway := h.gateway.remove handle } :=
    .of_same rfl rfl rfl (.refl _)
  exact left.trans (apart _)

theorem retire_apart (h : Host) (n : Nat) (handle : Handle) (task : TaskId) (v : Value)
    (extra : Option Extra) : Apart h (h.retire n handle task v extra) := by
  refine Apart.trans ?_ (dropExtra_apart _ _)
  split
  · exact (leave_apart (fun h => h.note_apart rfl) h handle).trans (drop_apart _ _)
  · split
    · exact (leave_apart (fun h => h.note_apart rfl) h handle).trans (drop_apart _ _)
    · split
      · exact leave_apart (fun h => (h.note_apart rfl).trans (drop_apart _ _)) h handle
      · refine leave_apart (fun h => ?_) h handle
        have sent : Apart h { h with channel := h.channel ++ [{ handle, task, result := v }] } :=
          .of_same rfl rfl rfl (.refl _)
        exact sent.trans (note_apart _ rfl)

theorem refuse_apart (h : Host) (n : Nat) (e : Envelope) (why : Refusal) :
    Apart h (h.refuse n e why).2 :=
  (h.abandon_apart n e).trans (note_apart _ rfl)

theorem buildAll_apart (h : Host) (rs : List Recipe) : Apart h (h.buildAll rs).2 := by
  induction rs generalizing h with
  | nil => exact Apart.refl h
  | cons r rs ih =>
    have built : Apart h (h.build r).2 := .of_same rfl rfl rfl (.refl _)
    exact built.trans (ih _)

/-! ### Requests -/

variable (calm : ∀ handle h, Apart h (call r.callback r.extra handle r.argument h).2)

include calm in
theorem work_apart (h : Host) (handle : Option Handle) :
    Apart h (h.work (call r.callback) handle r).2 :=
  (calm handle h).trans (result_apart _ _)

include calm in
theorem runInline_apart (h : Host) (n : Nat) :
    Apart h (h.runInline (call r.callback) n r).2 :=
  (work_apart calm h none).trans ((note_apart _ rfl).trans
    ((cleanUp_apart _ n r.extra r.cleanup).trans
      ((dropExtra_apart _ _).trans (note_apart _ rfl))))

include calm in
theorem runAtOnce_apart (h : Host) (n : Nat) (handle : Handle) (task : TaskId) :
    Apart h (h.runAtOnce (call r.callback) n handle task r) :=
  (work_apart calm h (some handle)).trans ((note_apart _ rfl).trans
    ((cleanUp_apart _ n r.extra r.cleanup).trans (retire_apart _ _ _ _ _ _)))

theorem enter_apart (h : Host) (n : Nat) (task : TaskId) (title : String) :
    Apart h (h.enter n task title).2 :=
  .of_same rfl rfl rfl (.refl _)

include calm in
theorem launch_apart (h : Host) (n : Nat) (handle : Handle) (task : TaskId) :
    Apart h (h.launch (call r.callback) n handle task r).2 := by
  unfold launch
  split
  · exact ⟨⟨_, rfl, fun _ he => List.mem_singleton.1 he ▸ rfl⟩, rfl, rfl, .refl _⟩
  · exact (h.note_apart rfl).trans (runAtOnce_apart calm _ n handle task)
  · exact (h.refuse_apart n _ _).trans (leave_apart Apart.refl _ handle)

include calm in
theorem suspend_apart_of (h : Host) (task : TaskId) : Apart h (h.suspend task r).2 := by
  have counted : Apart h (h.count task r).2 := .of_same rfl rfl rfl (.refl _)
  simp only [suspend, suspendBy]
  split
  · exact counted.trans (refuse_apart _ _ _ _)
  · exact counted.trans (runInline_apart calm _ _)
  · exact counted.trans ((enter_apart _ _ _ _).trans (launch_apart calm _ _ _ _))

end Host

theorem Routine.run_apart (ctx : Host.Context) (routine : Routine) (h : Host) :
    Apart h (routine.run ctx h).2 := by
  induction routine generalizing ctx h with
  | finish v => exact Apart.refl h
  | crash message => exact Apart.refl h
  | ask q next ih => exact (h.answer_apart ctx q).trans (ih _ ctx _)
  | suspend task envelope body next inside ih =>
    have request : Apart h (h.suspend task { envelope with callback := body }).2 :=
      Host.suspend_apart_of (r := { envelope with callback := body })
        (fun handle h => inside handle envelope.argument _ h) h task
    exact request.trans (ih _ ctx _)

namespace Host

theorem call_apart (callback : Callback) (extra : Option Extra) (handle : Option Handle)
    (v : Value) (h : Host) : Apart h (call callback extra handle v h).2 :=
  (callback handle v).run_apart _ h

theorem suspend_apart (h : Host) (task : TaskId) (r : Request) :
    Apart h (h.suspend task r).2 :=
  suspend_apart_of (fun handle h => call_apart _ _ handle _ h) h task

theorem step_apart (h : Host) (handle : Handle) : Apart h (h.step handle) := by
  unfold step
  split
  · exact Apart.refl h
  · split
    · rename_i r _
      have worked := work_apart (r := r) (fun handle h => call_apart _ _ handle _ h) h (some handle)
      exact worked.trans ((note_apart _ rfl).trans (.of_same rfl rfl rfl (.refl _)))
    · exact (cleanUp_apart _ _ _ _).trans (.of_same rfl rfl rfl (.refl _))
    · have forgotten : Apart h (h.forget handle) := .of_same rfl rfl rfl (.refl _)
      exact forgotten.trans (retire_apart _ _ _ _ _ _)

theorem offer_limits (rule : TaskId → String → Verdict) (g : Gateway) (ws : List Waiter) :
    (Gateway.offer rule g ws).2.max = g.max ∧
      (Gateway.offer rule g ws).2.threading = g.threading := by
  induction ws generalizing g with
  | nil => exact ⟨rfl, rfl⟩
  | cons w ws ih =>
    rw [Gateway.offer]
    dsimp only
    split
    · exact ih g
    · exact ih (g.deactivate w.handle)
    · exact ⟨rfl, rfl⟩

theorem enumerate_apart (h : Host) (rule : TaskId → String → Verdict) :
    Apart h (h.enumerate rule).2 := by
  obtain ⟨max, threading⟩ := offer_limits rule h.gateway h.gateway.waiters
  refine ⟨⟨_, rfl, fun e he => ?_⟩, max, threading, .refl _⟩
  obtain ⟨n, -, rfl⟩ := List.mem_map.1 he
  rfl

end Host
end Background
end MooCore
