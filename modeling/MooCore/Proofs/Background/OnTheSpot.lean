import MooCore.Proofs.Background.Errands
/-!
# What is done on the spot

While threads are off and requests are let in, a request is done where it is made, whatever the
limit is and whatever its callback does. Nothing comes into the table, no thread is started, and
nothing is sent.
-/

set_option autoImplicit false
namespace MooCore

/-- Whether an event is only seen of requests that get a thread or are turned down. -/
def Event.isThreaded : Event → Bool
  | .accepted .. | .refused .. | .sent .. | .discarded .. | .lost .. | .vanished .. => true
  | _ => false

namespace Background

theorem Event.isThreaded_of_isAside {e : Event} (aside : Event.isAside e = true) :
    e.isThreaded = false := by
  cases e <;> first | rfl | cases aside

/-- Threads are off, and requests are let in. -/
structure Gateway.Inline (g : Gateway) : Prop where
  off : g.threading = false
  accepting : g.accepting = true

theorem Gateway.Inline.admission {g : Gateway} (inline : g.Inline) (task : TaskId) :
    g.admission task = .inline := by
  rw [Gateway.admission, inline.accepting, inline.off]
  rfl

/-- If requests are done on the spot, no waiter, no job and no result has come in afterwards,
nothing was turned down, and requests are still done on the spot. -/
structure OnTheSpot (h h' : Host) : Prop where
  inline : h.gateway.Inline → h'.gateway.Inline
  waiters : h.gateway.Inline →
    h'.gateway.waiters.map Waiter.errand = h.gateway.waiters.map Waiter.errand
  jobs : h.gateway.Inline → h'.jobs = h.jobs
  channel : h.gateway.Inline → h'.channel = h.channel
  trace : h.gateway.Inline →
    ∃ es : List Event, h'.trace = h.trace ++ es ∧ ∀ e ∈ es, e.isThreaded = false

variable {h h' h'' : Host} {r : Request}

theorem OnTheSpot.trans (first : OnTheSpot h h') (second : OnTheSpot h' h'') : OnTheSpot h h'' where
  inline := fun inline => second.inline (first.inline inline)
  waiters := fun inline => (second.waiters (first.inline inline)).trans (first.waiters inline)
  jobs := fun inline => (second.jobs (first.inline inline)).trans (first.jobs inline)
  channel := fun inline => (second.channel (first.inline inline)).trans (first.channel inline)
  trace := fun inline => by
    obtain ⟨es, trace, mute⟩ := first.trace inline
    obtain ⟨es', trace', mute'⟩ := second.trace (first.inline inline)
    refine ⟨es ++ es', by rw [trace', trace, List.append_assoc], fun e he => ?_⟩
    exact (List.mem_append.1 he).elim (mute e) (mute' e)

/-- No request is made, no job goes on, and the limits stay as they are. -/
structure Unasked (h h' : Host) : Prop where
  made : h'.made = h.made
  jobs : h'.jobs = h.jobs
  channel : h'.channel = h.channel
  waiters : h'.gateway.waiters.map Waiter.errand = h.gateway.waiters.map Waiter.errand
  threading : h'.gateway.threading = h.gateway.threading
  accepting : h'.gateway.accepting = h.gateway.accepting
  trace : ∃ es : List Event, h'.trace = h.trace ++ es ∧ ∀ e ∈ es, e.isThreaded = false

theorem Unasked.of_same (work : (h'.made, h'.jobs, h'.channel) = (h.made, h.jobs, h.channel))
    (gateway : h'.gateway = h.gateway) (trace : h'.trace = h.trace) : Unasked h h' := by
  simp only [Prod.mk.injEq] at work
  obtain ⟨made, jobs, channel⟩ := work
  exact ⟨made, jobs, channel, by rw [gateway], by rw [gateway], by rw [gateway],
    [], by rw [trace, List.append_nil], nofun⟩

theorem Unasked.refl (h : Host) : Unasked h h := .of_same rfl rfl rfl

theorem Unasked.trans (first : Unasked h h') (second : Unasked h' h'') : Unasked h h'' := by
  obtain ⟨es, trace, mute⟩ := first.trace
  obtain ⟨es', trace', mute'⟩ := second.trace
  refine ⟨second.made.trans first.made, second.jobs.trans first.jobs,
    second.channel.trans first.channel, second.waiters.trans first.waiters,
    second.threading.trans first.threading, second.accepting.trans first.accepting,
    es ++ es', by rw [trace', trace, List.append_assoc], fun e he => ?_⟩
  exact (List.mem_append.1 he).elim (mute e) (mute' e)

theorem Unasked.onTheSpot (unasked : Unasked h h') : OnTheSpot h h' where
  inline := fun inline =>
    ⟨unasked.threading.trans inline.off, unasked.accepting.trans inline.accepting⟩
  waiters := fun _ => unasked.waiters
  jobs := fun _ => unasked.jobs
  channel := fun _ => unasked.channel
  trace := fun _ => unasked.trace

theorem Aside.unasked (aside : Aside h h') : Unasked h h' := by
  obtain ⟨es, trace, mute⟩ := aside.trace
  have gateway := aside.gateway
  exact ⟨aside.made, aside.jobs, aside.channel, by rw [gateway], by rw [gateway], by rw [gateway],
    es, trace, fun e he => Event.isThreaded_of_isAside (mute e he)⟩

theorem OnTheSpot.refl (h : Host) : OnTheSpot h h := (Unasked.refl h).onTheSpot

namespace Host

theorem note_unasked (h : Host) {e : Event} (mute : e.isThreaded = false) : Unasked h (h.note e) :=
  ⟨rfl, rfl, rfl, rfl, rfl, rfl, [e], rfl, fun _ he => List.mem_singleton.1 he ▸ mute⟩

theorem killWaiters_unasked (h : Host) (task : TaskId) : Unasked h (h.killWaiters task).2 := by
  have same : (h.killWaiters task).2.gateway.waiters.map Waiter.errand =
      h.gateway.waiters.map Waiter.errand := by
    change (h.gateway.waiters.map _).map Waiter.errand = _
    rw [List.map_map]
    refine List.map_congr_left fun w _ => ?_
    rw [Function.comp_apply]
    split <;> rfl
  refine ⟨rfl, rfl, rfl, same, rfl, rfl, _, rfl, fun e he => ?_⟩
  obtain ⟨w, -, rfl⟩ := List.mem_map.1 he
  rfl

theorem answer_unasked (h : Host) (ctx : Context) (q : Query) : Unasked h (h.answer ctx q).2 := by
  cases q with
  | kill task => exact h.killWaiters_unasked task
  | isActive | peerName | extra | make _ _ | list _ | release _ | acquire _ | noSession _
  | report _ => exact (h.answer_aside ctx _ (by intro _ same; cases same)).unasked

section
variable (calm : ∀ handle h, OnTheSpot h (call r.callback r.extra handle r.argument h).2)

include calm in
theorem runInline_onTheSpot (h : Host) (n : Nat) :
    OnTheSpot h (h.runInline (call r.callback) n r).2 := by
  have worked : OnTheSpot h (h.work (call r.callback) none r).2 :=
    (calm none h).trans (result_aside _ _).unasked.onTheSpot
  refine worked.trans ?_
  unfold runInline
  dsimp only
  generalize h.work (call r.callback) none r = done
  have noted : Unasked done.2 (done.2.note (.returned n done.1)) := done.2.note_unasked rfl
  have aside := (done.2.note (.returned n done.1)).cleanUp_aside n r.extra r.cleanup
  generalize (done.2.note (.returned n done.1)).cleanUp n r.extra r.cleanup = cleaned at aside
  have left := noted.trans (aside.unasked.trans (dropExtra_aside cleaned.2 cleaned.1).unasked)
  exact (left.trans (note_unasked _ rfl)).onTheSpot

include calm in
theorem suspend_onTheSpot_of_calm (h : Host) (task : TaskId) :
    OnTheSpot h (h.suspend task r).2 := by
  have by_hand (inline : h.gateway.Inline) : (h.suspend task r).2 =
      ((h.count task r).2.runInline (call r.callback) (h.count task r).1 r).2 := by
    have admitted : (h.count task r).2.gateway.admission task = .inline := inline.admission task
    simp only [suspend, suspendBy, admitted]
  have counted : OnTheSpot h (h.count task r).2 :=
    ⟨fun inline => inline, fun _ => rfl, fun _ => rfl, fun _ => rfl,
      fun _ => ⟨[], (List.append_nil _).symm, List.forall_mem_nil _⟩⟩
  have done := counted.trans
    (runInline_onTheSpot calm (h.count task r).2 (h.count task r).1)
  refine ⟨fun inline => ?_, fun inline => ?_, fun inline => ?_, fun inline => ?_, fun inline => ?_⟩
  all_goals rw [by_hand inline]
  · exact done.inline inline
  · exact done.waiters inline
  · exact done.jobs inline
  · exact done.channel inline
  · exact done.trace inline

end

end Host

theorem Routine.run_onTheSpot (routine : Routine) (ctx : Host.Context) (h : Host) :
    OnTheSpot h (routine.run ctx h).2 := by
  induction routine generalizing ctx h with
  | finish v | crash message => exact .refl h
  | ask q next ih => exact (h.answer_unasked ctx q).onTheSpot.trans (ih _ ctx _)
  | suspend task envelope body next inside ih =>
    have made : OnTheSpot h (h.suspend task { envelope with callback := body }).2 :=
      Host.suspend_onTheSpot_of_calm (r := { envelope with callback := body })
        (fun handle h => inside handle envelope.argument _ h) h task
    exact made.trans (ih _ ctx _)

theorem Host.suspend_onTheSpot (h : Host) (task : TaskId) (r : Request) :
    OnTheSpot h (h.suspend task r).2 :=
  suspend_onTheSpot_of_calm (fun handle h => (r.callback handle r.argument).run_onTheSpot _ h) h
    task

theorem Host.suspend_inline (inline : h.gateway.Inline) (task : TaskId) (r : Request) :
    (h.suspend task r).1 =
      .ok (.immediate ((h.count task r).2.work (call r.callback) none r).1) := by
  have admitted : (h.count task r).2.gateway.admission task = .inline := inline.admission task
  simp only [suspend, suspendBy, admitted]
  rfl

end Background
end MooCore
