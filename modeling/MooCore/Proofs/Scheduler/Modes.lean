import Mathlib
import MooCore.Proofs.Scheduler.Alone
/-!
# With and without threads

A task that asks for one thing after another is told the same and ends in the same way whether its
requests are done on the spot, in one step, or on threads that come back in any order. On the spot,
nothing comes into the table or the channel for it, and no limit turns it down.
-/

set_option autoImplicit false
namespace MooCore
open Background

theorem heard_of_points {id : TaskId} {es es' : List Event} (same : points id es' = points id es) :
    heard id es' = heard id es := by
  rw [← heard_points id es', same, heard_points]

namespace Scheduler

variable {c : Caller} {s : Scheduler} {act : Act} {told : List Shape} {out : Except String Shape}

/-! ## One step on the spot -/

theorem run_seen (c : Caller) (act : Act) (s : Scheduler) :
    s.trace <+: (act.run c s).2.trace := by
  obtain ⟨ids, run⟩ := (Work.run_turns c act s []).run
  obtain ⟨es, trace, -⟩ := run.enters
  exact ⟨es, trace.symm⟩

theorem move_seen (c : Caller) (act : Act) (s : Scheduler) :
    (act.move c s).2.trace <+: (act.run c s).2.trace := by
  rw [Act.run_eq]
  generalize act.move c s = moved
  obtain ⟨act' | outcome, s'⟩ := moved
  · exact run_seen c act' s'
  · exact List.prefix_refl _

theorem perform_onTheSpot (s : Scheduler) {e : Effect} (off : e.turnsOn = false) :
    OnTheSpot s.toHost (s.perform e).2.toHost := by
  cases e with
  | setThreading on =>
    obtain rfl : on = false := off
    exact ⟨fun inline => ⟨rfl, inline.accepting⟩, fun _ => rfl, fun _ => rfl, fun _ => rfl,
      fun _ => ⟨[], (List.append_nil _).symm, nofun⟩⟩
  | setMaxThreads n =>
    exact ⟨fun inline => ⟨inline.off, inline.accepting⟩, fun _ => rfl, fun _ => rfl, fun _ => rfl,
      fun _ => ⟨[], (List.append_nil _).symm, nofun⟩⟩
  | kill task =>
    rw [perform]
    split <;> exact Unasked.onTheSpot (.of_same rfl rfl rfl)
  | remark r => exact (s.toHost.note_unasked rfl).onTheSpot
  | _ => exact Unasked.onTheSpot (.of_same rfl rfl rfl)

theorem takeBody_there {id : TaskId} {resumed : Option Value}
    (there : (s.tasks.get? id).isSome = true) :
    ((s.takeBody id resumed).tasks.get? id).isSome = true := by
  have kept : ((s.tasks.update id fun t => { t with body := none }).get? id).isSome = true := by
    rw [Named.get?_update_isSome]
    exact there
  exact kept

theorem takeBody_heard (s : Scheduler) (id : TaskId) (resumed : Option Value) :
    heard id (s.takeBody id resumed).trace = heard id s.trace ++ resumed.toList :=
  (heard_append ..).trans (congrArg _ (heard_stepped id resumed))

/-- How a step is done on the spot: it comes to its end, told the results that were to be given. -/
structure AtOnce (c : Caller) (told : List Shape) (out : Except String Shape) (s : Scheduler)
    (done : StepOutcome × Scheduler) : Prop where
  ends : ∃ result, done.1 = .finished result ∧ result.map Value.shape = out
  heard : (heard c.task done.2.trace).map Value.shape =
    (heard c.task s.trace).map Value.shape ++ told
  spot : OnTheSpot s.toHost done.2.toHost

theorem finish_atOnce (born : c.task ≤ s.lastTask) {t : Task}
    (there : s.tasks.get? c.task = some t) {result : Except String Value}
    (ends : result.map Value.shape = out)
    (alive : ¬ WasKilled c.task (s.finish c.task result).2.trace) :
    AtOnce c [] out s (s.finish c.task result) where
  ends := ⟨result, rfl, ends⟩
  heard := by
    have spares : Spares c.task
        ({ s with tasks := s.tasks.erase c.task }.note (.ended c.task result))
        (s.finish c.task result).2 :=
      Chores.beside (s.ended_chores c.task result there)
    have same := heard_of_points (spares.untouched born alive).points
    have unheard : heard c.task (s.trace ++ [.ended c.task result]) = heard c.task s.trace := by
      simp [heard, Event.resumed?]
    rw [same, List.append_nil]
    exact congrArg _ unheard
  spot := (s.finish_unasked c.task result).onTheSpot

theorem background_inline {envelope : Envelope} {callback : Callback} {held : List Value}
    {next : Caller → Input → Act} (inline : s.gateway.Inline) (born : c.task ≤ s.lastTask)
    (there : (s.tasks.get? c.task).isSome = true)
    (alive : ¬ WasKilled c.task ((Act.background envelope callback held next).move c s).2.trace) :
    ∃ (h : Host) (s' : Scheduler) (v : Value),
      (h.work (Host.call callback) none { envelope with callback }).1 = v ∧
      (Act.background envelope callback held next).move c s =
        (.inl (next c (.resume v)), s'.takeBody c.task (some v)) ∧
      OnTheSpot s.toHost s'.toHost ∧ c.task ≤ s'.lastTask ∧
      (s'.tasks.get? c.task).isSome = true ∧ points c.task s'.trace = points c.task s.trace := by
  rw [move_background_eq] at alive ⊢
  have home : ((s.putBack c.task held next).tasks.get? c.task).isSome = true := by
    rw [putBack, updateTask]
    dsimp only
    rw [Named.get?_update_isSome]
    exact there
  have answered := Host.suspend_inline (h := (s.putBack c.task held next).toHost) inline c.task
    { envelope with callback }
  have spot := s.toHost.suspend_onTheSpot c.task { envelope with callback }
  have seen := (s.toHost.suspend_apart c.task { envelope with callback }).points c.task
  dsimp only at alive ⊢
  rw [answered] at alive ⊢
  let asked : Scheduler := { s.putBack c.task held next with
    toHost := (s.toHost.suspend c.task { envelope with callback }).2 }
  obtain ⟨untouched, moved⟩ := Work.received_immediate (s := asked) born home alive
  have spares : Spares c.task asked asked.killAsked :=
    Chores.beside asked.killAsked_chores
  exact ⟨_, asked.killAsked, _, rfl, moved, spot.trans asked.killAsked_unasked.onTheSpot,
    Nat.le_trans born spares.later, untouched.task ▸ home, untouched.points.trans seen⟩

theorem run_atOnce (comes : Act.Comes (·.turnsOn = false) c act told out)
    (inline : s.gateway.Inline) (born : c.task ≤ s.lastTask)
    (there : (s.tasks.get? c.task).isSome = true)
    (alive : ¬ WasKilled c.task (act.run c s).2.trace) :
    AtOnce c told out s (act.run c s) := by
  induction comes generalizing s with
  | complete v =>
    obtain ⟨t, there⟩ := Option.isSome_iff_exists.1 there
    exact finish_atOnce born there rfl alive
  | abort message =>
    obtain ⟨t, there⟩ := Option.isSome_iff_exists.1 there
    exact finish_atOnce born there rfl alive
  | effect e next off on ih =>
    have spot := s.perform_onTheSpot off
    have spares : Spares c.task s (s.perform e).2 := s.perform_spares e
    have before : ¬ WasKilled c.task (s.perform e).2.trace := fun killed =>
      alive (killed.of_prefix (run_seen c (next (s.perform e).1) _))
    have untouched := spares.untouched born before
    have done := ih s (spot.inline inline) (born.trans spares.later)
      (untouched.task ▸ there) alive
    exact ⟨done.ends, heard_of_points untouched.points ▸ done.heard, spot.trans done.spot⟩
  | @background envelope callback held next result told out gives on ih =>
    have before : ¬ WasKilled c.task
        ((Act.background envelope callback held next).move c s).2.trace := fun killed =>
      alive (killed.of_prefix (move_seen c _ s))
    obtain ⟨h, s', v, worked, moved, spot, born', there', seen⟩ :=
      background_inline inline born there before
    have its : v.shape = result := worked ▸ gives h none
    have goes_on : (Act.background envelope callback held next).run c s =
        (next c (.resume v)).run c (s'.takeBody c.task (some v)) := by
      rw [Act.run_eq, moved]
    rw [goes_on] at alive ⊢
    have taken : OnTheSpot s'.toHost (s'.takeBody c.task (some v)).toHost :=
      (s'.toHost.note_unasked rfl).onTheSpot
    have done := ih v its (taken.inline (spot.inline inline)) born' (takeBody_there there') alive
    refine ⟨done.ends, ?_, spot.trans (taken.trans done.spot)⟩
    rw [done.heard, takeBody_heard, heard_of_points seen, List.map_append, List.append_assoc,
      Option.toList_some, List.map_singleton, its, List.singleton_append]

/-- A task agrees with another one. In a server where threads are off it goes all its way in one
step, and whatever the limit is: nothing comes into the table or the channel, no job is left, and
nothing is turned down. Wherever the other one goes its way by itself and comes to its end, neither
killed nor turned down, it has been told the same, in the same order, and has ended in the same
way. -/
theorem modes_agree {id : TaskId} {t : Task} {b b' : Body} {c' : Caller}
    (inline : s.gateway.Inline) (born : id ≤ s.lastTask) (there : s.tasks.get? id = some t)
    (home : t.body = some b)
    (agrees : Act.Agrees ⟨id, t.player, t.session⟩ c' (b.step ⟨id, t.player, t.session⟩ .start)
      (b'.step c' .start))
    (alive : ¬ WasKilled id (s.stepTask id .start).2.trace) :
    ∃ result es, (s.stepTask id .start).1 = .finished result ∧
      (s.stepTask id .start).2.trace = s.trace ++ es ∧ (∀ e ∈ es, e.isThreaded = false) ∧
      (s.stepTask id .start).2.gateway.waiters.map Waiter.errand =
        s.gateway.waiters.map Waiter.errand ∧
      (s.stepTask id .start).2.jobs = s.jobs ∧ (s.stepTask id .start).2.channel = s.channel ∧
      ∀ {w : Work} {result' : Except String Value}, Work.ByItself c' b' w →
        ¬ WasKilled c'.task w.server.trace → ¬ Work.TurnedDown c'.task w.server →
        .ended c'.task result' ∈ w.server.trace →
          (heard c'.task w.server.trace).map Value.shape = (heard id es).map Value.shape ∧
            result'.map Value.shape = result.map Value.shape := by
  obtain ⟨told, out, comes, comes'⟩ := agrees.comes
  have begun : s.stepTask id .start =
      (b.step ⟨id, t.player, t.session⟩ .start).run ⟨id, t.player, t.session⟩
        (s.takeBody id none) := by
    simp only [stepTask, there, home, noteDelivery, Input.result?]
  rw [begun] at alive ⊢
  have taken : OnTheSpot s.toHost (s.takeBody id none).toHost :=
    (s.toHost.note_unasked rfl).onTheSpot
  have done := run_atOnce comes (taken.inline inline) born (takeBody_there (there ▸ rfl)) alive
  have spot := taken.trans done.spot
  obtain ⟨result, finished, ends⟩ := done.ends
  obtain ⟨es, trace, mute⟩ := spot.trace inline
  refine ⟨result, es, finished, trace, mute, spot.waiters inline, spot.jobs inline,
    spot.channel inline, fun way alive' heeded ended => ?_⟩
  obtain ⟨told', ends'⟩ := way.ended comes' alive' heeded ended
  have hears := done.heard
  rw [trace, takeBody_heard, Option.toList_none, List.append_nil, heard_append, List.map_append,
    List.append_cancel_left_eq] at hears
  exact ⟨told'.trans hears.symm, ends'.trans ends.symm⟩

/-- A task that asks for two things, one after the other. The second request breaks down, and the
task ends with what it is told then. -/
def asksTwice : Body where
  description := "ask twice"
  step _ _ := .background { title := "echo", argument := .int 7 } (fun _ v => .finish v) []
    fun _ first => .background { title := "break", argument := first.result?.getD .none }
      (fun _ _ => .crash (some "broken")) [] fun _ second => .complete (second.result?.getD .none)

theorem asksTwice_agrees (c c' : Caller) :
    Act.Agrees c c' (asksTwice.step c .start) (asksTwice.step c' .start) := by
  refine .background _ _ _ _ _ _ _ _ _
    (Request.gives_of_ending _ (.ok (.int 7)) fun _ _ => rfl)
    (Request.gives_of_ending _ (.ok (.int 7)) fun _ _ => rfl) fun first first' _ _ => ?_
  refine .background _ _ _ _ _ _ _ _ _
    (Request.gives_of_ending _ (.error (some "broken")) fun _ _ => rfl)
    (Request.gives_of_ending _ (.error (some "broken")) fun _ _ => rfl)
    fun second second' same same' => ?_
  exact .complete _ _ (same.trans same'.symm)

theorem submit_there (s : Scheduler) (player : Obj) (session : Option SessionId) (body : Body)
    (admits : s.isClosing = false) :
    (s.submit player session body).2.tasks.get? (s.lastTask + 1) =
      some ⟨player, session, body.description, some body, none, true⟩ := by
  have new : (s.tasks.set (s.lastTask + 1)
      ⟨player, session, body.description, some body, none, true⟩).get? (s.lastTask + 1) =
        some ⟨player, session, body.description, some body, none, true⟩ := by
    rw [Named.get?_set, if_pos rfl]
  rw [submit, admits]
  exact new

def killing : Event → Bool
  | .killed .. => true
  | _ => false

def refusing : Event → Bool
  | .refused .. => true
  | _ => false

def stepping (id : TaskId) : Event → Bool
  | .stepped id' _ => id' = id
  | _ => false

def ending (id : TaskId) : Event → Bool
  | .ended id' _ => id' = id
  | _ => false

/-- A server that has no threads at all. -/
def threadless : Scheduler :=
  ofConfig { runtime := { backgroundThreading := false, maxBackgroundThreads := 0 } } .empty
    (fun _ => .error "") 0

def busy : Scheduler :=
  (ofConfig {} .empty (fun _ => .error "") 0).carryOut
    [.submit .system none asking, .phase .ready]

/-- Another task is made and asks for its first thing. Its thread comes back before the one of the
task that is away. -/
def busyOnce : Scheduler :=
  (busy.submit .system none asksTwice).2.runReady.carryOut
    [.step 2, .step 2, .step 1, .step 2, .phase .events]

def busyTwice : Scheduler :=
  busyOnce.runReady.carryOut [.step 3, .step 1, .step 3, .step 3, .phase .events]

theorem asksTwice_byItself :
    Work.ByItself ⟨2, .system, none⟩ asksTwice (.idle busyTwice.runReady) := by
  obtain ⟨_, before⟩ := Work.carryOut_run
    [.submit .system none asking, .phase .ready, .submit .system none asksTwice]
    (ofConfig {} .empty (fun _ => .error "") 0)
  obtain ⟨_, back⟩ := Work.carryOut_run [.step 2, .step 2, .step 1, .step 2, .phase .events]
    (busy.submit .system none asksTwice).2.runReady
  obtain ⟨_, back'⟩ := Work.carryOut_run [.step 3, .step 1, .step 3, .step 3, .phase .events]
    busyOnce.runReady
  have last : busy.lastTask + 1 = 2 := by decide +kernel
  have there := busy.submit_there .system none asksTwice (by decide +kernel)
  have unstepped : (busy.submit .system none asksTwice).2.trace.any (stepping 2) = false := by
    decide +kernel
  have made : Work.ByItself ⟨2, .system, none⟩ asksTwice
      (.idle (busy.submit .system none asksTwice).2) :=
    .made before (last ▸ there) rfl rfl
      (fun v stepped => absurd (rfl : stepping 2 (.stepped 2 v) = true)
        (List.any_eq_false.1 unstepped _ stepped)) (by decide +kernel)
  have once := (made.runReady (by decide +kernel) (by decide +kernel)).run back (by decide +kernel)
  have twice := (once.runReady (by decide +kernel) (by decide +kernel)).run back'
    (by decide +kernel)
  exact twice.runReady (by decide +kernel) (by decide +kernel)

/-- The task is told two things and ends, in one step where no thread is to be had, as it does beside
the other task. -/
theorem asksTwice_modes_agree :
    ∃ result result' es,
      ((threadless.submit .system none asksTwice).2.stepTask 1 .start).1 = .finished result ∧
      ((threadless.submit .system none asksTwice).2.stepTask 1 .start).2.trace =
        (threadless.submit .system none asksTwice).2.trace ++ es ∧
      .ended 2 result' ∈ busyTwice.runReady.trace ∧
      (heard 2 busyTwice.runReady.trace).length = 2 ∧
      (heard 2 busyTwice.runReady.trace).map Value.shape = (heard 1 es).map Value.shape ∧
      result'.map Value.shape = result.map Value.shape := by
  have never_killed {es : List Event} {id : TaskId} (none_killed : es.any killing = false) :
      ¬ WasKilled id es := by
    rintro ⟨player, killed⟩
    exact List.any_eq_false.1 none_killed _ killed rfl
  have heeded : ¬ Work.TurnedDown 2 busyTwice.runReady := by
    rintro ⟨n, r, why, its, refused⟩
    have none_refused : busyTwice.runReady.trace.any refusing = false := by decide +kernel
    exact List.any_eq_false.1 none_refused _ refused rfl
  have ends : busyTwice.runReady.trace.any (ending 2) = true := by decide +kernel
  obtain ⟨e, mem, is_end⟩ := List.any_eq_true.1 ends
  have there := threadless.submit_there .system none asksTwice (by decide +kernel)
  obtain ⟨result, es, finished, trace, -, -, -, -, agree⟩ :=
    modes_agree (s := (threadless.submit .system none asksTwice).2)
      ⟨by decide +kernel, by decide +kernel⟩ (by decide +kernel) there rfl
      (asksTwice_agrees _ ⟨2, .system, none⟩) (never_killed (by decide +kernel))
  cases e with
  | ended id result' =>
    obtain rfl : id = 2 := of_decide_eq_true is_end
    obtain ⟨told, same⟩ := agree asksTwice_byItself (never_killed (by decide +kernel)) heeded mem
    exact ⟨result, result', es, finished, trace, mem, by decide +kernel, told, same⟩
  | _ => cases is_end

end Scheduler
end MooCore
