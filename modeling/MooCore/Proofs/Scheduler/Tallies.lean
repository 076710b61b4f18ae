import MooCore.Proofs.Scheduler.Whereabouts
/-!
# What is counted

The number last given to a new value, the numbers given so far, the results counted while the server
is brought to an end, and the kills asked for change in few places. Whatever happens to a scheduler
is a sequence of such changes, so what these keep is kept by everything. No kill is left to be
carried out between two steps.
-/

set_option autoImplicit false
namespace MooCore
namespace Scheduler
open Background

/-- The number last given to a new value, those given so far, how many results were taken for tasks
that are there since the server is brought to an end, and the kills that the step under way asked
for. -/
structure Tally where
  last : UInt64
  drawn : List UInt64
  draining : Bool
  resumed : Nat
  asked : List TaskId

inductive Tally.Step : Tally → Tally → Prop where
  | draw (t : Tally) : Step t { t with last := t.last + 1, drawn := t.drawn ++ [t.last + 1] }
  | raise (t : Tally) (mark : UInt64) : Step t { t with last := max t.last mark }
  | wake (t : Tally) : Step t { t with resumed := t.resumed + (if t.draining then 1 else 0) }
  | close (t : Tally) : Step t { t with draining := true }
  | ask (t : Tally) (task : TaskId) : Step t { t with asked := t.asked ++ [task] }
  | rest (t : Tally) : Step t { t with asked := [] }

def tally (s : Scheduler) : Tally where
  last := s.lastObject
  drawn := s.drawn
  draining := s.draining
  resumed := s.stats.resumedDuringDrain
  asked := s.asked

def Tallied (s s' : Scheduler) : Prop := Relation.ReflTransGen Tally.Step s.tally s'.tally

variable {s s' s'' : Scheduler}

theorem Tallied.refl (s : Scheduler) : Tallied s s := Relation.ReflTransGen.refl

theorem Tallied.trans (first : Tallied s s') (second : Tallied s' s'') : Tallied s s'' :=
  Relation.ReflTransGen.trans first second

theorem Tallied.same (same : s'.tally = s.tally) : Tallied s s' := by
  rw [Tallied, same]

theorem Tallied.once (step : Tally.Step s.tally s'.tally) : Tallied s s' :=
  Relation.ReflTransGen.single step

theorem Tally.Step.uncounted {t t' : Tally} (step : Tally.Step t t')
    (before : t.draining = false → t.resumed = 0) (still : t'.draining = false) :
    t'.resumed = 0 := by
  cases step with
  | draw | raise | ask | rest => exact before still
  | wake =>
    dsimp only at still ⊢
    rw [still, before still]
    rfl
  | close => cases still

theorem Tallied.uncounted (tallied : Tallied s s')
    (before : s.draining = false → s.stats.resumedDuringDrain = 0) (still : s'.draining = false) :
    s'.stats.resumedDuringDrain = 0 := by
  have kept {t t' : Tally} (steps : Relation.ReflTransGen Tally.Step t t')
      (before : t.draining = false → t.resumed = 0) : t'.draining = false → t'.resumed = 0 := by
    induction steps with
    | refl => exact before
    | tail _ step ih => exact step.uncounted ih
  exact kept tallied before still

/-- What is counted changes as it may, and no kill is left to be carried out if none was before. -/
structure Whole (s s' : Scheduler) : Prop where
  tallied : Tallied s s'
  rested : s.asked = [] → s'.asked = []

theorem Whole.refl (s : Scheduler) : Whole s s := ⟨.refl s, fun rested => rested⟩

theorem Whole.trans (first : Whole s s') (second : Whole s' s'') : Whole s s'' :=
  ⟨first.tallied.trans second.tallied, fun rested => second.rested (first.rested rested)⟩

theorem Whole.same (same : s'.tally = s.tally) : Whole s s' :=
  ⟨.same same, fun rested => (congrArg Tally.asked same).trans rested⟩

theorem Whole.once (step : Tally.Step s.tally s'.tally) (same : s'.asked = s.asked) : Whole s s' :=
  ⟨.once step, fun rested => same.trans rested⟩

theorem Whole.foldl {α : Type} {f : Scheduler → α → Scheduler} (each : ∀ s x, Whole s (f s x))
    (xs : List α) (s : Scheduler) : Whole s (xs.foldl f s) := by
  induction xs generalizing s with
  | nil => exact Whole.refl _
  | cons x xs ih => exact (each s x).trans (ih _)

theorem foldl_tally {α : Type} {f : Scheduler → α → Scheduler}
    (each : ∀ s x, (f s x).tally = s.tally) (xs : List α) (s : Scheduler) :
    (xs.foldl f s).tally = s.tally := by
  induction xs generalizing s with
  | nil => rfl
  | cons x xs ih => exact (ih _).trans (each s x)

/-! ## What counts nothing -/

theorem answer_tally (s : Scheduler) (task : TaskId) (result : TaskAnswer) :
    (s.answer task result).tally = s.tally := by
  unfold answer
  repeat' split
  all_goals rfl

theorem kill_tally (s : Scheduler) (task : TaskId) : (s.kill task).2.tally = s.tally := by
  unfold kill
  split
  · rfl
  · dsimp only
    split
    · exact answer_tally _ _ _
    · rfl

theorem killAsked_tally (s : Scheduler) : s.killAsked.tally = { s.tally with asked := [] } :=
  foldl_tally (fun s task => s.kill_tally task) s.asked { s with asked := [] }

theorem killAsked_asked (s : Scheduler) : s.killAsked.asked = [] :=
  congrArg Tally.asked s.killAsked_tally

theorem killAsked_tallied (s : Scheduler) : Tallied s s.killAsked :=
  .once (s.killAsked_tally ▸ .rest s.tally)

theorem killAll_tally (s : Scheduler) (tasks : List TaskId) :
    (s.killAll tasks).2.tally = s.tally := by
  induction tasks generalizing s with
  | nil => rfl
  | cons task tasks ih =>
    have first := s.kill_tally task
    rw [killAll]
    split
    all_goals
      rename_i killed
      rw [killed] at first
      exact (ih _).trans first

theorem complete_tally (s : Scheduler) (task : TaskId) (result : Except String Value) :
    (s.complete task result).tally = s.tally := by
  unfold complete
  split
  · rfl
  · dsimp only
    cases result <;> dsimp only <;> repeat' split
    all_goals first | rfl | exact answer_tally _ _ _

theorem releaseOutcome_tally (s : Scheduler) (outcome : StepOutcome) :
    (s.releaseOutcome outcome).tally = s.tally := by
  unfold releaseOutcome
  split <;> rfl

theorem pick_tally (s : Scheduler) (task : TaskId) (input : Input) :
    (s.pick task input).2.tally = s.tally := by
  unfold pick
  cases input <;> repeat' split
  all_goals rfl

theorem submit_tally (s : Scheduler) (player : Obj) (session : Option SessionId) (body : Body) :
    (s.submit player session body).2.tally = s.tally := by
  unfold submit
  split <;> rfl

theorem detach_tally (s : Scheduler) (task : TaskId) :
    (s.detach task).2.tally = s.tally := by
  unfold detach
  repeat' split
  all_goals rfl

theorem handleMessage_tally (s : Scheduler) (ticket : Checkpoint.Ticket) (m : Message) :
    (s.handleMessage ticket m).tally = s.tally := by
  cases m with
  | submit player session body =>
    have submitted := s.submit_tally player session body
    rw [handleMessage]
    split
    all_goals
      rename_i answer
      rw [answer] at submitted
      exact submitted
  | kill task =>
    have killed := s.kill_tally task
    rw [handleMessage]
    split
    all_goals
      rename_i answer
      rw [answer] at killed
      exact killed
  | checkpoint =>
    rw [handleMessage]
    split <;> rfl
  | shutdown _ | waiters | queueStats => rfl

theorem takeMessage_tally (s : Scheduler) : s.takeMessage.tally = s.tally := by
  unfold takeMessage
  split
  · rfl
  · exact handleMessage_tally _ _ _

theorem tellAll_tally (s : Scheduler)
    (answers : List (Checkpoint.Ticket × Checkpoint.Verdict)) :
    (s.tellAll answers).tally = s.tally := by
  unfold tellAll
  induction answers generalizing s with
  | nil => rfl
  | cons answer answers ih => exact ih (s.tell answer.1 answer.2)

theorem checkpoint_tally (s : Scheduler) (reason : Checkpoint.Reason) :
    (s.checkpoint reason).2.tally = s.tally := by
  have written : (s.writeCheckpoint reason).2.tally = s.tally := by
    unfold writeCheckpoint
    split <;> rfl
  unfold checkpoint
  split
  all_goals
    rename_i answer
    rw [answer] at written
    exact written

theorem finishCheckpoint_tally (s : Scheduler) (verdict : Checkpoint.Verdict) :
    (s.finishCheckpoint verdict).tally = s.tally := by
  unfold finishCheckpoint
  dsimp only
  split <;> exact tellAll_tally _ _

theorem pollCheckpoint_tally (s : Scheduler) : s.pollCheckpoint.tally = s.tally := by
  unfold pollCheckpoint
  dsimp only
  split
  · rfl
  · exact (finishCheckpoint_tally _ _).trans (checkpoint_tally _ _)

theorem startCommand_tally (s : Scheduler) (entry : SessionId × String) :
    (s.startCommand entry).tally = s.tally := by
  unfold startCommand
  dsimp only
  repeat' split
  all_goals rfl

theorem startCommands_tally (s : Scheduler) : s.startCommands.tally = s.tally :=
  foldl_tally startCommand_tally _ _

/-! ## What counts -/

theorem perform_tallied (s : Scheduler) (e : Effect) : Tallied s (s.perform e).2 := by
  cases e with
  | newId => exact .once (.draw s.tally)
  | kill task =>
    simp only [perform]
    split
    · exact .once (.ask s.tally task)
    · exact .same rfl
  | acquire _ | login _ _ | send _ _ | push _ _ | disconnect _ | waiters | maxThreads
  | setMaxThreads _ | setThreading _ | requestCheckpoint _ | requestShutdown _ | owner _
  | isWizard _ | make _ | tryMake _ | keep _ | workspace _ | queueStats | release _ | remark _ =>
    exact .same rfl

theorem finish_tallied (s : Scheduler) (task : TaskId) (result : Except String Value) :
    Tallied s (s.finish task result).2 :=
  (Tallied.same (s.complete_tally task result)).trans (killAsked_tallied _)

theorem move_tallied (act : Act) (caller : Caller) (s : Scheduler) :
    Tallied s (act.move caller s).2 := by
  cases act with
  | complete v => exact s.finish_tallied caller.task (.ok v)
  | abort message => exact s.finish_tallied caller.task (.error message)
  | effect e next => exact s.perform_tallied e
  | background envelope callback held next =>
    rw [Act.move]
    dsimp only [askHost]
    generalize (s.putBack caller.task held next).toHost.suspend caller.task _ = answer
    obtain ⟨response, h⟩ := answer
    have away (h : Host) : Tallied s { s.putBack caller.task held next with toHost := h } :=
      .same rfl
    have parked (s : Scheduler) (handle : Handle) :
        Tallied s (s.park caller.task handle).killAsked := by
      have away : Tallied s (s.park caller.task handle) := .same rfl
      exact away.trans (killAsked_tallied _)
    have go_on (s : Scheduler) (v : Value) : Tallied s
        (if (s.killAsked.tasks.get? caller.task).isSome then
          (Sum.inl (next caller (.resume v)), s.killAsked.takeBody caller.task (some v))
        else (.inr StepOutcome.gone, s.killAsked.release v)).2 := by
      refine s.killAsked_tallied.trans ?_
      split <;> exact .same rfl
    rcases response with why | handle | v
    · exact (away (h.plain why.errorMap).2).trans (go_on _ _)
    · exact (away h).trans (parked _ _)
    · exact (away h).trans (go_on _ _)

theorem move_rested {act : Act} {caller : Caller} {outcome : StepOutcome}
    (ends : (act.move caller s).1 = .inr outcome) : (act.move caller s).2.asked = [] := by
  cases act with
  | complete v | abort message => exact killAsked_asked _
  | effect e next => cases ends
  | background envelope callback held next =>
    rw [Act.move] at ends ⊢
    dsimp only at ends ⊢
    generalize immediate? _ _ = answer at ends ⊢
    obtain ⟨h | v, s⟩ := answer
    · exact killAsked_asked _
    · dsimp only at ends ⊢
      split at ends
      · cases ends
      · rename_i gone
        rw [if_neg gone]
        exact s.killAsked_asked

theorem run_tallied (act : Act) (caller : Caller) (s : Scheduler) :
    Tallied s (act.run caller s).2 ∧ (act.run caller s).2.asked = [] := by
  induction act using Act.move_induct generalizing s with
  | moves act ih =>
    have first := move_tallied act caller s
    rw [Act.run_eq]
    cases result : act.move caller s with
    | mk next s' =>
      rw [result] at first
      cases next with
      | inl act' =>
        obtain ⟨rest, rested⟩ := ih caller s act' (by rw [result]) s'
        exact ⟨first.trans rest, rested⟩
      | inr outcome =>
        have rested := move_rested (congrArg Prod.fst result)
        rw [result] at rested
        exact ⟨first, rested⟩

theorem runOne_whole (s : Scheduler) (entry : TaskId × Input) : Whole s (s.runOne entry) := by
  have stepped : Whole s (s.stepTask entry.1 entry.2).2 := by
    unfold stepTask
    split
    · cases entry.2 <;> exact .same rfl
    · split
      · cases entry.2 <;> exact .same rfl
      · obtain ⟨tallied, rested⟩ := run_tallied _ _ _
        exact ⟨.trans (.same (by cases entry.2 <;> rfl)) tallied, fun _ => rested⟩
  exact stepped.trans (.same (releaseOutcome_tally _ _))

theorem runReady_whole (s : Scheduler) : Whole s s.runReady := by
  have taken : Whole s { s with ready := [] } := .same rfl
  exact taken.trans (Whole.foldl runOne_whole _ _)

theorem handleCompletion_whole (s : Scheduler) (c : Completion) :
    Whole s (s.handleCompletion c) := by
  unfold handleCompletion
  dsimp only
  split
  · exact .same rfl
  · split
    · exact .once (.wake s.tally) rfl
    · exact .same rfl

theorem takeCompletion_whole (s : Scheduler) : Whole s s.takeCompletion := by
  unfold takeCompletion
  split
  · exact Whole.refl _
  · rename_i rest _
    have taken : Whole s { s with channel := rest } := .same rfl
    exact taken.trans (handleCompletion_whole _ _)

theorem waitForEvent_whole (s : Scheduler) (eager : Bool) : Whole s (s.waitForEvent eager) := by
  unfold waitForEvent
  split
  · exact s.takeCompletion_whole
  · exact .same s.takeMessage_tally

theorem takeMessages_whole (n : Nat) (s : Scheduler) : Whole s (takeMessages n s) := by
  induction n generalizing s with
  | zero => exact Whole.refl _
  | succ n ih => exact Whole.trans (.same s.takeMessage_tally) (ih _)

theorem takeCompletions_whole (n : Nat) (s : Scheduler) : Whole s (takeCompletions n s) := by
  induction n generalizing s with
  | zero => exact Whole.refl _
  | succ n ih => exact s.takeCompletion_whole.trans (ih _)

theorem processEvents_whole (s : Scheduler) : Whole s s.processEvents :=
  (takeMessages_whole _ _).trans (takeCompletions_whole _ _)

theorem finalize_whole (s : Scheduler) (v : Value) : Whole s (s.finalize v) := by
  unfold finalize
  dsimp only
  split
  · exact .same rfl
  · rename_i body _
    have made : Whole s ((s.onHost (·.keep v)).createTask .system none body false).2 := .same rfl
    exact made.trans (runOne_whole _ _)

theorem drainOnce_whole (s : Scheduler) : Whole s s.drainOnce := by
  unfold drainOnce
  split
  · exact Whole.refl _
  · rename_i q _
    have begun : Whole s { s with heap := (s.heap.beginPass q).2 } := .same rfl
    have finalized := begun.trans (Whole.foldl finalize_whole (s.heap.beginPass q).1 _)
    exact finalized.trans (.same (foldl_tally (f := destroy) (fun _ _ => rfl) _ _))

theorem sweep_tally (s : Scheduler) : s.sweep.tally = s.tally := rfl

theorem tick_whole (s : Scheduler) (eager : Bool) : Whole s (s.tick eager).2 := by
  exact (s.waitForEvent_whole eager).trans <| (processEvents_whole _).trans <|
    (Whole.same (pollCheckpoint_tally _)).trans <| (drainOnce_whole _).trans <|
    (Whole.same (startCommands_tally _)).trans <| (runReady_whole _).trans <|
    .same (sweep_tally _)

theorem restoreLatest_whole (s : Scheduler) : Whole s s.restoreLatest.2 := by
  unfold restoreLatest
  split
  · split
    · exact Whole.refl _
    · exact Whole.refl _
    · dsimp only
      split
      · exact .same rfl
      · exact .once (.raise s.tally _) rfl
  · exact Whole.refl _

theorem Phase.run_whole (s : Scheduler) (f : Phase) : Whole s (f.run s) := by
  cases f with
  | wait eager => exact s.waitForEvent_whole eager
  | events => exact s.processEvents_whole
  | checkpoint => exact .same s.pollCheckpoint_tally
  | finalizers => exact s.drainOnce_whole
  | commands => exact .same s.startCommands_tally
  | ready => exact s.runReady_whole
  | sweep => exact .same rfl

theorem Deed.carryOut_whole (s : Scheduler) (deed : Deed) : Whole s (deed.carryOut s) := by
  cases deed with
  | submit player session body => exact .same (s.submit_tally player session body)
  | kill task => exact .same (s.kill_tally task)
  | killMatching rule => exact .same (killAll_tally _ _)
  | detach task => exact .same (s.detach_tally task)
  | restoreLatest => exact s.restoreLatest_whole
  | beginDrain => exact .once (.close s.tally) rfl
  | tick eager => exact s.tick_whole eager
  | phase f => exact Phase.run_whole s f
  | post _ | step _ | awaitCheckpoint _ | line _ _ | setStarter _ | elsewhere _ _ _ =>
    exact .same rfl

/-! ## The end -/

theorem meanwhile_tally (s : Scheduler) (r : Round) : (s.meanwhile r).tally = s.tally := rfl

theorem catchUp_whole (s : Scheduler) : Whole s s.catchUp :=
  s.processEvents_whole.trans (runReady_whole _)

theorem drain_whole (rounds : List Round) (s : Scheduler) : Whole s (s.drain rounds).2 := by
  induction rounds generalizing s with
  | nil => exact s.catchUp_whole
  | cons r rounds ih =>
    rw [drain]
    split
    · exact s.catchUp_whole
    · exact s.catchUp_whole.trans <| (Whole.same (meanwhile_tally _ r)).trans <|
        (waitForEvent_whole _ r.eager).trans (ih _)

theorem conclude_tally (s : Scheduler) (timedOut : Bool) :
    (s.conclude timedOut).2.tally = s.tally := by
  have written : s.finalCheckpoint.2.tally = s.tally := by
    unfold finalCheckpoint
    split
    · exact checkpoint_tally _ _
    · rfl
  have failed (s : Scheduler) : s.failWaiting.tally = s.tally := tellAll_tally _ _
  have abandoned (s : Scheduler) : s.abandonAll.tally = s.tally := by
    refine foldl_tally (fun s entry => ?_) _ _
    unfold abandon
    dsimp only
    split
    · exact answer_tally _ _ _
    · rfl
  have cleared (s : Scheduler) : s.clearReady.tally = s.tally := by
    refine foldl_tally (fun s entry => ?_) _ _
    cases entry.2 <;> rfl
  exact (cleared _).trans ((abandoned _).trans ((failed _).trans written))

theorem shutdown_whole (s : Scheduler) (rounds : List Round) :
    Whole s (s.shutdown rounds).2 := by
  have closed : Whole s s.beginDrain := .once (.close s.tally) rfl
  exact closed.trans ((drain_whole rounds _).trans
    ((catchUp_whole _).trans (.same (conclude_tally _ _))))

theorem carryOut_whole (s : Scheduler) (deeds : List Deed) : Whole s (s.carryOut deeds) :=
  Whole.foldl Deed.carryOut_whole deeds s

end Scheduler
end MooCore
