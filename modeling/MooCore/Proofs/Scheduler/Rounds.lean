import MooCore.Proofs.Scheduler.Stepping
/-!
# Rounds that keep the order

One phase of the main loop after another: what came in is handled, a checkpoint may be taken,
finalizers run as tasks outside the ready queue, lines become tasks, and the tasks that are ready
are stepped.
-/

set_option autoImplicit false
namespace MooCore
namespace Scheduler
open Background

variable {p : Prop} {s : Scheduler} {hand : Hand}

/-! ## Messages -/

theorem reply_alike (s : Scheduler) (ticket : Checkpoint.Ticket) (a : ClientAnswer) :
    Alike s (s.reply ticket a) := s.note_alike rfl rfl

theorem tell_alike (s : Scheduler) (ticket : Checkpoint.Ticket) (v : Checkpoint.Verdict) :
    Alike s (s.tell ticket v) := s.note_alike rfl rfl

theorem submit_onward {body : Body} (calm : p → body.Calm) (s : Scheduler) (player : Obj)
    (session : Option SessionId) (hand : Hand) :
    Onward p s hand (s.submit player session body).2 hand := by
  unfold submit
  split
  · exact (s.releaseAll_alike body.held).onward hand
  · exact (enlist_onward calm s player session true hand).trans
      ((handles_alike _ _).onward hand)

theorem handleMessage_onward {m : Message} (calm : p → m.Calm) (s : Scheduler)
    (ticket : Checkpoint.Ticket) (hand : Hand) :
    Onward p s hand (s.handleMessage ticket m) hand := by
  cases m with
  | submit player session body =>
    have submitted := submit_onward calm s player session hand
    rw [handleMessage]
    split
    all_goals
      rename_i answer
      rw [answer] at submitted
      exact submitted.trans ((reply_alike _ _ _).onward hand)
  | kill task =>
    have killed : Onward p s hand (s.kill task).2 hand := s.kill_onward task hand
    rw [handleMessage]
    split
    all_goals
      rename_i answer
      rw [answer] at killed
      exact killed.trans ((reply_alike _ _ _).onward hand)
  | checkpoint =>
    rw [handleMessage]
    split
    · exact (s.tell_alike _ _).onward hand
    · exact (s.coordinator_alike _).onward hand
  | shutdown farewell => exact ((s.coordinator_alike _).trans (reply_alike _ _ _)).onward hand
  | waiters | queueStats => exact (s.reply_alike _ _).onward hand

theorem Orderly.fewer (orderly : s.Orderly hand) {messages : List (Checkpoint.Ticket × Message)}
    (fewer : messages ⊆ s.messages) : ({ s with messages } : Scheduler).Orderly hand :=
  { orderly with
    calm := { orderly.calm with messages := fun m hm => orderly.calm.messages m (fewer hm) } }

theorem takeMessage_onward (s : Scheduler) (hand : Hand) :
    Onward p s hand s.takeMessage hand := by
  unfold takeMessage
  cases messages : s.messages with
  | nil => exact Onward.refl s hand
  | cons first rest =>
    refine Onward.given ?_
    have taken : Onward (p ∧ s.Orderly hand) s hand { s with messages := rest } hand :=
      ⟨Nat.le_refl _, fun _ _ orderly =>
        orderly.fewer (messages ▸ List.subset_cons_self first rest)⟩
    refine taken.trans (handleMessage_onward (fun given => ?_) _ first.1 hand)
    exact given.2.calm.messages first (messages ▸ List.mem_cons_self ..)

/-! ## Results -/

theorem discard_alike (s : Scheduler) (v : Value) : Alike s (s.discard v) :=
  (s.stats_alike _).trans (release_alike _ v)

theorem Orderly.wake {task : TaskId} {h : Handle}
    (orderly : s.Orderly { hand with out := (task, h) :: hand.out })
    (live : task ∈ s.tasks.map Prod.fst) :
    (s.updateTask task fun t => { t with waiting := none }).Orderly
      { hand with batch := task :: hand.batch } := by
  have roster := Roster.wake (h := h)
    (orderly.roster.perm (List.Perm.refl _) List.perm_middle) live
  have same : ({ hand with batch := task :: hand.batch } : Hand).condemned =
      ({ hand with out := (task, h) :: hand.out } : Hand).condemned := rfl
  have calm : ∀ (t : Task) (b : Body),
      ({ t with waiting := none } : Task).body = some b → t.body = some b ∨ b.Calm :=
    fun _ _ => Or.inl
  exact orderly.update same roster calm

/-- A result finds its task waiting for it, or its task is gone. -/
theorem handleCompletion_onward (s : Scheduler) (c : Completion) (hand : Hand) :
    Onward p s { hand with out := c.errand :: hand.out } (s.handleCompletion c) hand := by
  have noted := s.note_alike (e := .taken c) rfl rfl
  have taken : .taken c ∈ (s.note (.taken c)).trace := mem_note s.toHost (.taken c)
  unfold handleCompletion
  refine (noted.onward _).trans ?_
  generalize s.note (.taken c) = s at taken ⊢
  dsimp only
  cases found : s.tasks.get? c.task with
  | none =>
    have shed : Onward p s { hand with out := c.errand :: hand.out } s hand :=
      ⟨Nat.le_refl _, fun _ _ orderly =>
        { orderly with
          roster := by
            refine Roster.shed [c.errand]
              (orderly.roster.perm (List.Perm.refl _) List.perm_middle) fun x hx => ?_
            exact List.mem_singleton.1 hx ▸ Named.get?_eq_none.1 found }⟩
    exact shed.trans ((s.discard_alike c.result).onward hand)
  | some t =>
    have mem := Named.mem_of_get? found
    dsimp only
    split
    · have woken : Onward p s { hand with out := c.errand :: hand.out }
          ((s.updateTask c.task fun t => { t with waiting := none }).enqueue c.task
            (.resume c.result)) hand := by
        refine ⟨Nat.le_refl _, fun _ _ orderly => ?_⟩
        refine (orderly.wake (List.mem_map_of_mem mem)).enqueue ?_ fun v same => ⟨c, taken, rfl, ?_⟩
        · rw [updateTask, Named.update_keys]
          exact List.mem_map_of_mem mem
        · cases same
          rfl
      exact woken.trans ((stats_alike _ _).onward hand)
    · rename_i elsewhere
      refine ⟨Nat.le_refl _, fun _ _ orderly => absurd ?_ elsewhere⟩
      have roster := orderly.roster.perm (List.Perm.refl _) List.perm_middle
      exact (roster.meet mem).1

theorem Orderly.receive (orderly : s.Orderly hand) (taken : List Completion)
    {rest : List Completion} (split : s.channel = taken ++ rest) :
    ({ s with channel := rest } : Scheduler).Orderly
      { hand with out := taken.map Completion.errand ++ hand.out } where
  kept := orderly.kept.same_table rfl rfl rfl rfl rfl rfl rfl
  listening := orderly.listening
  fine := orderly.fine
  roster := by
    refine orderly.roster.perm (List.Perm.refl _) ?_
    simp only [abroad, Host.errands, split, List.map_append, List.append_assoc]
    refine List.Perm.append_left _ ?_
    rw [← List.append_assoc, ← List.append_assoc]
    exact List.perm_append_comm.append_right _
  live := orderly.live
  wanted := orderly.wanted
  resumed := orderly.resumed
  calm := { orderly.calm with bodies := orderly.calm.bodies }

theorem takeCompletion_onward (s : Scheduler) (hand : Hand) :
    Onward p s hand s.takeCompletion hand := by
  unfold takeCompletion
  cases channel : s.channel with
  | nil => exact Onward.refl s hand
  | cons c rest =>
    have taken : Onward p s hand { s with channel := rest }
        { hand with out := c.errand :: hand.out } :=
      ⟨Nat.le_refl _, fun _ _ orderly => orderly.receive [c] channel⟩
    exact taken.trans (handleCompletion_onward _ c hand)

theorem waitForEvent_onward (s : Scheduler) (eager : Bool) (hand : Hand) :
    Onward p s hand (s.waitForEvent eager) hand := by
  unfold waitForEvent
  split
  · exact s.takeCompletion_onward hand
  · exact s.takeMessage_onward hand

theorem takeMessages_onward (n : Nat) (s : Scheduler) (hand : Hand) :
    Onward p s hand (takeMessages n s) hand := by
  induction n generalizing s with
  | zero => exact Onward.refl s hand
  | succ n ih => exact (s.takeMessage_onward hand).trans (ih _)

theorem takeCompletions_onward (n : Nat) (s : Scheduler) (hand : Hand) :
    Onward p s hand (takeCompletions n s) hand := by
  induction n generalizing s with
  | zero => exact Onward.refl s hand
  | succ n ih => exact (s.takeCompletion_onward hand).trans (ih _)

theorem processEvents_onward (s : Scheduler) (hand : Hand) :
    Onward p s hand s.processEvents hand :=
  (takeMessages_onward _ s hand).trans (takeCompletions_onward _ _ hand)

/-! ## Checkpoints -/

theorem tellAll_alike (s : Scheduler)
    (answers : List (Checkpoint.Ticket × Checkpoint.Verdict)) : Alike s (s.tellAll answers) := by
  unfold tellAll
  induction answers generalizing s with
  | nil => exact Alike.refl s
  | cons answer answers ih => exact (s.tell_alike answer.1 answer.2).trans (ih _)

theorem checkpoint_alike (s : Scheduler) (reason : Checkpoint.Reason) :
    Alike s (s.checkpoint reason).2 := by
  have written : Alike s (s.writeCheckpoint reason).2 := by
    unfold writeCheckpoint
    split
    · exact Alike.refl s
    · exact Alike.of_same rfl
  unfold checkpoint
  split
  all_goals
    rename_i answer
    rw [answer] at written
    exact written.trans (stats_alike _ _)

theorem finishCheckpoint_alike (s : Scheduler) (verdict : Checkpoint.Verdict) :
    Alike s (s.finishCheckpoint verdict) := by
  have told := s.now_alike.trans
    ((coordinator_alike _ (s.now.2.coordinator.finish s.now.1 verdict).2).trans
      (tellAll_alike _ (s.now.2.coordinator.finish s.now.1 verdict).1.answers))
  unfold finishCheckpoint
  dsimp only
  split
  · exact told.trans (note_alike _ rfl rfl)
  · exact told

theorem pollCheckpoint_alike (s : Scheduler) : Alike s s.pollCheckpoint := by
  have polled := s.now_alike.trans
    (coordinator_alike _ (s.now.2.coordinator.poll s.now.1).2)
  unfold pollCheckpoint
  dsimp only
  split
  · exact polled
  · exact polled.trans ((checkpoint_alike _ _).trans (finishCheckpoint_alike _ _))

/-! ## Finalizers -/

theorem finalize_onward (s : Scheduler) (v : Value) (hand : Hand) :
    Onward p s { hand with free := none } (s.finalize v) { hand with free := none } := by
  unfold finalize
  refine ((s.keep_alike v).onward _).trans ?_
  generalize s.onHost (·.keep v) = s
  dsimp only
  cases found : s.database.finalizer v with
  | none => exact (s.release_alike v).onward _
  | some body =>
    refine Onward.given ?_
    refine (createTask_onward (fun given => ?_) s .system none false _).trans
      (runOne_onward _ (s.lastTask + 1, .start) hand)
    exact given.2.calm.database v body found

theorem drainOnce_onward (s : Scheduler) (hand : Hand) :
    Onward p s { hand with free := none } s.drainOnce { hand with free := none } := by
  unfold drainOnce
  split
  · exact Onward.refl s _
  · rename_i q _
    have destroyed : ∀ (s : Scheduler) (v : Value), Alike s (s.destroy v) := fun s v =>
      (s.note_alike (e := .destroyed (v.finalizableId?.getD 0)) rfl rfl).trans (heap_alike _ _)
    have finalized : Onward p s { hand with free := none }
        ((s.heap.beginPass q).1.foldl finalize { s with heap := (s.heap.beginPass q).2 })
        { hand with free := none } :=
      ((s.heap_alike _).onward _).trans (Onward.foldl (fun v _ s => s.finalize_onward v hand) _)
    have ended (s : Scheduler) : Onward p s { hand with free := none }
        ((s.heap.endPass q).1.foldl destroy { s with heap := (s.heap.endPass q).2 })
        { hand with free := none } :=
      ((s.heap_alike _).onward _).trans (Onward.foldl (fun v _ s => (destroyed s v).onward _) _)
    exact finalized.trans (ended _)

/-! ## Commands -/

theorem startCommand_onward (s : Scheduler) (entry : SessionId × String) (hand : Hand) :
    Onward p s hand (s.startCommand entry) hand := by
  unfold startCommand
  dsimp only
  split
  · exact Onward.refl s hand
  · split
    · rename_i draft parsed
      refine Onward.given (((s.prepare_alike draft).onward _).trans
        (enlist_onward (fun given => ?_) _ _ _ _ hand))
      exact given.2.calm.parser _ draft parsed _
    · exact (s.sendLine_alike _ _).onward hand

theorem startCommands_onward (s : Scheduler) (hand : Hand) :
    Onward p s hand s.startCommands hand :=
  ((s.sessions_alike s.sessions.takeInput.2).onward hand).trans
    (Onward.foldl (fun entry _ s => s.startCommand_onward entry hand) _)

theorem sweep_alike (s : Scheduler) : Alike s s.sweep :=
  s.now_alike.trans (sessions_alike _ _)

theorem tick_onward (s : Scheduler) (eager : Bool) : Onward p s {} (s.tick eager).2 {} :=
  (s.waitForEvent_onward eager {}).trans <| (processEvents_onward _ {}).trans <|
    ((pollCheckpoint_alike _).onward {}).trans <| (drainOnce_onward _ {}).trans <|
    (startCommands_onward _ {}).trans <| (runReady_onward _ {}).trans <|
    (sweep_alike _).onward {}

end Scheduler
end MooCore
