import Mathlib
import MooCore.Proofs.Background.Lives
import MooCore.Proofs.Scheduler.Register
import MooCore.Proofs.Sessions.Holds
/-!
# What a server does, chore by chore

Most of what the loop does and of what clients do to it comes down to few chores: a job goes on,
waiters are marked, a task is made, rewritten, killed or brought to its end. Everything else stays
around them. No chore takes a hold on a session, makes a request or takes a result in. A task is
rewritten and brought to its end only by its own step.
-/

set_option autoImplicit false
namespace MooCore
open Background

def CommandParser.All (P : Body → Prop) (parser : CommandParser) : Prop :=
  ∀ line d, parser line = .ok d → ∀ vs, P (d.body vs)

def Database.All (P : Body → Prop) (d : Database) : Prop := ∀ v b, d.finalizer v = some b → P b

def Message.All (P : Body → Prop) : Message → Prop
  | .submit _ _ body => P body
  | .kill _ | .checkpoint | .shutdown _ | .waiters | .queueStats => True

theorem Background.Host.buildAll_workspace (h : Host) (rs : List Recipe) :
    ∃ vs w, h.buildAll rs = (vs, { h with toWorkspace := w }) := by
  induction rs generalizing h with
  | nil => exact ⟨[], h.toWorkspace, rfl⟩
  | cons r rs ih =>
    obtain ⟨vs, w, rest⟩ := ih (h.build r).2
    refine ⟨(h.build r).1 :: vs, w, ?_⟩
    dsimp only [Host.buildAll]
    rw [rest]
    rfl

namespace Scheduler

/-- The bodies of all tasks that are there, and of all that may be asked for. -/
structure Stocked (P : Body → Prop) (s : Scheduler) : Prop where
  bodies : ∀ x ∈ s.tasks, ∀ b, x.2.body = some b → P b
  messages : ∀ m ∈ s.messages, m.2.All P
  parser : s.parser.All P
  database : s.database.All P

def stock (s : Scheduler) :=
  ((s.gateway.waiters, s.gateway.next, s.gateway.streak, s.gateway.longest),
    (s.made, s.locked, s.jobs, s.channel, s.listening),
    s.tasks, s.ready, s.lastTask, s.parser, s.database.finalizer)

/-- One chore, while a task may be under way. -/
inductive Chore (P : Body → Prop) (under : Option TaskId) : Scheduler → Scheduler → Prop where
  | around {s s' : Scheduler} (same : s'.stock = s.stock)
      (seen : ∃ es : List Event, s'.trace = s.trace ++ es ∧
        ∀ e ∈ es, e.subject? = none ∧ ∀ id, e.life? = some id → under = some id)
      (sessions : ∀ holds, s.sessions.HeldBy holds → s'.sessions.HeldBy holds)
      (messages : ∀ m ∈ s'.messages, m ∈ s.messages) : Chore P under s s'
  | work (s : Scheduler) (handle : Handle) : Chore P under s (s.onHost (·.step handle))
  | silence (s : Scheduler) (id : TaskId) : Chore P under s (s.askHost (·.killWaiters id)).2
  | offer (s : Scheduler) (rule : TaskId → String → Verdict) :
      Chore P under s (s.askHost (·.enumerate rule)).2
  | create (s : Scheduler) (player : Obj) (session : Option SessionId) (body : Body)
      (answerable queued : Bool) (its : P body) :
      Chore P under s
        { (s.createTask player session body answerable).2 with
          ready := s.ready ++ if queued then [(s.lastTask + 1, .start)] else [] }
  | rewrite (s : Scheduler) (id : TaskId) (f : Task → Task) (own : under = some id)
      (bodies : ∀ t b, (f t).body = some b → P b ∨ t.body = some b) :
      Chore P under s (s.updateTask id f)
  | leave (s : Scheduler) (id : TaskId) (player : Obj) :
      Chore P under s ({ s with tasks := s.tasks.erase id }.note (.killed id player))
  | withdraw (s : Scheduler) (id : TaskId) (player : Obj) (gone : .killed id player ∈ s.trace) :
      Chore P under s (s.withdraw id).2
  | finish (s : Scheduler) (id : TaskId) (result : Except String Value) (own : under = some id) :
      Chore P under s ({ s with tasks := s.tasks.erase id }.note (.ended id result))
  | arrive (s : Scheduler) (messages : List (Checkpoint.Ticket × Message))
      (its : ∀ m ∈ messages, m.2.All P) :
      Chore P under s { s with messages := s.messages ++ messages }

abbrev Chores (P : Body → Prop) (under : Option TaskId) : Scheduler → Scheduler → Prop :=
  Relation.ReflTransGen (Chore P under)

variable {P : Body → Prop} {under : Option TaskId} {s s' : Scheduler}

theorem Chore.chores (chore : Chore P under s s') : Chores P under s s' :=
  Relation.ReflTransGen.single chore

theorem Chores.foldl {α : Type} {f : Scheduler → α → Scheduler}
    (each : ∀ s x, Chores P under s (f s x)) (xs : List α) (s : Scheduler) :
    Chores P under s (xs.foldl f s) := by
  induction xs generalizing s with
  | nil => exact .refl
  | cons x xs ih => exact (each s x).trans (ih _)

/-! ## What is around -/

theorem Chores.visit (same : s'.stock = s.stock) (trace : s'.trace = s.trace)
    (sessions : ∀ holds, s.sessions.HeldBy holds → s'.sessions.HeldBy holds)
    (messages : ∀ m ∈ s'.messages, m ∈ s.messages) : Chores P under s s' :=
  Chore.chores (.around same ⟨[], by rw [trace, List.append_nil], nofun⟩ sessions messages)

theorem Chores.same (same : s'.stock = s.stock) (trace : s'.trace = s.trace)
    (sessions : s'.sessions = s.sessions) (messages : s'.messages = s.messages) :
    Chores P under s s' :=
  .visit same trace (fun _ held => sessions ▸ held) fun _ hm => messages ▸ hm

theorem note_chores (s : Scheduler) {e : Event} (mute : e.subject? = none)
    (own : ∀ id, e.life? = some id → under = some id) : Chores P under s (s.note e) :=
  Chore.chores (.around rfl ⟨[e], rfl, fun _ he => List.mem_singleton.1 he ▸ ⟨mute, own⟩⟩
    (fun _ held => held) fun _ hm => hm)

theorem remark_chores (s : Scheduler) {e : Event} (mute : e.subject? = none)
    (lifeless : e.life? = none) : Chores P under s (s.note e) :=
  s.note_chores mute fun id its => by
    rw [lifeless] at its
    cases its

theorem release_chores (s : Scheduler) (v : Value) : Chores P under s (s.release v) :=
  .same rfl rfl rfl rfl

theorem releaseAll_chores (s : Scheduler) (vs : List Value) : Chores P under s (s.releaseAll vs) :=
  .same rfl rfl rfl rfl

theorem keep_chores (s : Scheduler) (v : Value) : Chores P under s (s.onHost (·.keep v)) :=
  .same rfl rfl rfl rfl

theorem releaseInput_chores (s : Scheduler) (input : Input) :
    Chores P under s (s.releaseInput input) := by
  cases input with
  | start => exact .refl
  | resume v => exact s.release_chores v

theorem sessions_chores (s : Scheduler) {sessions : Sessions}
    (keeps : ∀ holds, s.sessions.HeldBy holds → sessions.HeldBy holds) :
    Chores P under s { s with sessions } := .visit rfl rfl keeps fun _ hm => hm

theorem sendLine_chores (s : Scheduler) (session : SessionId) (line : String) :
    Chores P under s (s.sendLine session line).2 :=
  s.sessions_chores fun _ held => held.send session line

theorem answer_chores (s : Scheduler) (id : TaskId) (result : TaskAnswer) :
    Chores P under s (s.answer id result) := by
  unfold answer
  split
  · have told : Chores P under s { s with handles := s.handles.set id (some result) } :=
      .same rfl rfl rfl rfl
    exact told.trans (remark_chores _ rfl rfl)
  · cases result with
    | ok v => exact s.release_chores v
    | error f => exact .refl

theorem perform_chores (s : Scheduler) {e : Effect} (other : ∀ session, e ≠ .acquire session) :
    Chores P under s (s.perform e).2 := by
  have touched (s : Scheduler) (session : SessionId) (t : Session.Touch) :
      Chores P under s { s with sessions := (s.sessions.touch session t).2 } :=
    s.sessions_chores fun _ held => held.touch session t
  cases e with
  | acquire session => exact absurd rfl (other session)
  | login session player => exact touched s session (.login player)
  | send session line => exact s.sendLine_chores session line
  | push session line =>
    have now : Chores P under s s.now.2 := .same rfl rfl rfl rfl
    exact now.trans (touched s.now.2 session (.pushInput s.now.1 line))
  | disconnect session => exact touched s session .requestDisconnect
  | kill task =>
    simp only [perform]
    split
    · exact .same rfl rfl rfl rfl
    · exact .refl
  | remark r => exact s.remark_chores rfl rfl
  | waiters | maxThreads | setMaxThreads _ | setThreading _ | requestCheckpoint _
  | requestShutdown _ | owner _ | isWizard _ | newId | make _ | tryMake _ | keep _ | release _
  | workspace _ | queueStats => exact .same rfl rfl rfl rfl

/-! ## Kills -/

theorem clearAway_chores (s : Scheduler) (id : TaskId) (t : Task) {player : Obj}
    (gone : .killed id player ∈ s.trace) : Chores P under s (s.clearAway id t) := by
  unfold clearAway
  dsimp only
  have silenced : Chores P under s (s.askHost (·.killWaiters id)).2 :=
    (Chore.silence s id).chores
  have still_gone : .killed id player ∈ (s.askHost (·.killWaiters id)).2.trace :=
    List.mem_append_left _ gone
  generalize (s.askHost (·.killWaiters id)).2 = s' at silenced still_gone ⊢
  have withdrawn : Chores P under s' (s'.withdraw id).2 :=
    (Chore.withdraw s' id player still_gone).chores
  generalize s'.withdraw id = taken at withdrawn ⊢
  obtain ⟨results, s''⟩ := taken
  have counted : Chores P under s''
      { s''.releaseAll results with stats := { s''.stats with
        discarded := s''.stats.discarded + results.length
        killed := s''.stats.killed + 1 } } := .same rfl rfl rfl rfl
  refine silenced.trans (withdrawn.trans (counted.trans (.trans ?_ (releaseAll_chores _ _))))
  split
  · exact answer_chores _ _ _
  · exact .refl

theorem kill_chores (s : Scheduler) (id : TaskId) : Chores P under s (s.kill id).2 := by
  rw [kill_eq]
  split
  · exact .refl
  · rename_i t _
    have gone : .killed id t.player ∈
        ({ s with tasks := s.tasks.erase id }.note (.killed id t.player)).trace :=
      List.mem_append_right _ (List.mem_singleton_self _)
    exact (Chore.leave s id t.player).chores.trans (clearAway_chores _ id t gone)

theorem killAsked_chores (s : Scheduler) : Chores P under s s.killAsked := by
  have rested : Chores P under s { s with asked := [] } := .same rfl rfl rfl rfl
  exact rested.trans (Chores.foldl (fun s id => s.kill_chores id) s.asked _)

theorem killAll_chores (ids : List TaskId) (s : Scheduler) :
    Chores P under s (s.killAll ids).2 := by
  induction ids generalizing s with
  | nil => exact .refl
  | cons id ids ih =>
    have first : Chores P under s (s.kill id).2 := s.kill_chores id
    rw [killAll]
    split
    all_goals
      rename_i killed
      rw [killed] at first
      exact first.trans (ih _)

/-! ## The step of a task -/

theorem pick_chores (s : Scheduler) (id : TaskId) (input : Input) :
    Chores P (some id) s (s.pick id input).2 := by
  unfold pick
  split
  · exact s.releaseInput_chores input
  · split
    · have told : Chores P (some id) s (s.note (.reentered id)) := s.note_chores rfl fun _ its => its
      exact told.trans (releaseInput_chores _ _)
    · have delivered : Chores P (some id) s (s.noteDelivery id input) := by
        cases input with
        | start => exact .refl
        | resume v => exact s.note_chores rfl fun _ its => its
      have away := (Chore.rewrite (s.noteDelivery id input) id (fun t => { t with body := none })
        rfl nofun : Chore P (some id) _ _).chores
      exact delivered.trans (away.trans (note_chores _ rfl fun _ its => its))

theorem ended_chores (s : Scheduler) (id : TaskId) (result : Except String Value) {t : Task}
    (there : s.tasks.get? id = some t) :
    Chores P under ({ s with tasks := s.tasks.erase id }.note (.ended id result))
      (s.finish id result).2 := by
  have counted : Chores P under ({ s with tasks := s.tasks.erase id }.note (.ended id result))
      ({ s with tasks := s.tasks.erase id, stats := countEnd s.stats result }.note
        (.ended id result)) := .same rfl rfl rfl rfl
  rw [finish, complete_eq, there]
  dsimp only
  generalize { s with tasks := s.tasks.erase id, stats := countEnd s.stats result }.note
    (.ended id result) = s' at counted ⊢
  have told : Chores P under s' (s'.tellSession t result) := by
    unfold tellSession
    split
    · exact s'.sendLine_chores _ _
    · exact .refl
  refine counted.trans (told.trans (.trans ?_ (killAsked_chores _)))
  generalize s'.tellSession t result = s''
  unfold tellHandle
  split
  · cases result with
    | ok v => exact (s''.keep_chores v).trans (answer_chores _ _ _)
    | error message => exact s''.answer_chores _ _
  · exact .refl

theorem finish_chores (s : Scheduler) (id : TaskId) (result : Except String Value) :
    Chores P (some id) s (s.finish id result).2 := by
  cases there : s.tasks.get? id with
  | none =>
    rw [finish, complete_eq, there]
    exact s.killAsked_chores
  | some t => exact (Chore.finish s id result rfl).chores.trans (s.ended_chores id result there)

def received (s : Scheduler) (caller : Caller) (next : Caller → Input → Act)
    (response : Response) : (Act ⊕ StepOutcome) × Scheduler :=
  match s.immediate? response with
  | (.error h, s) => (.inr .parked, (s.park caller.task h).killAsked)
  | (.ok v, s) =>
    let s := s.killAsked
    if (s.tasks.get? caller.task).isSome then
      (.inl (next caller (.resume v)), s.takeBody caller.task (some v))
    else (.inr .gone, s.release v)

theorem move_background_eq (s : Scheduler) (caller : Caller) (envelope : Envelope)
    (callback : Callback) (held : List Value) (next : Caller → Input → Act) :
    Act.move caller (.background envelope callback held next) s =
      let asked := (s.putBack caller.task held next).toHost.suspend caller.task
        { envelope with callback }
      received { s.putBack caller.task held next with toHost := asked.2 } caller next asked.1 :=
  rfl

theorem putBack_chores (s : Scheduler) (id : TaskId) (held : List Value)
    {step : Caller → Input → Act} (its : ∀ description, P { description, held, step }) :
    Chores P (some id) s (s.putBack id held step) :=
  (Chore.rewrite s id (fun t => { t with body := some { description := t.description, held, step } })
    rfl fun t _ same => Or.inl (Option.some.inj same ▸ its t.description)).chores

theorem received_chores (s : Scheduler) (caller : Caller) (next : Caller → Input → Act)
    (response : Response) :
    Chores P (some caller.task) s (s.received caller next response).2 := by
  have answered : Chores P (some caller.task) s (s.immediate? response).2 := by
    rcases response with _ | _ | _ <;> exact .same rfl rfl rfl rfl
  unfold received
  generalize s.immediate? response = answer at answered
  obtain ⟨handle | v, s'⟩ := answer
  · have parked := (Chore.rewrite s' caller.task (fun t => { t with waiting := some handle }) rfl
      fun _ _ => Or.inr : Chore P (some caller.task) _ _).chores
    exact answered.trans (parked.trans (killAsked_chores _))
  · refine answered.trans (s'.killAsked_chores.trans ?_)
    dsimp only
    split
    · have away := (Chore.rewrite s'.killAsked caller.task (fun t => { t with body := none }) rfl
        nofun : Chore P (some caller.task) _ _).chores
      exact away.trans (note_chores _ rfl fun _ its => its)
    · exact release_chores _ v

/-! ## The loop -/

theorem create_chores (s : Scheduler) (player : Obj) (session : Option SessionId) {body : Body}
    (answerable : Bool) (its : P body) :
    Chores P under s (s.createTask player session body answerable).2 := by
  have made : Chore P under s _ := .create s player session body answerable false its
  rw [if_neg Bool.false_ne_true, List.append_nil] at made
  exact made.chores

theorem hire_chores (s : Scheduler) (player : Obj) (session : Option SessionId) {body : Body}
    (answerable : Bool) (its : P body) :
    Chores P under s
      ((s.createTask player session body answerable).2.enqueue (s.lastTask + 1) .start) :=
  (Chore.create s player session body answerable true its).chores

theorem submit_chores (s : Scheduler) (player : Obj) (session : Option SessionId) {body : Body}
    (its : P body) : Chores P under s (s.submit player session body).2 := by
  unfold submit
  split
  · exact s.releaseAll_chores _
  · exact (s.hire_chores player session true its).trans (Chores.same rfl rfl rfl rfl)

theorem handleMessage_chores (s : Scheduler) (ticket : Checkpoint.Ticket) {m : Message}
    (its : m.All P) : Chores P under s (s.handleMessage ticket m) := by
  have reply (s : Scheduler) (a : ClientAnswer) : Chores P under s (s.reply ticket a) :=
    s.remark_chores rfl rfl
  cases m with
  | submit player session body =>
    have submitted : Chores P under s (s.submit player session body).2 :=
      s.submit_chores player session its
    rw [handleMessage]
    split
    all_goals
      rename_i answer
      rw [answer] at submitted
      exact submitted.trans (reply _ _)
  | kill task =>
    have killed : Chores P under s (s.kill task).2 := s.kill_chores task
    rw [handleMessage]
    split
    all_goals
      rename_i answer
      rw [answer] at killed
      exact killed.trans (reply _ _)
  | checkpoint =>
    rw [handleMessage]
    split
    · exact s.remark_chores rfl rfl
    · exact .same rfl rfl rfl rfl
  | shutdown farewell =>
    have asked : Chores P under s { s with coordinator := s.coordinator.requestShutdown farewell } :=
      .same rfl rfl rfl rfl
    exact asked.trans (reply _ _)
  | waiters | queueStats => exact reply s _

theorem takeMessage_chores (stocked : s.Stocked P) : Chores P under s s.takeMessage := by
  unfold takeMessage
  split
  · exact .refl
  · rename_i ticket m rest waiting
    have taken : Chores P under s { s with messages := rest } :=
      .visit rfl rfl (fun _ held => held) fun _ hm => waiting ▸ List.mem_cons_of_mem _ hm
    have its := stocked.messages (ticket, m) (waiting ▸ List.mem_cons_self ..)
    exact taken.trans (handleMessage_chores _ ticket its)

theorem tellAll_chores (s : Scheduler) (answers : List (Checkpoint.Ticket × Checkpoint.Verdict)) :
    Chores P under s (s.tellAll answers) :=
  Chores.foldl (fun s (ticket, v) => s.remark_chores (e := .told ticket v) rfl rfl) answers s

theorem checkpoint_chores (s : Scheduler) (reason : Checkpoint.Reason) :
    Chores P under s (s.checkpoint reason).2 := by
  have written : Chores P under s (s.writeCheckpoint reason).2 := by
    unfold writeCheckpoint
    split <;> exact .same rfl rfl rfl rfl
  unfold checkpoint
  split
  all_goals
    rename_i answer
    rw [answer] at written
    exact written.trans (Chores.same rfl rfl rfl rfl)

theorem finishCheckpoint_chores (s : Scheduler) (verdict : Checkpoint.Verdict) :
    Chores P under s (s.finishCheckpoint verdict) := by
  have settled : Chores P under s
      { s.now.2 with coordinator := (s.coordinator.finish s.now.1 verdict).2 } :=
    .same rfl rfl rfl rfl
  unfold finishCheckpoint
  dsimp only
  split
  · exact settled.trans ((tellAll_chores _ _).trans (remark_chores _ rfl rfl))
  · exact settled.trans (tellAll_chores _ _)

theorem pollCheckpoint_chores (s : Scheduler) : Chores P under s s.pollCheckpoint := by
  have polled : Chores P under s
      { s.now.2 with coordinator := (s.coordinator.poll s.now.1).2 } := .same rfl rfl rfl rfl
  unfold pollCheckpoint
  dsimp only
  split
  · exact polled
  · exact polled.trans ((checkpoint_chores _ _).trans (finishCheckpoint_chores _ _))

theorem startCommand_chores (stocked : s.Stocked P) (entry : SessionId × String) :
    Chores P under s (s.startCommand entry) := by
  unfold startCommand
  dsimp only
  split
  · exact .refl
  · split
    · rename_i draft read
      have prepared : Chores P under s (s.prepare draft).2 := by
        obtain ⟨vs, w, built⟩ := s.toHost.buildAll_workspace draft.recipes
        rw [prepare, askHost, built]
        exact Chores.same rfl rfl rfl rfl
      exact prepared.trans (hire_chores _ _ _ false (stocked.parser _ _ read _))
    · exact s.sendLine_chores _ _

/-! ## From outside -/

/-- The bodies that a deed brings in. -/
def Deed.All (P : Body → Prop) : Deed → Prop
  | submit _ _ body => P body
  | post m => m.All P
  | _ => True

def Deed.Unheld (s : Scheduler) : Deed → Prop
  | elsewhere _ l _ => ∀ holds, s.sessions.HeldBy holds → l.sessions.HeldBy holds
  | _ => True

theorem detach_chores (s : Scheduler) (id : TaskId) : Chores P under s (s.detach id).2 := by
  unfold detach
  repeat' split
  all_goals exact Chores.same rfl rfl rfl rfl

theorem restoreLatest_chores (s : Scheduler) : Chores P under s s.restoreLatest.2 := by
  unfold restoreLatest
  split
  · rename_i d q _ _
    split
    · exact .refl
    · exact .refl
    · rename_i name _
      have finalizer := Checkpoint.load_finalizer d name q s.database s.heap
      dsimp only
      split <;> exact .same (by simp only [stock, finalizer]) rfl rfl rfl
  · exact .refl

theorem carryOut_chores (s : Scheduler) (deed : Deed) (outside : deed.isLoop = false)
    (its : deed.All P) (unheld : deed.Unheld s) : Chores P under s (deed.carryOut s) := by
  cases deed with
  | submit player session body => exact s.submit_chores player session its
  | kill id => exact s.kill_chores id
  | killMatching rule => exact (Chore.offer s rule).chores.trans (killAll_chores _ _)
  | detach id => exact s.detach_chores id
  | restoreLatest => exact s.restoreLatest_chores
  | beginDrain =>
    exact .visit rfl rfl (fun _ held => (held.broadcast _).same rfl) fun _ hm => hm
  | post m =>
    have counted : Chores P under s s.takeTicket.2 := .same rfl rfl rfl rfl
    exact counted.trans (Chore.arrive s.takeTicket.2 [(s.tickets, m)]
      fun _ hm => List.mem_singleton.1 hm ▸ its).chores
  | line session text =>
    exact .visit rfl rfl (fun _ held => held.touch session _) fun _ hm => hm
  | step handle => exact (Chore.work s handle).chores
  | elsewhere w l clock => exact .visit rfl rfl unheld fun _ hm => hm
  | awaitCheckpoint reason | setStarter starter => exact .same rfl rfl rfl rfl
  | tick _ | phase _ => cases outside

end Scheduler
end MooCore
