import MooCore.Proofs.Arguments
import MooCore.Proofs.Builtin.Room
import MooCore.Proofs.Scheduler.Modesty
import MooCore.Proofs.Scheduler.Returns
/-!
# Room for background threads

How many background threads there may be at a time is said once, by the configuration, and changed
by one effect of steps only. As long as every step that is taken sets limits of at least one thread,
a limit of none can only be the one that the server began with.
-/

set_option autoImplicit false
namespace MooCore
open Background

/-! ## What leaves the limit alone -/

theorem Bland.max {s s' : Scheduler} (bland : Bland s s') : s'.gateway.max = s.gateway.max :=
  congrArg Rights.max bland.rights

namespace Scheduler

variable (s : Scheduler)

theorem host_max {h : Host} (apart : Apart s.toHost h) : h.gateway.max = s.gateway.max := apart.max

theorem foldl_max {α : Type} {f : Scheduler → α → Scheduler}
    (each : ∀ s x, (f s x).gateway.max = s.gateway.max) (xs : List α) :
    (xs.foldl f s).gateway.max = s.gateway.max := by
  induction xs generalizing s with
  | nil => rfl
  | cons x xs ih => exact (ih _).trans (each s x)

theorem kill_max (id : TaskId) : (s.kill id).2.gateway.max = s.gateway.max := by
  have shed : Sheds (fun _ => false) ∅ s (s.kill id).2 := Sheds.kill s id fun _ _ => rfl
  exact congrArg Rights.max shed.recedes.rights

theorem killAsked_max : s.killAsked.gateway.max = s.gateway.max :=
  foldl_max _ (fun s id => s.kill_max id) s.asked

theorem killAll_max (ids : List TaskId) : (s.killAll ids).2.gateway.max = s.gateway.max := by
  induction ids generalizing s with
  | nil => rfl
  | cons id ids ih =>
    have first := s.kill_max id
    rw [killAll]
    split
    all_goals
      rename_i killed
      rw [killed] at first
      exact (ih _).trans first

theorem finish_max (id : TaskId) (result : Except String Value) :
    (s.finish id result).2.gateway.max = s.gateway.max := by
  have shed : Sheds (fun _ => false) ∅ s (s.complete id result) :=
    Sheds.complete s id result (by cases result <;> simp [Event.Modest])
  exact (killAsked_max _).trans (congrArg Rights.max shed.recedes.rights)

theorem perform_max {e : Effect} (other : ∀ n, e ≠ .setMaxThreads n) :
    (s.perform e).2.gateway.max = s.gateway.max := by
  cases e with
  | setMaxThreads n => exact absurd rfl (other n)
  | kill task =>
    rw [perform]
    split <;> rfl
  | _ => rfl

theorem received_max (caller : Caller) (next : Caller → Input → Act) (response : Response) :
    (s.received caller next response).2.gateway.max = s.gateway.max := by
  have answered := (Bland.immediate? s response).max
  unfold received
  generalize s.immediate? response = answer at answered
  obtain ⟨handle | v, s'⟩ := answer
  · exact (killAsked_max (s'.park caller.task handle)).trans answered
  · have killed := s'.killAsked_max.trans answered
    dsimp only
    split
    · exact killed
    · exact killed

theorem background_max (caller : Caller) (envelope : Envelope) (callback : Callback)
    (held : List Value) (next : Caller → Input → Act) :
    (Act.move caller (.background envelope callback held next) s).2.gateway.max =
      s.gateway.max := by
  rw [move_background_eq]
  exact (received_max _ caller next _).trans (host_max (s.putBack caller.task held next)
    (Host.suspend_apart _ caller.task { envelope with callback }))

theorem pick_max (id : TaskId) (input : Input) :
    (s.pick id input).2.gateway.max = s.gateway.max := by
  unfold pick
  split
  · exact (Bland.releaseInput s input).max
  · split
    · exact (Bland.releaseInput (s.note (.reentered id)) input).max
    · cases input with
      | start => rfl
      | resume v => rfl

theorem submit_max (player : Obj) (session : Option SessionId) (body : Body) :
    (s.submit player session body).2.gateway.max = s.gateway.max := by
  unfold submit
  split <;> rfl

theorem takeMessage_max : s.takeMessage.gateway.max = s.gateway.max := by
  have handled (s : Scheduler) (ticket : Checkpoint.Ticket) (m : Message) :
      (s.handleMessage ticket m).gateway.max = s.gateway.max := by
    cases m with
    | submit player session body =>
      have submitted := s.submit_max player session body
      rw [handleMessage]
      split
      all_goals
        rename_i answer
        rw [answer] at submitted
        exact submitted
    | kill task =>
      have killed := s.kill_max task
      rw [handleMessage]
      split
      all_goals
        rename_i answer
        rw [answer] at killed
        exact killed
    | checkpoint =>
      rw [handleMessage]
      split <;> rfl
    | shutdown farewell | waiters | queueStats => rfl
  unfold takeMessage
  split
  · rfl
  · exact handled _ _ _

theorem takeCompletion_max : s.takeCompletion.gateway.max = s.gateway.max := by
  unfold takeCompletion
  split
  · rfl
  · unfold handleCompletion
    dsimp only
    split
    · rfl
    · split <;> rfl

theorem tellAll_max (answers : List (Checkpoint.Ticket × Checkpoint.Verdict)) :
    (s.tellAll answers).gateway.max = s.gateway.max :=
  foldl_max s (fun s (ticket, v) => show (s.tell ticket v).gateway.max = s.gateway.max from rfl)
    answers

theorem checkpoint_max (reason : Checkpoint.Reason) :
    (s.checkpoint reason).2.gateway.max = s.gateway.max := by
  have written : (s.writeCheckpoint reason).2.gateway.max = s.gateway.max := by
    unfold writeCheckpoint
    split <;> rfl
  unfold checkpoint
  split
  all_goals
    rename_i answer
    rw [answer] at written
    exact written

theorem pollCheckpoint_max : s.pollCheckpoint.gateway.max = s.gateway.max := by
  have finished (s : Scheduler) (verdict : Checkpoint.Verdict) :
      (s.finishCheckpoint verdict).gateway.max = s.gateway.max := by
    unfold finishCheckpoint
    dsimp only
    split
    · exact tellAll_max _ _
    · exact tellAll_max _ _
  unfold pollCheckpoint
  dsimp only
  split
  · rfl
  · exact (finished _ _).trans (checkpoint_max _ _)

theorem startCommand_max (entry : SessionId × String) :
    (s.startCommand entry).gateway.max = s.gateway.max := by
  unfold startCommand
  dsimp only
  split
  · rfl
  · split
    · exact (Bland.prepare s _).max
    · exact (Bland.sendLine s _ _).max

theorem restoreLatest_max : s.restoreLatest.2.gateway.max = s.gateway.max := by
  unfold restoreLatest
  repeat' split
  all_goals rfl

theorem detach_max (id : TaskId) : (s.detach id).2.gateway.max = s.gateway.max := by
  unfold detach
  repeat' split
  all_goals rfl

theorem conclude_max (timedOut : Bool) :
    (s.conclude timedOut).2.gateway.max = s.gateway.max := by
  have written : s.finalCheckpoint.2.gateway.max = s.gateway.max := by
    unfold finalCheckpoint
    split
    · exact s.checkpoint_max .shutdown
    · rfl
  have abandoned (s : Scheduler) (entry : TaskId × Task) :
      (s.abandon entry).gateway.max = s.gateway.max := by
    unfold abandon
    dsimp only
    split
    · exact (Bland.answer s entry.1 _).max
    · rfl
  have released (s : Scheduler) (entry : TaskId × Input) :
      (s.releaseInput entry.2).gateway.max = s.gateway.max := (Bland.releaseInput s entry.2).max
  have failed : s.finalCheckpoint.2.failWaiting.gateway.max = _ := tellAll_max _ _
  have left : s.finalCheckpoint.2.failWaiting.abandonAll.gateway.max = _ := foldl_max _ abandoned _
  have cleared : s.finalCheckpoint.2.failWaiting.abandonAll.clearReady.gateway.max = _ :=
    foldl_max _ released _
  exact cleared.trans (left.trans (failed.trans written))

theorem carryOut_max (deed : Deed) (outside : deed.isLoop = false) :
    (deed.carryOut s).gateway.max = s.gateway.max := by
  cases deed with
  | submit player session body => exact s.submit_max player session body
  | kill id => exact s.kill_max id
  | killMatching rule =>
    exact (killAll_max _ _).trans (host_max s (s.toHost.enumerate_apart rule))
  | detach id => exact s.detach_max id
  | restoreLatest => exact s.restoreLatest_max
  | step handle => exact host_max s (s.toHost.step_apart handle)
  | awaitCheckpoint _ | beginDrain | post _ | line _ _ | setStarter _ | elsewhere _ _ _ => rfl
  | tick _ | phase _ => cases outside

theorem perform_stocked {P : Body → Prop} {s : Scheduler} (stocked : s.Stocked P) (e : Effect) :
    (s.perform e).2.Stocked P := by
  by_cases taking : ∃ session, e = .acquire session
  · obtain ⟨session, rfl⟩ := taking
    exact stocked.of_tasks stocked.bodies (fun _ hm => hm) rfl rfl
  · have done : Chores P none s (s.perform e).2 :=
      s.perform_chores fun session same => taking ⟨session, same⟩
    exact done.stocked stocked

theorem carryOut_stocked {P : Body → Prop} {s : Scheduler} (stocked : s.Stocked P) {deed : Deed}
    (outside : deed.isLoop = false) (its : deed.All P) : (deed.carryOut s).Stocked P := by
  have done (unheld : deed.Unheld s) : (deed.carryOut s).Stocked P :=
    have chores : Chores P none s (deed.carryOut s) := s.carryOut_chores deed outside its unheld
    chores.stocked stocked
  cases deed with
  | elsewhere w l clock => exact stocked.of_tasks stocked.bodies (fun _ hm => hm) rfl rfl
  | _ => exact done trivial

theorem conclude_stocked {P : Body → Prop} {s : Scheduler} (stocked : s.Stocked P)
    (timedOut : Bool) : (s.conclude timedOut).2.Stocked P := by
  have failed : Chores P none s s.finalCheckpoint.2.failWaiting :=
    s.finalCheckpoint_chores.trans (failWaiting_chores _)
  have abandoned (s : Scheduler) (stocked : s.Stocked P) : s.abandonAll.Stocked P :=
    have gone : Chores P none { s with tasks := [] } s.abandonAll :=
      Chores.foldl abandon_chores s.tasks _
    gone.stocked (stocked.of_tasks nofun (fun _ hm => hm) rfl rfl)
  have cleared (s : Scheduler) (stocked : s.Stocked P) : s.clearReady.Stocked P :=
    have gone : Chores P none { s with ready := [] } s.clearReady :=
      Chores.foldl (fun s entry => s.releaseInput_chores entry.2) s.ready _
    gone.stocked (stocked.of_tasks stocked.bodies (fun _ hm => hm) rfl rfl)
  have left := cleared _ (abandoned _ (failed.stocked stocked))
  exact left.of_tasks left.bodies (fun _ hm => hm) rfl rfl

theorem perform_room {e : Effect} (its : e.LeavesRoom) :
    (s.perform e).2.gateway.max = s.gateway.max ∨ 1 ≤ (s.perform e).2.gateway.max := by
  cases e with
  | setMaxThreads n => exact Or.inr its
  | _ => exact Or.inl (s.perform_max nofun)

end Scheduler

/-! ## Whatever happens -/

namespace Work
open Scheduler

variable {P : Body → Prop} {w w' : Work} {m : Nat}

/-- Something befalls a server: the loop takes a turn, something is done to it or to its sessions and
values from outside, messages come in, checkpoints or the shutdown are asked for, or threads are no
longer waited for. The bodies that come in are as given. -/
inductive Befalls (P : Body → Prop) : Work → Work → Prop where
  | turn {w w' : Work} (turn : Turn w w') : Befalls P w w'
  | deed (s : Scheduler) (batch act) (deed : Deed) (outside : deed.isLoop = false)
      (its : deed.All P) : Befalls P ⟨s, batch, act⟩ ⟨deed.carryOut s, batch, act⟩
  | arrive (s : Scheduler) (batch act) (messages : List (Checkpoint.Ticket × Message))
      (its : ∀ m ∈ messages, m.2.All P) :
      Befalls P ⟨s, batch, act⟩ ⟨{ s with messages := s.messages ++ messages }, batch, act⟩
  | asked (s : Scheduler) (batch act) (coordinator : Checkpoint.Coordinator) :
      Befalls P ⟨s, batch, act⟩ ⟨{ s with coordinator }, batch, act⟩
  | conclude (s : Scheduler) (batch act) (timedOut : Bool) :
      Befalls P ⟨s, batch, act⟩ ⟨(s.conclude timedOut).2, batch, act⟩

abbrev Befallen (P : Body → Prop) : Work → Work → Prop := Relation.ReflTransGen (Befalls P)

theorem Turns.befallen (turns : Turns w w') : Befallen P w w' :=
  Relation.ReflTransGen.mono (fun _ _ => Befalls.turn) _ _ turns

/-- The limit is the given one or leaves room for a thread, and so does every limit that a task or
the step under way may set. -/
structure Roomy (m : Nat) (w : Work) : Prop where
  stocked : w.server.Stocked Body.LeavesRoom
  act : ∀ x ∈ w.act, x.2.Does Effect.LeavesRoom
  limit : w.server.gateway.max = m ∨ 1 ≤ w.server.gateway.max

theorem Roomy.beside {s s' : Scheduler} {batch batch' : List (TaskId × Input)}
    {act : Option (Caller × Act)} (roomy : Roomy m ⟨s, batch, act⟩)
    (limit : s'.gateway.max = s.gateway.max) (stocked : s'.Stocked Body.LeavesRoom) :
    Roomy m ⟨s', batch', act⟩ where
  stocked := stocked
  act := roomy.act
  limit := by
    rw [limit]
    exact roomy.limit

theorem Roomy.of_chores {s s' : Scheduler} {batch batch' : List (TaskId × Input)}
    {act : Option (Caller × Act)} (roomy : Roomy m ⟨s, batch, act⟩)
    (limit : s'.gateway.max = s.gateway.max) (chores : Chores Body.LeavesRoom none s s') :
    Roomy m ⟨s', batch', act⟩ := roomy.beside limit (chores.stocked roomy.stocked)

theorem Roomy.pick {s : Scheduler} {batch : List (TaskId × Input)} {id : TaskId} {input : Input}
    (roomy : Roomy m ⟨s, (id, input) :: batch, none⟩) :
    Roomy m ⟨(s.pick id input).2, batch, (s.pick id input).1⟩ where
  stocked := (s.pick_chores id input).stocked roomy.stocked
  act := by
    intro x mem
    unfold Scheduler.pick at mem
    split at mem
    · cases mem
    · rename_i t found
      split at mem
      · cases mem
      · rename_i body its
        obtain rfl := Option.some.inj mem
        exact roomy.stocked.bodies (id, t) (Named.mem_of_get? found) body its _ input
  limit := by
    rw [s.pick_max]
    exact roomy.limit

theorem Roomy.move {s : Scheduler} {batch : List (TaskId × Input)} {caller : Caller} {act : Act}
    (roomy : Roomy m ⟨s, batch, some (caller, act)⟩) :
    Roomy m ⟨(act.move caller s).2, batch, goingOn caller (act.move caller s).1⟩ := by
  have finished (result : Except String Value) :
      Roomy m ⟨(s.finish caller.task result).2, batch, none⟩ :=
    ⟨(s.finish_chores caller.task result).stocked roomy.stocked, nofun, by
      rw [s.finish_max]
      exact roomy.limit⟩
  have its : act.Does Effect.LeavesRoom := roomy.act (caller, act) rfl
  -- The rest of the step goes on being one that leaves room, also after work in the background,
  -- where it waits in the table as the body of its task.
  cases its with
  | complete v => exact finished (.ok v)
  | abort message => exact finished (.error message)
  | effect e next its going_on =>
    refine ⟨perform_stocked roomy.stocked e, fun x mem => Option.some.inj mem ▸ going_on _, ?_⟩
    rcases s.perform_room its with same | some_threads
    · exact same ▸ roomy.limit
    · exact Or.inr some_threads
  | background envelope callback held next going_on =>
    refine ⟨?_, ?_, ?_⟩
    · rw [move_background_eq]
      have put : (s.putBack caller.task held next).Stocked Body.LeavesRoom :=
        (s.putBack_chores caller.task held fun _ => going_on).stocked roomy.stocked
      exact (received_chores _ caller next _).stocked
        (put.of_tasks put.bodies (fun _ hm => hm) rfl rfl)
    · intro x mem
      cases moved : ((Act.background envelope callback held next).move caller s).1 with
      | inl act =>
        rw [moved] at mem
        obtain ⟨v, rfl⟩ := Act.move_background moved
        exact Option.some.inj mem ▸ going_on caller (.resume v)
      | inr outcome =>
        rw [moved] at mem
        cases mem
    · rw [s.background_max]
      exact roomy.limit

theorem Turn.roomy (turn : Turn w w') (roomy : Roomy m w) : Roomy m w' := by
  have stocked := roomy.stocked
  cases turn with
  | message s => exact roomy.of_chores s.takeMessage_max (takeMessage_chores stocked)
  | result s => exact roomy.beside s.takeCompletion_max stocked.takeCompletion
  | poll s => exact roomy.of_chores s.pollCheckpoint_max s.pollCheckpoint_chores
  | values | destroy | takeLines | takeUp | sweep =>
    exact roomy.beside rfl (stocked.of_tasks stocked.bodies (fun _ hm => hm) rfl rfl)
  | summon s batch v body its =>
    exact roomy.of_chores rfl (s.create_chores .system none false (stocked.database v body its))
  | command s batch entry =>
    exact roomy.of_chores (s.startCommand_max entry) (startCommand_chores stocked entry)
  | pick s batch id input => exact roomy.pick
  | move s batch caller act => exact roomy.move

theorem Befalls.roomy (befalls : Befalls Body.LeavesRoom w w') (roomy : Roomy m w) :
    Roomy m w' := by
  cases befalls with
  | turn turn => exact turn.roomy roomy
  | deed s batch act deed outside its =>
    refine roomy.beside (s.carryOut_max deed outside) (carryOut_stocked roomy.stocked outside its)
  | arrive s batch act messages its =>
    exact roomy.of_chores rfl (Chore.arrive s messages its).chores
  | asked s batch act coordinator => exact roomy.of_chores rfl (Chores.same rfl rfl rfl rfl)
  | conclude s batch act timedOut =>
    exact roomy.beside (s.conclude_max timedOut) (conclude_stocked roomy.stocked timedOut)

theorem Befallen.roomy (befallen : Befallen Body.LeavesRoom w w') (roomy : Roomy m w) :
    Roomy m w' := by
  induction befallen with
  | refl => exact roomy
  | tail _ befalls ih => exact befalls.roomy ih

theorem ofConfig_roomy (c : Config) {database : Database} {parser : CommandParser} (clock : Instant)
    (parsed : parser.All Body.LeavesRoom) (finalizers : database.All Body.LeavesRoom) :
    Roomy c.runtime.maxBackgroundThreads (idle (ofConfig c database parser clock)) where
  stocked := ⟨nofun, nofun, parsed, finalizers⟩
  act := nofun
  limit := Or.inl rfl

/-- Whatever the command line and the configuration file say, and whichever way the file is read, if
they are accepted. No call of a function, whoever makes it and whatever with, sets a limit that
leaves no room for a thread. So from the start of a server, as long as all bodies are like that, the
limit is the one of the configuration or leaves room for a thread; and it leaves room for one at
every moment, whatever happens, unless the file says that there is to be no thread and the command
line says nothing about it. -/
theorem room_for_threads_iff {a : Arguments} {file : String → Option String}
    {read : String → Option Config} {c : Config} (loads : a.loadConfig file read = .ok c)
    (database : Database) (parser : CommandParser)
    (clock : Instant) (parsed : parser.All Body.LeavesRoom)
    (finalizers : database.All Body.LeavesRoom) :
    (∀ (b : Builtin) (args : List Value), (b.body args).LeavesRoom) ∧
    (∀ w, Befallen Body.LeavesRoom (idle (ofConfig c database parser clock)) w →
      w.server.gateway.max = c.runtime.maxBackgroundThreads ∨ 1 ≤ w.server.gateway.max) ∧
    ((∀ w, Befallen Body.LeavesRoom (idle (ofConfig c database parser clock)) w →
        1 ≤ w.server.gateway.max) ↔
      ¬ (a.maxBackgroundThreads = none ∧
        ∃ base, a.base? file read = some base ∧ base.runtime.maxBackgroundThreads = 0)) := by
  have limited (w : Work)
      (befallen : Befallen Body.LeavesRoom (idle (ofConfig c database parser clock)) w) :
      w.server.gateway.max = c.runtime.maxBackgroundThreads ∨ 1 ≤ w.server.gateway.max :=
    (befallen.roomy (ofConfig_roomy c clock parsed finalizers)).limit
  refine ⟨Builtin.body_leavesRoom, limited, ?_⟩
  rw [← Arguments.no_room_iff loads]
  constructor
  · intro always none
    have began : 1 ≤ c.runtime.maxBackgroundThreads := always _ .refl
    omega
  · intro some_threads w befallen
    rcases limited w befallen with same | room
    · omega
    · exact room

/-- A configuration file that sets the limit only. -/
def fileWith (limit : String) : String :=
  "\x7b\"runtime\":\x7b\"max_background_threads\":" ++ limit ++ "\x7d\x7d"

def naming : Arguments := { configFile := some "stunt.json" }

def serverWith (limit : Nat) : Scheduler :=
  ofConfig { runtime := { maxBackgroundThreads := limit } } (.placeholders 0 [] .absent)
    Command.read 0

/-- The server itself calls for a new limit. -/
def callFor (limit : Int64) (s : Scheduler) : Scheduler :=
  ((Deed.submit .system none
    (Builtin.setMaxBackgroundThreads.body [.int limit])).carryOut s).tick.2

theorem callFor_befallen (limit : Int64) (s : Scheduler) :
    Befallen Body.LeavesRoom (idle s) (idle (callFor limit s)) := by
  have called : Befalls Body.LeavesRoom (idle s)
      (idle ((Deed.submit .system none
        (Builtin.setMaxBackgroundThreads.body [.int limit])).carryOut s)) :=
    .deed s [] none _ rfl (Builtin.body_leavesRoom _ _)
  exact (Relation.ReflTransGen.single called).trans (tick_turns _ false).befallen

/-- With a limit of three in the file there is always room for a thread; a limit of none that is
called for is turned down, and one of five is taken. -/
theorem three_threads_room :
    Arguments.parse ["--config-file", "stunt.json"] = .ok naming ∧
    (∀ w, Befallen Body.LeavesRoom (idle (serverWith 3)) w → 1 ≤ w.server.gateway.max) ∧
    Befallen Body.LeavesRoom (idle (serverWith 3)) (idle (callFor 5 (callFor 0 (serverWith 3)))) ∧
    (callFor 0 (serverWith 3)).gateway.max = 3 ∧
    (callFor 5 (callFor 0 (serverWith 3))).gateway.max = 5 := by
  have loads : naming.loadConfig (fun _ => some (fileWith "3")) Config.ofText? =
      .ok { runtime := { maxBackgroundThreads := 3 } } := by decide +kernel
  have based : naming.base? (fun _ => some (fileWith "3")) Config.ofText? =
      some { runtime := { maxBackgroundThreads := 3 } } := by decide +kernel
  obtain ⟨-, -, room⟩ := room_for_threads_iff loads (.placeholders 0 [] .absent) Command.read 0
    Command.read_leavesRoom (Database.placeholders_leavesRoom 0 [] .absent)
  refine ⟨by decide +kernel, room.2 ?_, ?_, by decide +kernel, by decide +kernel⟩
  · rintro ⟨-, base, reads, none⟩
    obtain rfl := Option.some.inj (based.symm.trans reads)
    cases none
  · exact (callFor_befallen 0 _).trans (callFor_befallen 5 _)

/-- A file that says that there is to be no thread is accepted, and every request is turned down. -/
theorem no_threads_accepted :
    Arguments.parse ["--config-file", "stunt.json"] = .ok naming ∧
    naming.loadConfig (fun _ => some (fileWith "0")) Config.ofText? =
      .ok { runtime := { maxBackgroundThreads := 0 } } ∧
    Befallen Body.LeavesRoom (idle (serverWith 0)) (idle (serverWith 0)) ∧
    (serverWith 0).gateway.max = 0 ∧
    ∀ task, (serverWith 0).gateway.admission task = .refused (.tooManyThreads 0 0) :=
  ⟨by decide +kernel, by decide +kernel, .refl, rfl, fun _ => rfl⟩

end Work
end MooCore
