import MooCore.Proofs.Scheduler.Rounds
/-!
# Where every task is

Whatever happens to a scheduler, and in whatever order, each of its tasks is in the ready queue, at
work behind the handle that it waits for, or about to be told the result of that work, and in one of
these places only.
-/

set_option autoImplicit false
namespace MooCore

theorem Database.load_finalizer (d : Database) (n : Option Nat) :
    (d.load n).finalizer = d.finalizer := by
  cases n <;> rfl

theorem Checkpoint.restore_finalizer (path : String) (q : SinkId) (d : Database) (i : Intake) :
    (restore path q d i).2.1.finalizer = d.finalizer := by
  unfold restore
  repeat' split
  all_goals first | rfl | exact d.load_finalizer _

theorem Checkpoint.load_finalizer (dir : Directory) (name : String) (q : SinkId) (d : Database)
    (heap : Heap) : (dir.load name q d heap).2.1.finalizer = d.finalizer := by
  unfold Directory.load
  split
  · rfl
  · rfl
  · exact restore_finalizer _ _ _ _

namespace Scheduler
open Background

variable {p : Prop} {s : Scheduler} {hand : Hand} {id : TaskId} {h : Handle} {t : Task}

/-! ## What else may happen -/

theorem restoreLatest_alike (s : Scheduler) : Alike s s.restoreLatest.2 := by
  unfold restoreLatest
  split
  · rename_i d q _ _
    split
    · exact Alike.refl s
    · exact Alike.refl s
    · rename_i name _
      have finalizer := Checkpoint.load_finalizer d name q s.database s.heap
      dsimp only
      split <;> exact Alike.of_same (by simp only [bearing, finalizer])
  · exact Alike.refl s

theorem detach_alike (s : Scheduler) (task : TaskId) : Alike s (s.detach task).2 := by
  have let_go := s.handles_alike (s.handles.erase task)
  unfold detach
  split
  · exact Alike.refl s
  · dsimp only
    split
    · exact let_go.trans (release_alike _ _)
    · exact let_go
    · exact let_go

theorem arrive_onward {m : Message} (calm : p → m.Calm) (s : Scheduler)
    (ticket : Checkpoint.Ticket) (hand : Hand) :
    Onward p s hand { s with messages := s.messages ++ [(ticket, m)] } hand := by
  refine ⟨Nat.le_refl _, fun given _ orderly => ?_⟩
  refine { orderly with calm := { orderly.calm with messages := fun x hx => ?_ } }
  rcases List.mem_append.1 hx with old | new
  · exact orderly.calm.messages x old
  · exact List.mem_singleton.1 new ▸ calm given

theorem post_onward {m : Message} (calm : p → m.Calm) (s : Scheduler) (hand : Hand) :
    Onward p s hand (s.post m).2 hand := by
  have counted : Alike s s.takeTicket.2 := .of_same rfl
  exact (counted.onward hand).trans (arrive_onward calm _ _ hand)

theorem step_onward (s : Scheduler) (handle : Handle) (hand : Hand) :
    Onward p s { hand with condemned := [] } (s.onHost (·.step handle))
      { hand with condemned := [] } := by
  refine ⟨(s.toHost.step_grows handle).longest, fun _ few orderly => ?_⟩
  have worked := orderly.kept.step_worked orderly.listening orderly.calm.jobs handle
  obtain ⟨given_up, same, silenced⟩ := worked.errands
  refine orderly.host hand.out (orderly.kept.step few) worked.listening worked.trace
    (fun w hw => Or.inl (worked.waiters w hw))
    (fun j hj r at_start => Or.inl (worked.jobs j hj r at_start)) ?_
  refine Roster.shed given_up ?_ fun x hx => ?_
  · refine orderly.roster.perm (List.Perm.refl _) ?_
    rw [abroad, ← List.append_assoc]
    exact same.append_right _
  · obtain ⟨w, hw, silent, rfl⟩ := silenced x hx
    rcases orderly.wanted w hw with active | gone | doomed
    · rw [silent] at active
      cases active
    · exact gone
    · cases doomed

/-! ## Runs -/

/-- A phase of the main loop. -/
inductive Phase where
  | wait (eager : Bool)
  | events
  | checkpoint
  | finalizers
  | commands
  | ready
  | sweep

def Phase.run (s : Scheduler) : Phase → Scheduler
  | wait eager => s.waitForEvent eager
  | events => s.processEvents
  | checkpoint => s.pollCheckpoint
  | finalizers => s.drainOnce
  | commands => s.startCommands
  | ready => s.runReady
  | sweep => s.sweep

/-- One thing that happens to a scheduler: it is called directly, a message or a line is put before
it, it goes a round or through one phase of it, a worker takes its next step, or the rest of the
server goes on. -/
inductive Deed where
  | submit (player : Obj) (session : Option SessionId) (body : Body)
  | kill (task : TaskId)
  | killMatching (rule : TaskId → String → Verdict)
  | detach (task : TaskId)
  | awaitCheckpoint (reason : Checkpoint.Reason)
  | restoreLatest
  | beginDrain
  | post (m : Message)
  | line (session : SessionId) (text : String)
  | tick (eager : Bool)
  | phase (f : Phase)
  | step (handle : Handle)
  | setStarter (starter : Starter)
  | elsewhere (w : Workspace) (l : Lobby) (clock : Instant)

/-- Tasks reach the background only by what their own steps ask for. -/
def Deed.Calm : Deed → Prop
  | submit _ _ body => body.Calm
  | post m => m.Calm
  | _ => True

def Deed.carryOut (s : Scheduler) : Deed → Scheduler
  | submit player session body => (s.submit player session body).2
  | kill task => (s.kill task).2
  | killMatching rule => (s.killMatching rule).2.2
  | detach task => (s.detach task).2
  | awaitCheckpoint reason => (s.awaitCheckpoint reason).2
  | restoreLatest => s.restoreLatest.2
  | beginDrain => s.beginDrain
  | post m => (s.post m).2
  | line session text => { s with sessions := (s.sessions.pushInput s.clock session text).2 }
  | tick eager => (s.tick eager).2
  | phase f => f.run s
  | step handle => s.onHost (·.step handle)
  | setStarter starter => { s with starter }
  | elsewhere w l clock => { s with toWorkspace := w, toLobby := l, clock }

def carryOut (s : Scheduler) (deeds : List Deed) : Scheduler := deeds.foldl Deed.carryOut s

theorem Phase.run_onward (s : Scheduler) (f : Phase) : Onward p s {} (f.run s) {} := by
  cases f with
  | wait eager => exact s.waitForEvent_onward eager {}
  | events => exact s.processEvents_onward {}
  | checkpoint => exact s.pollCheckpoint_alike.onward {}
  | finalizers => exact s.drainOnce_onward {}
  | commands => exact s.startCommands_onward {}
  | ready => exact s.runReady_onward {}
  | sweep => exact s.sweep_alike.onward {}

theorem Deed.carryOut_onward {deed : Deed} (calm : deed.Calm) (s : Scheduler) :
    Onward True s {} (deed.carryOut s) {} := by
  cases deed with
  | submit player session body => exact submit_onward (fun _ => calm) s player session {}
  | kill task => exact s.kill_onward task {}
  | killMatching rule => exact s.killMatching_onward rule {}
  | detach task => exact (s.detach_alike task).onward {}
  | restoreLatest => exact s.restoreLatest_alike.onward {}
  | post m => exact post_onward (fun _ => calm) s {}
  | tick eager => exact s.tick_onward eager
  | phase f => exact Phase.run_onward s f
  | step handle => exact s.step_onward handle {}
  | awaitCheckpoint _ | beginDrain | line _ _ | setStarter _ | elsewhere _ _ _ =>
    refine Alike.onward ?_ {}
    exact Alike.of_same rfl

theorem ofConfig_orderly (c : Config) {database : Database} {parser : CommandParser}
    (clock : Instant) (parser_calm : parser.Calm) (database_calm : database.Calm) :
    (ofConfig c database parser clock).Orderly {} where
  kept := (Host.opened_kept Workspace.start { sessions := { timeout := 0 } } 0 true).same_table rfl
    rfl rfl rfl rfl rfl rfl
  listening := rfl
  fine := nofun
  roster := ⟨List.nodup_nil, nofun, nofun, nofun, nofun, nofun, nofun⟩
  live := nofun
  wanted := nofun
  resumed := nofun
  calm := ⟨nofun, nofun, nofun, parser_calm, database_calm⟩

theorem carryOut_onward {deeds : List Deed} (calm : ∀ deed ∈ deeds, deed.Calm) (s : Scheduler) :
    Onward True s {} (s.carryOut deeds) {} :=
  Onward.foldl (fun deed mem s => Deed.carryOut_onward (calm deed mem) s) s

/-! ## Places -/

/-- A task has one turn in the ready queue and is on no errand. -/
structure Queued (s : Scheduler) (id : TaskId) (t : Task) : Prop where
  waiting : t.waiting = none
  turn : (s.ready.map Prod.fst).count id = 1
  unmanned : ∀ w ∈ s.gateway.waiters, w.task ≠ id
  unsent : ∀ c ∈ s.channel, c.task ≠ id

/-- A task is worked for behind the handle that it waits for, by a thread whose result it will be
told. -/
structure AtWork (s : Scheduler) (id : TaskId) (t : Task) (h : Handle) : Prop where
  waiting : t.waiting = some h
  no_turn : id ∉ s.ready.map Prod.fst
  waiter : ∃ w, s.gateway.waiters.filter (·.task = id) = [w] ∧ w.handle = h ∧ w.active = true
  job : ∃ j ∈ s.jobs, j.handle = h ∧ j.task = id
  unsent : ∀ c ∈ s.channel, c.task ≠ id

/-- The result that a task waits for is on its way. -/
structure Told (s : Scheduler) (id : TaskId) (t : Task) (h : Handle) : Prop where
  waiting : t.waiting = some h
  no_turn : id ∉ s.ready.map Prod.fst
  unmanned : ∀ w ∈ s.gateway.waiters, w.task ≠ id
  result : ∃ c, s.channel.filter (·.task = id) = [c] ∧ c.handle = h

/-- Every task is in one place, and nothing is in the ready queue or the channel that does not
belong there. -/
structure InOrder (s : Scheduler) : Prop where
  heard : s.listening = true
  distinct : (s.tasks.map Prod.fst).Nodup
  body : ∀ x ∈ s.tasks, x.2.body.isSome = true
  place : ∀ x ∈ s.tasks,
    s.Queued x.1 x.2 ∨ ∃ h, s.AtWork x.1 x.2 h ∨ s.Told x.1 x.2 h
  live : ∀ x ∈ s.ready, x.1 ∈ s.tasks.map Prod.fst
  awaited : ∀ c ∈ s.channel, ∀ x ∈ s.tasks, x.1 = c.task → x.2.waiting = some c.handle
  resumed : ∀ id v, (id, .resume v) ∈ s.ready →
    ∃ c, .taken c ∈ s.trace ∧ c.task = id ∧ c.result = v
  entered_once : ∀ id, .reentered id ∉ s.trace
  none_stray : ∀ h id, .stray h id ∉ s.trace
  never_twice : ∀ n id, .refused n (.alreadyWaiting id) ∉ s.trace

theorem handlesOf_errands (s : Scheduler) (id : TaskId) :
    handlesOf (s.abroad {}) id = (s.gateway.waiters.filter (·.task = id)).map Waiter.handle ++
      (s.channel.filter (·.task = id)).map Completion.handle := by
  simp only [handlesOf, abroad, Host.errands, List.append_nil, List.filter_append,
    List.filter_map, List.map_append, List.map_map]
  rfl

theorem Orderly.place (orderly : s.Orderly {}) (live : (id, t) ∈ s.tasks) :
    t.body.isSome = true ∧ (s.Queued id t ∨ ∃ h, s.AtWork id t h ∨ s.Told id t h) := by
  obtain ⟨body, away, turn⟩ := orderly.roster.stands _ live nofun
  refine ⟨body, ?_⟩
  rw [handlesOf_errands] at away
  have none_of_nil {α : Type} {l : List α} {f : α → Handle} {q : α → TaskId}
      (nil : (l.filter (q · = id)).map f = []) : ∀ a ∈ l, q a ≠ id := by
    simpa using nil
  cases waiting : t.waiting with
  | none =>
    rw [waiting] at away turn
    obtain ⟨no_waiter, no_result⟩ := List.append_eq_nil_iff.1 away.eq_nil
    exact Or.inl ⟨waiting, turn, none_of_nil no_waiter, none_of_nil no_result⟩
  | some h =>
    rw [waiting] at away turn
    have no_turn : id ∉ s.ready.map Prod.fst := List.count_eq_zero.1 turn
    refine Or.inr ⟨h, ?_⟩
    rcases List.append_eq_singleton_iff.1 (List.perm_singleton.1 away) with
      ⟨no_waiter, result⟩ | ⟨waiter, no_result⟩
    · obtain ⟨c, only, handle⟩ := List.map_eq_singleton_iff.1 result
      exact Or.inr ⟨waiting, no_turn, none_of_nil no_waiter, c, only, handle⟩
    · obtain ⟨w, only, handle⟩ := List.map_eq_singleton_iff.1 waiter
      have mem : w ∈ s.gateway.waiters.filter (·.task = id) := only ▸ List.mem_singleton_self w
      obtain ⟨hw, its⟩ := List.mem_filter.1 mem
      have task : w.task = id := by simpa using its
      obtain ⟨j, hj, same, same_task⟩ := orderly.kept.job_of_waiter hw
      have wanted : w.active = true := by
        rcases orderly.wanted w hw with active | gone | doomed
        · exact active
        · exact absurd (task ▸ List.mem_map_of_mem live) gone
        · cases doomed
      exact Or.inl ⟨waiting, no_turn, ⟨w, only, handle, wanted⟩,
        ⟨j, hj, same.trans handle, same_task.trans task⟩, none_of_nil no_result⟩

theorem Orderly.inOrder (orderly : s.Orderly {}) : s.InOrder where
  heard := orderly.listening
  distinct := orderly.roster.distinct
  body := fun _ hx => (orderly.place hx).1
  place := fun _ hx => (orderly.place hx).2
  live := orderly.live
  awaited := fun c hc x hx its => by
    rcases (orderly.place hx).2 with queued | ⟨h, at_work | told⟩
    · exact absurd its.symm (queued.unsent c hc)
    · exact absurd its.symm (at_work.unsent c hc)
    · obtain ⟨c', only, handle⟩ := told.result
      have mem : c ∈ s.channel.filter (·.task = x.1) := List.mem_filter.2 ⟨hc, by simp [its]⟩
      rw [only, List.mem_singleton] at mem
      rw [told.waiting, mem, handle]
  resumed := orderly.resumed
  entered_once := fun _ mem => nomatch orderly.fine _ mem
  none_stray := fun _ _ mem => nomatch orderly.fine _ mem
  never_twice := fun _ _ mem => nomatch orderly.fine _ mem

/-- In every run in which handles cannot run out, and whose tasks reach the background only by what
their own steps ask for, every task is in one place; no task is stepped while it is being stepped,
no result comes for a task that does not wait for it, and no task that makes a request is told that
it is waiting already. -/
theorem every_task_in_one_place (c : Config) (database : Database) (parser : CommandParser)
    (clock : Instant) (deeds : List Deed) (parser_calm : parser.Calm)
    (database_calm : database.Calm) (calm : ∀ deed ∈ deeds, deed.Calm)
    (few : ((ofConfig c database parser clock).carryOut deeds).gateway.longest <
      Gateway.handleLimit) :
    ((ofConfig c database parser clock).carryOut deeds).InOrder :=
  ((carryOut_onward calm _).orderly trivial few
    (ofConfig_orderly c clock parser_calm database_calm)).inOrder

/-- A task that asks for one thing in the background and ends with the result. -/
def asking : Body where
  description := "ask"
  step _ input :=
    match input with
    | .start => .background { title := "echo", argument := .int 7 } (fun _ v => .finish v) []
        fun _ _ => .complete .none
    | .resume v => .complete v

theorem asking_calm : asking.Calm := by
  intro caller input
  cases input with
  | start => exact .background _ _ _ _ (fun _ v => .finish v) fun _ _ => .complete _
  | resume v => exact .complete v

def threePlaces : List Deed :=
  [.submit .system none asking, .submit .system none asking, .tick false, .step 1, .step 1,
    .step 1, .submit .system none asking, .submit .system none asking, .kill 4]

theorem threePlaces_inOrder :
    let s := (ofConfig {} .empty (fun _ => .error "") 0).carryOut threePlaces
    s.InOrder ∧ s.tasks.map (fun x => (x.1, x.2.waiting)) = [(1, some 1), (2, some 2), (3, none)] ∧
      s.ready.map Prod.fst = [3] ∧ s.channel.map Completion.errand = [(1, 1)] ∧
      s.gateway.handles = [2] := by
  have calm : ∀ deed ∈ threePlaces, deed.Calm := by
    simp [threePlaces, Deed.Calm, asking_calm]
  refine ⟨every_task_in_one_place {} .empty (fun _ => .error "") 0 threePlaces nofun nofun calm
    (by decide +kernel), ?_, ?_, ?_, ?_⟩ <;> decide +kernel

end Scheduler
end MooCore
