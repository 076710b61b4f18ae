import MooCore.Proofs.Scheduler.Rights
/-!
# Tasks without a wizard's rights

While everybody who is logged in is no wizard and every task is humble, the loop changes nothing
that takes a wizard's rights: what holds of the tasks and the sessions is kept by everything that
the loop is made of.
-/

set_option autoImplicit false
namespace MooCore
open Background Scheduler

/-! ## What is kept -/

/-- A server with the turns that it has taken up and the task that it steps. -/
structure Bench where
  server : Scheduler
  batch : List (TaskId × Input) := []
  free : Option TaskId := none

namespace Bench

def turns (b : Bench) : List (TaskId × Input) := b.server.ready ++ b.batch

/-- A task that is handed nothing: all its turns are its first. -/
structure Unresumed (b : Bench) (id : TaskId) : Prop where
  given : id ≤ b.server.lastTask
  first : ∀ x ∈ b.turns, x.1 = id → x.2 = .start
  waiting : ∀ t, b.server.tasks.get? id = some t → t.waiting = none

/-- A task in the ready queue that is to start belongs to no wizard. -/
structure Unstarted (wizard : Obj → Bool) (b : Bench) (id : TaskId) : Prop
    extends Unresumed b id where
  unpicked : ∀ x ∈ b.batch, x.1 ≠ id
  idle : b.free ≠ some id
  mortal : ∀ player, b.server.owner? id = some player → wizard player = false

/-- A task that comes to nothing but an error. -/
structure Failing (wizard : Obj → Bool) (b : Bench) (id : TaskId) : Prop
    extends Unresumed b id where
  fails : ∀ x ∈ b.server.tasks, x.1 = id → ∀ body, x.2.body = some body → ∀ caller owner,
    caller.player = x.2.player → (body.step caller .start).Until ⟨wizard, owner⟩ Act.Fails

/-- While rights are as given, nobody is logged in as a wizard, every task is humble, kills were
asked for tasks of no wizard only, and the given tasks are to fail. -/
structure Modest (r : Rights) (failing : Set TaskId) (b : Bench) : Prop where
  rights : b.server.rights = r
  mortal : b.server.sessions.Mortal r.database.isWizard
  fit : b.server.roll.Fit
  given : ∀ x ∈ b.turns, x.1 ≤ b.server.lastTask
  bodies : ∀ x ∈ b.server.tasks, ∀ body, x.2.body = some body → ∀ caller input owner,
    caller.player = x.2.player → (body.step caller input).Humble r.database.isWizard owner
  asked : ∀ id ∈ b.server.asked, ∀ player, b.server.owner? id = some player →
    r.database.isWizard player = false
  unstarted : ∀ id, (id, .start) ∈ b.server.ready → b.Unstarted r.database.isWizard id
  failing : ∀ id ∈ failing, b.Failing r.database.isWizard id

def Fares (r : Rights) (failing : Set TaskId) (b b' : Bench) : Prop :=
  b.Modest r failing → b'.Modest r failing ∧ ∃ es, b'.server.trace = b.server.trace ++ es ∧
    ∀ e ∈ es, e.Modest r.database.isWizard failing

variable {r : Rights} {failing : Set TaskId} {b b' b'' : Bench} {s s' : Scheduler}
  {batch : List (TaskId × Input)} {free : Option TaskId} {id : TaskId}

theorem Fares.refl (b : Bench) : Fares r failing b b := fun modest =>
  ⟨modest, [], (List.append_nil _).symm, nofun⟩

theorem Fares.trans (first : Fares r failing b b') (second : Fares r failing b' b'') :
    Fares r failing b b'' := fun modest => by
  obtain ⟨modest', es, trace, fine⟩ := first modest
  obtain ⟨modest'', es', trace', fine'⟩ := second modest'
  refine ⟨modest'', es ++ es', by rw [trace', trace, List.append_assoc], fun e he => ?_⟩
  exact (List.mem_append.1 he).elim (fine e) (fine' e)

theorem Fares.unseen (trace : b'.server.trace = b.server.trace)
    (keeps : b.Modest r failing → b'.Modest r failing) : Fares r failing b b' := fun modest =>
  ⟨keeps modest, [], trace.trans (List.append_nil _).symm, nofun⟩

theorem Fares.given (fares : b.Modest r failing → Fares r failing b b') : Fares r failing b b' :=
  fun modest => fares modest modest

end Bench

/-! ## Tasks that go -/

/-- Tasks and their turns may have gone. -/
structure Fewer (s s' : Scheduler) : Prop where
  tasks : s'.tasks.Sublist s.tasks
  ready : s'.ready.Sublist s.ready
  lastTask : s'.lastTask = s.lastTask

theorem Fewer.of_same {s s' : Scheduler} (tasks : s'.tasks = s.tasks) (ready : s'.ready = s.ready)
    (lastTask : s'.lastTask = s.lastTask) : Fewer s s' :=
  ⟨tasks ▸ List.Sublist.refl _, ready ▸ List.Sublist.refl _, lastTask⟩

namespace Fewer
variable {s s' : Scheduler} {id : TaskId} {batch : List (TaskId × Input)} {free : Option TaskId}

theorem get? (fewer : Fewer s s') (fit : s.roll.Fit) {t : Task}
    (there : s'.tasks.get? id = some t) : s.tasks.get? id = some t :=
  Named.get?_of_mem fit.distinct (fewer.tasks.subset (Named.mem_of_get? there))

theorem owner? (fewer : Fewer s s') (fit : s.roll.Fit) {player : Obj}
    (its : s'.owner? id = some player) : s.owner? id = some player := by
  obtain ⟨t, there, rfl⟩ := Option.map_eq_some_iff.1 its
  rw [Scheduler.owner?, fewer.get? fit there]
  rfl

theorem fit (fewer : Fewer s s') (fit : s.roll.Fit) : s'.roll.Fit := by
  have left := fit.fewer (fewer.tasks.map Prod.fst)
  rw [Scheduler.roll, fewer.lastTask]
  exact left

theorem turns (fewer : Fewer s s') :
    Bench.turns ⟨s', batch, free⟩ ⊆ Bench.turns ⟨s, batch, free⟩ :=
  (fewer.ready.append_right batch).subset

theorem unresumed (fewer : Fewer s s') (fit : s.roll.Fit)
    (unresumed : Bench.Unresumed ⟨s, batch, free⟩ id) :
    Bench.Unresumed ⟨s', batch, free⟩ id where
  given := fewer.lastTask ▸ unresumed.given
  first := fun x hx => unresumed.first x (fewer.turns hx)
  waiting := fun t there => unresumed.waiting t (fewer.get? fit there)

end Fewer

theorem Bench.Modest.fewer {r : Rights} {failing : Set TaskId} {s s' : Scheduler}
    {batch : List (TaskId × Input)} {free : Option TaskId}
    (modest : Modest r failing ⟨s, batch, free⟩) (fewer : Fewer s s')
    (rights : s'.rights = s.rights) (mortal : s'.sessions.Mortal r.database.isWizard)
    (asked : ∀ id ∈ s'.asked, ∀ player, s.owner? id = some player →
      r.database.isWizard player = false) :
    Modest r failing ⟨s', batch, free⟩ where
  rights := rights.trans modest.rights
  mortal := mortal
  fit := fewer.fit modest.fit
  given := fun x hx => fewer.lastTask ▸ modest.given x (fewer.turns hx)
  bodies := fun x hx => modest.bodies x (fewer.tasks.subset hx)
  asked := fun n mem player its => asked n mem player (fewer.owner? modest.fit its)
  unstarted := fun n mem => by
    obtain ⟨unresumed, unpicked, idle, mortal⟩ := modest.unstarted n (fewer.ready.subset mem)
    exact ⟨fewer.unresumed modest.fit unresumed, unpicked, idle,
      fun player its => mortal player (fewer.owner? modest.fit its)⟩
  failing := fun n mem => by
    obtain ⟨unresumed, fails⟩ := modest.failing n mem
    exact ⟨fewer.unresumed modest.fit unresumed, fun x hx => fails x (fewer.tasks.subset hx)⟩

/-- Tasks and their turns may have gone, and kills that were asked for may have been carried out. -/
structure Recedes (s s' : Scheduler) : Prop extends Fewer s s' where
  rights : s'.rights = s.rights
  logins : s'.sessions.logins = s.sessions.logins
  asked : s'.asked.Sublist s.asked

theorem Bland.recedes {s s' : Scheduler} (bland : Bland s s') : Recedes s s' where
  toFewer := .of_same bland.tasks bland.ready bland.lastTask
  rights := bland.rights
  logins := bland.logins
  asked := bland.asked ▸ List.Sublist.refl _

theorem Recedes.refl (s : Scheduler) : Recedes s s := (Bland.refl s).recedes

theorem Recedes.trans {s s' s'' : Scheduler} (first : Recedes s s') (second : Recedes s' s'') :
    Recedes s s'' where
  rights := second.rights.trans first.rights
  logins := second.logins.trans first.logins
  tasks := second.tasks.trans first.tasks
  ready := second.ready.trans first.ready
  lastTask := second.lastTask.trans first.lastTask
  asked := second.asked.trans first.asked

theorem Recedes.modest {s s' : Scheduler} (recedes : Recedes s s') {r : Rights}
    {failing : Set TaskId} {batch : List (TaskId × Input)} {free : Option TaskId}
    (modest : Bench.Modest r failing ⟨s, batch, free⟩) :
    Bench.Modest r failing ⟨s', batch, free⟩ :=
  modest.fewer recedes.toFewer recedes.rights (modest.mortal.of_logins recedes.logins)
    fun n mem => modest.asked n (recedes.asked.subset mem)

/-- Tasks may have gone, and what is seen of it is modest. -/
structure Sheds (wizard : Obj → Bool) (failing : Set TaskId) (s s' : Scheduler) : Prop where
  recedes : Recedes s s'
  trace : ∃ es, s'.trace = s.trace ++ es ∧ ∀ e ∈ es, e.Modest wizard failing

namespace Sheds
open Scheduler
variable {wizard : Obj → Bool} {failing : Set TaskId} {s s' s'' : Scheduler}

theorem of_bland (bland : Bland s s') : Sheds wizard failing s s' := by
  obtain ⟨es, trace, fine⟩ := bland.trace
  exact ⟨bland.recedes, es, trace, fun e he => Event.modest_of_isBland (fine e he) _ _⟩

theorem refl (s : Scheduler) : Sheds wizard failing s s := .of_bland (.refl s)

theorem trans (first : Sheds wizard failing s s') (second : Sheds wizard failing s' s'') :
    Sheds wizard failing s s'' := by
  obtain ⟨es, trace, fine⟩ := first.trace
  obtain ⟨es', trace', fine'⟩ := second.trace
  refine ⟨first.recedes.trans second.recedes, es ++ es', by rw [trace', trace, List.append_assoc],
    fun e he => ?_⟩
  exact (List.mem_append.1 he).elim (fine e) (fine' e)

theorem unseen (recedes : Recedes s s') (trace : s'.trace = s.trace) :
    Sheds wizard failing s s' :=
  ⟨recedes, [], trace.trans (List.append_nil _).symm, nofun⟩

theorem leave (s : Scheduler) (task : TaskId) (stats : SchedulerStats) {e : Event}
    (fine : e.Modest wizard failing) :
    Sheds wizard failing s ({ s with tasks := s.tasks.erase task, stats }.note e) :=
  ⟨⟨⟨List.eraseP_sublist, List.Sublist.refl _, rfl⟩, rfl, rfl, List.Sublist.refl _⟩, [e], rfl,
    fun _ he => List.mem_singleton.1 he ▸ fine⟩

theorem clearAway (s : Scheduler) (task : TaskId) (t : Task) :
    Sheds wizard failing s (s.clearAway task t) := by
  have marked : Bland s (s.askHost (·.killWaiters task)).2 :=
    .of_host (s.toHost.killWaiters_apart task)
  refine (of_bland marked).trans ?_
  unfold Scheduler.clearAway
  dsimp only
  generalize (s.askHost (·.killWaiters task)).2 = s'
  have withdrawn : Recedes s' (s'.withdraw task).2 :=
    ⟨⟨List.Sublist.refl _, List.filter_sublist, rfl⟩, rfl, rfl, List.Sublist.refl _⟩
  refine (unseen withdrawn rfl).trans ?_
  refine (of_bland (Bland.releaseAll _ (s'.withdraw task).1)).trans (of_bland ?_)
  generalize (s'.withdraw task).2.releaseAll (s'.withdraw task).1 = s'
  split
  · exact (Bland.stats s' _).trans ((Bland.answer _ task _).trans (Bland.releaseAll _ _))
  · exact (Bland.stats s' _).trans (Bland.releaseAll _ _)

theorem kill (s : Scheduler) (task : TaskId)
    (mortal : ∀ player, s.owner? task = some player → wizard player = false) :
    Sheds wizard failing s (s.kill task).2 := by
  rw [kill_eq]
  split
  · exact refl s
  · rename_i t there
    have its : s.owner? task = some t.player := by
      rw [Scheduler.owner?, there]
      rfl
    have killed : Sheds wizard failing s
        ({ s with tasks := s.tasks.erase task }.note (.killed task t.player)) :=
      leave s task s.stats (mortal t.player its)
    exact killed.trans (clearAway _ task t)

theorem killAsked (s : Scheduler) (fit : s.roll.Fit)
    (mortal : ∀ task ∈ s.asked, ∀ player, s.owner? task = some player → wizard player = false) :
    Sheds wizard failing s s.killAsked := by
  have all (tasks : List TaskId) : ∀ s : Scheduler, s.roll.Fit →
      (∀ task ∈ tasks, ∀ player, s.owner? task = some player → wizard player = false) →
      Sheds wizard failing s (tasks.foldl (fun s task => (s.kill task).2) s) := by
    induction tasks with
    | nil => exact fun s _ _ => refl s
    | cons task tasks ih =>
      intro s fit mortal
      have first : Sheds wizard failing s (s.kill task).2 :=
        kill s task (mortal task (List.mem_cons_self ..))
      refine first.trans (ih _ ?_ fun task' mem player its => ?_)
      · exact first.recedes.fit fit
      · exact mortal task' (List.mem_cons_of_mem _ mem) player (first.recedes.owner? fit its)
  have rested : Recedes s { s with asked := [] } :=
    ⟨.of_same rfl rfl rfl, rfl, rfl, List.nil_sublist _⟩
  exact (unseen rested rfl).trans (all s.asked { s with asked := [] } fit mortal)

theorem tellSession (s : Scheduler) (t : Task) (result : Except String Value) :
    Sheds wizard failing s (s.tellSession t result) := by
  unfold Scheduler.tellSession
  split
  · exact of_bland (Bland.sendLine s _ _)
  · exact refl s

theorem tellHandle (s : Scheduler) (task : TaskId) (t : Task) (result : Except String Value) :
    Sheds wizard failing s (s.tellHandle task t result) := by
  unfold Scheduler.tellHandle
  split
  · cases result with
    | ok v => exact of_bland ((Bland.keep s v).trans (Bland.answer _ _ _))
    | error message => exact of_bland (Bland.answer s _ _)
  · exact refl s

theorem complete (s : Scheduler) (task : TaskId) (result : Except String Value)
    (fine : Event.Modest wizard failing (.ended task result)) :
    Sheds wizard failing s (s.complete task result) := by
  rw [complete_eq]
  split
  · exact refl s
  · rename_i t _
    exact (leave s task _ fine).trans ((tellSession _ t result).trans (tellHandle _ task t result))

end Sheds

namespace Bench
variable {r : Rights} {failing : Set TaskId} {b b' b'' : Bench} {s s' : Scheduler}
  {batch : List (TaskId × Input)} {free : Option TaskId} {id : TaskId}

theorem Fares.sheds (sheds : Sheds r.database.isWizard failing s s') :
    Fares r failing ⟨s, batch, free⟩ ⟨s', batch, free⟩ := fun modest =>
  ⟨sheds.recedes.modest modest, sheds.trace⟩

theorem Fares.bland (bland : Bland s s') : Fares r failing ⟨s, batch, free⟩ ⟨s', batch, free⟩ :=
  .sheds (.of_bland bland)

/-! ## Turns -/

theorem taken (x : TaskId × Input) :
    x ∈ turns ⟨s, [], none⟩ ↔ x ∈ turns ⟨{ s with ready := [] }, s.ready, none⟩ := by
  simp [turns]

theorem Modest.takeUp (modest : Modest r failing ⟨s, [], none⟩) :
    Modest r failing ⟨{ s with ready := [] }, s.ready, none⟩ where
  rights := modest.rights
  mortal := modest.mortal
  fit := modest.fit
  given := fun x hx => modest.given x ((taken x).2 hx)
  bodies := modest.bodies
  asked := modest.asked
  unstarted := fun _ mem => nomatch mem
  failing := fun id mem => by
    obtain ⟨⟨given, first, waiting⟩, fails⟩ := modest.failing id mem
    exact ⟨⟨given, fun x hx => first x ((taken x).2 hx), waiting⟩, fails⟩

theorem Modest.pick {entry : TaskId × Input} (modest : Modest r failing ⟨s, entry :: batch, none⟩)
    (free : Option TaskId) (its : ∀ id, free = some id → id = entry.1) :
    Modest r failing ⟨s, batch, free⟩ := by
  have fewer : ∀ x ∈ s.ready ++ batch, x ∈ s.ready ++ entry :: batch := fun x hx =>
    (List.mem_append.1 hx).elim (List.mem_append_left _)
      fun old => List.mem_append_right _ (List.mem_cons_of_mem _ old)
  have unresumed {id : TaskId} (unresumed : Unresumed ⟨s, entry :: batch, none⟩ id) :
      Unresumed ⟨s, batch, free⟩ id :=
    ⟨unresumed.given, fun x hx => unresumed.first x (fewer x hx), unresumed.waiting⟩
  refine { modest with
    given := fun x hx => modest.given x (fewer x hx), unstarted := ?_, failing := ?_ }
  · intro id mem
    obtain ⟨given, unpicked, -, mortal⟩ := modest.unstarted id mem
    refine ⟨unresumed given, fun x hx => unpicked x (List.mem_cons_of_mem _ hx), fun mine => ?_,
      mortal⟩
    exact unpicked entry (List.mem_cons_self ..) (its id mine).symm
  · intro id mem
    exact ⟨unresumed (modest.failing id mem).toUnresumed, (modest.failing id mem).fails⟩

theorem Modest.leave (modest : Modest r failing ⟨s, batch, free⟩) :
    Modest r failing ⟨s, batch, none⟩ :=
  { modest with
    unstarted := fun id mem =>
      let unstarted := modest.unstarted id mem
      ⟨⟨unstarted.given, unstarted.first, unstarted.waiting⟩, unstarted.unpicked, nofun,
        unstarted.mortal⟩
    failing := fun id mem =>
      let failing := modest.failing id mem
      ⟨⟨failing.given, failing.first, failing.waiting⟩, failing.fails⟩ }

/-! ## Records -/

/-- How the record of a task may change: its player stays, and a new body is a humble one. -/
structure Rewrites (wizard : Obj → Bool) (t t' : Task) : Prop where
  player : t'.player = t.player
  body : ∀ body, t'.body = some body → t.body = some body ∨
    ∀ caller input owner, (body.step caller input).Humble wizard owner

/-- No new body comes, and the task does not begin to wait. -/
structure Calms (t t' : Task) : Prop where
  player : t'.player = t.player
  body : ∀ body, t'.body = some body → t.body = some body
  waiting : t'.waiting = none ∨ t'.waiting = t.waiting

theorem Calms.rewrites {t t' : Task} (calms : Calms t t') (wizard : Obj → Bool) :
    Rewrites wizard t t' :=
  ⟨calms.player, fun body its => Or.inl (calms.body body its)⟩

theorem updateTask_owner (s : Scheduler) (task : TaskId) {f : Task → Task}
    (same : ∀ t, (f t).player = t.player) (id : TaskId) :
    (s.updateTask task f).owner? id = s.owner? id := by
  rw [Scheduler.owner?, Scheduler.updateTask, Named.get?_update, Scheduler.owner?]
  split
  · rw [Option.map_map]
    exact congrArg (Option.map · _) (funext same)
  · rfl

/-- The task that is stepped is written anew, unless it is to fail; any task may calm down. -/
theorem Modest.update (modest : Modest r failing ⟨s, batch, free⟩) (task : TaskId)
    {f : Task → Task} (rewrites : ∀ t, Rewrites r.database.isWizard t (f t))
    (calms : (free = some task ∧ task ∉ failing) ∨ ∀ t, Calms t (f t)) :
    Modest r failing ⟨s.updateTask task f, batch, free⟩ := by
  have owner := updateTask_owner s task fun t => (rewrites t).player
  have unresumed {id : TaskId} (unresumed : Unresumed ⟨s, batch, free⟩ id)
      (other : free = some task ∧ task ∉ failing → id ≠ task) :
      Unresumed ⟨s.updateTask task f, batch, free⟩ id := by
    refine ⟨unresumed.given, unresumed.first, fun t there => ?_⟩
    rw [Scheduler.updateTask, Named.get?_update] at there
    split at there
    · rename_i here
      obtain ⟨old, was, rfl⟩ := Option.map_eq_some_iff.1 there
      rcases calms with own | calms
      · exact absurd here (other own)
      · exact (calms old).waiting.elim (·) fun same => same.trans (unresumed.waiting old was)
    · exact unresumed.waiting t there
  refine ⟨modest.rights, modest.mortal, ?_, modest.given, ?_, ?_, ?_, ?_⟩
  · rw [Scheduler.updateTask_roll]
    exact modest.fit
  · intro x hx body its caller input owner' same
    rcases Named.mem_update hx with ⟨old, -⟩ | ⟨y, hy, -, rfl⟩
    · exact modest.bodies x old body its caller input owner' same
    · rcases (rewrites y.2).body body its with was | humble
      · exact modest.bodies y hy body was caller input owner' (same.trans (rewrites y.2).player)
      · exact humble caller input owner'
  · exact fun id mem player its => modest.asked id mem player ((owner id).symm.trans its)
  · intro id mem
    obtain ⟨given, unpicked, idle, mortal⟩ := modest.unstarted id mem
    refine ⟨unresumed given fun own here => ?_, unpicked, idle,
      fun player its => mortal player ((owner id).symm.trans its)⟩
    exact idle (here ▸ own.1)
  · intro id mem
    obtain ⟨given, fails⟩ := modest.failing id mem
    refine ⟨unresumed given fun own here => own.2 (here ▸ mem), fun x hx here body its => ?_⟩
    rcases Named.mem_update hx with ⟨old, -⟩ | ⟨y, hy, at_task, rfl⟩
    · exact fails x old here body its
    · rcases calms with own | calms
      · exact absurd mem (here ▸ own.2)
      · intro caller owner' same
        exact fails y hy (at_task.trans here) body ((calms y.2).body body its) caller owner'
          (same.trans (calms y.2).player)

/-! ## First turns -/

/-- A humble task is made; it has no turn yet. -/
theorem Modest.create (modest : Modest r failing ⟨s, batch, none⟩) (rested : s.asked = [])
    (player : Obj) (session : Option SessionId) {body : Body} (answerable : Bool)
    (humble : ∀ caller input owner, caller.player = player →
      (body.step caller input).Humble r.database.isWizard owner) :
    Modest r failing ⟨(s.createTask player session body answerable).2, batch, none⟩ := by
  have fresh : s.lastTask + 1 ∉ s.tasks.map Prod.fst := fun there =>
    absurd (modest.fit.given _ there) (Nat.not_succ_le_self _)
  have below {n : Nat} (old : n ≤ s.lastTask) : n ≠ s.lastTask + 1 := by omega
  let t : Task := { player, session, description := body.description, body := some body,
                    answerable }
  generalize joined : (s.createTask player session body answerable).2 = s'
  have tasks : s'.tasks = s.tasks ++ [(s.lastTask + 1, t)] := by
    rw [← joined]
    exact Named.set_of_unused fresh
  have last : s'.lastTask = s.lastTask + 1 := by rw [← joined]; rfl
  have ready : s'.ready = s.ready := by rw [← joined]; rfl
  have found {n : TaskId} (old : n ≤ s.lastTask) : s'.tasks.get? n = s.tasks.get? n := by
    rw [← joined]
    exact (Named.get?_set _ _ _ _).trans (if_neg (below old))
  have owner {n : TaskId} (old : n ≤ s.lastTask) : s'.owner? n = s.owner? n := by
    rw [Scheduler.owner?, found old, Scheduler.owner?]
  have unresumed {n : TaskId} (unresumed : Unresumed ⟨s, batch, none⟩ n) :
      Unresumed ⟨s', batch, none⟩ n := by
    refine ⟨last ▸ unresumed.given.trans (Nat.le_succ _), ?_, fun t' there => ?_⟩
    · rw [turns, ready]
      exact unresumed.first
    · exact unresumed.waiting t' ((found unresumed.given).symm.trans there)
  constructor
  · rw [← joined]
    exact modest.rights
  · rw [← joined]
    exact modest.mortal
  · obtain ⟨_, -, runs⟩ := s.createTask_logs player session body answerable modest.fit
    exact joined ▸ runs.fit modest.fit
  · rw [turns, ready, last]
    exact fun x hx => (modest.given x hx).trans (Nat.le_succ _)
  · rw [tasks]
    intro x hx b its caller input owner' same
    rcases List.mem_append.1 hx with old | new
    · exact modest.bodies x old b its caller input owner' same
    · obtain rfl := List.mem_singleton.1 new
      exact Option.some.inj its ▸ humble caller input owner' same
  · have none_asked : s'.asked = [] := by
      rw [← joined]
      exact rested
    simp [none_asked]
  · rw [ready]
    intro n mem
    obtain ⟨given, unpicked, -, mortal⟩ := modest.unstarted n mem
    exact ⟨unresumed given, unpicked, by simp,
      fun player its => mortal player ((owner given.given).symm.trans its)⟩
  · intro n mem
    obtain ⟨given, fails⟩ := modest.failing n mem
    refine ⟨unresumed given, fun x hx here => ?_⟩
    rw [tasks] at hx
    rcases List.mem_append.1 hx with old | new
    · exact fails x old here
    · obtain rfl := List.mem_singleton.1 new
      exact absurd here.symm (below given.given)

/-- A task that has no turn yet gets its first one in the ready queue. -/
theorem Modest.start (modest : Modest r failing ⟨s, batch, none⟩) (given : id ≤ s.lastTask)
    (turnless : ∀ x ∈ s.ready ++ batch, x.1 ≠ id)
    (waiting : ∀ t, s.tasks.get? id = some t → t.waiting = none)
    (mortal : ∀ player, s.owner? id = some player → r.database.isWizard player = false) :
    Modest r failing ⟨s.enqueue id .start, batch, none⟩ := by
  have split {x : TaskId × Input} (hx : x ∈ (s.ready ++ [(id, .start)]) ++ batch) :
      x ∈ s.ready ++ batch ∨ x = (id, .start) := by
    simp only [List.mem_append, List.mem_singleton] at hx ⊢
    tauto
  have unresumed {n : TaskId} (unresumed : Unresumed ⟨s, batch, none⟩ n) :
      Unresumed ⟨s.enqueue id .start, batch, none⟩ n := by
    refine ⟨unresumed.given, fun x hx here => ?_, unresumed.waiting⟩
    rcases split hx with old | rfl
    · exact unresumed.first x old here
    · rfl
  refine { modest with
    given := fun x hx => ?_, unstarted := fun n mem => ?_, failing := fun n mem => ?_ }
  · rcases split hx with old | rfl
    · exact modest.given x old
    · exact given
  · rcases List.mem_append.1 mem with old | new
    · obtain ⟨unresumed', unpicked, idle, mortal'⟩ := modest.unstarted n old
      exact ⟨unresumed unresumed', unpicked, idle, mortal'⟩
    · obtain rfl : n = id := by simpa using new
      refine ⟨⟨given, fun x hx here => ?_, waiting⟩, fun x hx => ?_, by simp, mortal⟩
      · rcases split hx with old | rfl
        · exact absurd here (turnless x old)
        · rfl
      · exact turnless x (List.mem_append_right _ hx)
  · exact ⟨unresumed (modest.failing n mem).toUnresumed, (modest.failing n mem).fails⟩

theorem Modest.startAtOnce (modest : Modest r failing ⟨s, batch, none⟩) (given : id ≤ s.lastTask)
    (turnless : ∀ x ∈ s.ready ++ batch, x.1 ≠ id) :
    Modest r failing ⟨s, batch ++ [(id, .start)], none⟩ := by
  have split {x : TaskId × Input} (hx : x ∈ s.ready ++ (batch ++ [(id, .start)])) :
      x ∈ s.ready ++ batch ∨ x = (id, .start) := by
    simp only [List.mem_append, List.mem_singleton] at hx ⊢
    tauto
  have unresumed {n : TaskId} (unresumed : Unresumed ⟨s, batch, none⟩ n) :
      Unresumed ⟨s, batch ++ [(id, .start)], none⟩ n := by
    refine ⟨unresumed.given, fun x hx here => ?_, unresumed.waiting⟩
    rcases split hx with old | rfl
    · exact unresumed.first x old here
    · rfl
  refine { modest with
    given := fun x hx => ?_, unstarted := fun n mem => ?_, failing := fun n mem => ?_ }
  · rcases split hx with old | rfl
    · exact modest.given x old
    · exact given
  · obtain ⟨unresumed', unpicked, idle, mortal⟩ := modest.unstarted n mem
    refine ⟨unresumed unresumed', fun x hx => ?_, idle, mortal⟩
    rcases List.mem_append.1 hx with old | new
    · exact unpicked x old
    · obtain rfl := List.mem_singleton.1 new
      exact fun here => turnless _ (List.mem_append_left _ mem) here.symm
  · exact ⟨unresumed (modest.failing n mem).toUnresumed, (modest.failing n mem).fails⟩

/-- A task that waits is handed its result. -/
theorem Modest.resume (modest : Modest r failing ⟨s, batch, none⟩) {t : Task} {h : Handle}
    (there : s.tasks.get? id = some t) (waits : t.waiting = some h) (v : Value) :
    Modest r failing
      ⟨(s.updateTask id fun t => { t with waiting := none }).enqueue id (.resume v), batch,
        none⟩ := by
  have other {n : TaskId} (unresumed : Unresumed ⟨s, batch, none⟩ n) : id ≠ n := fun same =>
    nomatch waits.symm.trans (unresumed.waiting t (same ▸ there))
  have calmed := modest.update id (f := fun t => { t with waiting := none })
    (fun _ => ⟨rfl, fun _ => Or.inl⟩) (Or.inr fun _ => ⟨rfl, fun _ => (·), Or.inl rfl⟩)
  have split {x : TaskId × Input} (hx : x ∈ (s.ready ++ [(id, .resume v)]) ++ batch) :
      x ∈ s.ready ++ batch ∨ x = (id, .resume v) := by
    simp only [List.mem_append, List.mem_singleton] at hx ⊢
    tauto
  have first {n : TaskId} (unresumed : Unresumed ⟨s, batch, none⟩ n) :
      ∀ x ∈ (s.ready ++ [(id, .resume v)]) ++ batch, x.1 = n → x.2 = .start := fun x hx here => by
    rcases split hx with old | rfl
    · exact unresumed.first x old here
    · exact absurd here (other unresumed)
  refine { calmed with given := fun x hx => ?_, unstarted := fun n mem => ?_, failing := ?_ }
  · rcases split hx with old | rfl
    · exact modest.given x old
    · exact modest.fit.given id (List.mem_map_of_mem (Named.mem_of_get? there))
  · have old : (n, .start) ∈ s.ready := (List.mem_append.1 mem).elim (·) fun new => by simp at new
    have before := (modest.unstarted n old).toUnresumed
    obtain ⟨unresumed, unpicked, idle, mortal⟩ := calmed.unstarted n old
    exact ⟨⟨unresumed.given, first before, unresumed.waiting⟩, unpicked, idle, mortal⟩
  · intro n mem
    have before := (modest.failing n mem).toUnresumed
    obtain ⟨unresumed, fails⟩ := calmed.failing n mem
    exact ⟨⟨unresumed.given, first before, unresumed.waiting⟩, fails⟩

/-! ## Moves of a step -/

theorem Modest.database (modest : Modest r failing b) : b.server.database = r.database :=
  congrArg Rights.database modest.rights

theorem Fares.effect {e : Effect} (allowed : e.Allowed ⟨r.database.isWizard, s.owner?⟩) :
    Fares r failing ⟨s, batch, free⟩ ⟨(s.perform e).2, batch, free⟩ := by
  have unasked (harmless : e.isHarmless = true) :
      Fares r failing ⟨s, batch, free⟩ ⟨(s.perform e).2, batch, free⟩ :=
    .bland (.perform s harmless)
  cases e with
  | login session player =>
    exact .unseen rfl fun modest => modest.fewer (.of_same rfl rfl rfl) rfl
      (modest.mortal.login session allowed) modest.asked
  | kill task =>
    rw [perform]
    split
    · refine .unseen rfl fun modest =>
        modest.fewer (.of_same rfl rfl rfl) rfl modest.mortal fun n mem => ?_
      rcases List.mem_append.1 mem with old | new
      · exact modest.asked n old
      · exact List.mem_singleton.1 new ▸ allowed
    · exact .refl _
  | setMaxThreads _ | setThreading _ | requestCheckpoint _ | requestShutdown _ => exact allowed.elim
  | _ => exact unasked rfl

theorem Fares.killAsked : Fares r failing ⟨s, batch, free⟩ ⟨s.killAsked, batch, free⟩ :=
  .given fun modest => .sheds (.killAsked s modest.fit modest.asked)

theorem Fares.leave : Fares r failing ⟨s, batch, free⟩ ⟨s, batch, none⟩ :=
  .unseen rfl Modest.leave

theorem Fares.finish {result : Except String Value}
    (fine : Event.Modest r.database.isWizard failing (.ended id result)) :
    Fares r failing ⟨s, batch, free⟩ ⟨(s.finish id result).2, batch, none⟩ :=
  (Fares.sheds (.complete s id result fine)).trans (Fares.killAsked.trans .leave)

theorem Fares.putBack (own : id ∉ failing) {held : List Value} {next : Caller → Input → Act}
    (humble : ∀ caller input owner, (next caller input).Humble r.database.isWizard owner) :
    Fares r failing ⟨s, batch, some id⟩ ⟨s.putBack id held next, batch, some id⟩ :=
  .unseen rfl fun modest => modest.update id
    (fun _ => ⟨rfl, fun _ its => Or.inr (Option.some.inj its ▸ humble)⟩) (Or.inl ⟨rfl, own⟩)

theorem Fares.park (own : id ∉ failing) (h : Handle) :
    Fares r failing ⟨s, batch, some id⟩ ⟨s.park id h, batch, some id⟩ :=
  .unseen rfl fun modest => modest.update id (fun _ => ⟨rfl, fun _ => Or.inl⟩)
    (Or.inl ⟨rfl, own⟩)

theorem Fares.takeBody (resumed : Option Value) :
    Fares r failing ⟨s, batch, free⟩ ⟨s.takeBody id resumed, batch, free⟩ := by
  have calm : ∀ t : Task, Calms t { t with body := none } :=
    fun t => ⟨rfl, nofun, Or.inr rfl⟩
  have taken : Fares r failing ⟨s, batch, free⟩
      ⟨s.updateTask id fun t => { t with body := none }, batch, free⟩ :=
    .unseen rfl fun modest => modest.update id (fun t => (calm t).rewrites _) (Or.inr calm)
  exact taken.trans (.bland (.note _ rfl))

/-! ## Results and new tasks -/

theorem Fares.takeCompletion :
    Fares r failing ⟨s, batch, none⟩ ⟨s.takeCompletion, batch, none⟩ := by
  unfold Scheduler.takeCompletion
  split
  · exact .refl _
  · rename_i c rest _
    have taken : Bland s { s with channel := rest } := .of_same rfl rfl rfl rfl rfl rfl rfl
    have noted : Bland s (Scheduler.note { s with channel := rest } (.taken c)) :=
      taken.trans (.note _ rfl)
    refine (Fares.bland noted).trans ?_
    unfold handleCompletion
    generalize ({ s with channel := rest } : Scheduler).note (.taken c) = s'
    dsimp only
    split
    · exact .bland (.discard s' c.result)
    · rename_i t there
      split
      · rename_i waits
        have resumed : Fares r failing ⟨s', batch, none⟩
            ⟨(s'.updateTask c.task fun t => { t with waiting := none }).enqueue c.task
              (.resume c.result), batch, none⟩ :=
          .unseen rfl fun modest => modest.resume there waits c.result
        exact resumed.trans (.bland (.stats _ _))
      · exact .bland ((Bland.note s' rfl).trans (.discard _ c.result))

theorem Fares.summon {body : Body} (inert : body.Inert) (rested : s.asked = []) :
    Fares r failing ⟨s, batch, none⟩
      ⟨(s.createTask .system none body false).2, batch ++ [(s.lastTask + 1, .start)], none⟩ :=
  fun modest => by
    have created := modest.create rested .system none false
      fun caller input owner _ => (inert caller input).humble r.database.isWizard owner
    refine ⟨created.startAtOnce (Nat.le_refl _) fun x hx here => ?_, [_], rfl, ?_⟩
    · exact absurd (modest.given x hx) (by rw [here]; exact Nat.not_succ_le_self _)
    · exact fun e he => List.mem_singleton.1 he ▸ trivial

theorem Fares.startTask {player : Obj} {session : Option SessionId} {body : Body}
    (mortal : r.database.isWizard player = false) (rested : s.asked = [])
    (humble : ∀ caller input owner, caller.player = player →
      (body.step caller input).Humble r.database.isWizard owner) :
    Fares r failing ⟨s, batch, none⟩
      ⟨(s.createTask player session body false).2.enqueue (s.lastTask + 1) .start, batch, none⟩ :=
  fun modest => by
    have created := modest.create rested player session false humble
    have fresh : s.lastTask + 1 ∉ s.tasks.map Prod.fst := fun there =>
      absurd (modest.fit.given _ there) (Nat.not_succ_le_self _)
    have there : (s.createTask player session body false).2.tasks.get? (s.lastTask + 1) =
        some { player, session, description := body.description, body := some body,
               answerable := false } :=
      (Named.get?_set _ _ _ _).trans (if_pos rfl)
    refine ⟨created.start (Nat.le_refl _) (fun x hx here => ?_) (fun t its => ?_)
      (fun player' its => ?_), [_], rfl, ?_⟩
    · exact absurd (modest.given x hx) (by rw [here]; exact Nat.not_succ_le_self _)
    · rw [there] at its
      exact Option.some.inj its ▸ rfl
    · rw [owner?, there] at its
      exact Option.some.inj its ▸ mortal
    · exact fun e he => List.mem_singleton.1 he ▸ trivial

end Bench
end MooCore
