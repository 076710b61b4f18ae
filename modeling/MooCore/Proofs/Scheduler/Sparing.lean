import Mathlib
import MooCore.Proofs.Background.OnTheSpot
import MooCore.Proofs.Background.OnTheWay
import MooCore.Proofs.Scheduler.Beats
import MooCore.Proofs.Scheduler.Chores
import MooCore.Proofs.Scheduler.Courses
/-!
# What happens beside a task

As long as a task is not killed, its entry in the table, its turns and the points of its life change
only when its result is taken in, when it is picked, and when its own step goes on. Beside that
nothing comes on the way to it but what somebody asks for in its name.
-/

set_option autoImplicit false
namespace MooCore
open Background

theorem WasKilled.of_prefix {id : TaskId} {es es' : List Event} (killed : WasKilled id es)
    (seen : es <+: es') : WasKilled id es' := by
  obtain ⟨more, rfl⟩ := seen
  exact killed.append_right more

def points (id : TaskId) (es : List Event) : List Event := es.filter (·.life? = some id)

theorem points_append {id : TaskId} (es : List Event) {es' : List Event}
    (others : ∀ e ∈ es', e.life? ≠ some id) : points id (es ++ es') = points id es := by
  have none_more : es'.filter (·.life? = some id) = [] :=
    List.filter_eq_nil_iff.2 fun e he => by simpa using others e he
  rw [points, List.filter_append, none_more, List.append_nil, points]

theorem points_own {id : TaskId} (es : List Event) {es' : List Event}
    (own : ∀ e ∈ es', e.life? = some id) : points id (es ++ es') = points id es ++ es' := by
  have all_more : es'.filter (·.life? = some id) = es' :=
    List.filter_eq_self.2 fun e he => by simpa using own e he
  rw [points, List.filter_append, all_more, points]

theorem Background.Apart.points {h h' : Host} (apart : Apart h h') (id : TaskId) :
    points id h'.trace = points id h.trace := by
  obtain ⟨es, trace, other⟩ := apart.trace
  rw [trace]
  refine points_append _ fun e he => ?_
  rw [Event.life?_of_other (other e he)]
  nofun

theorem Background.Unasked.minds {h h' : Host} {id : TaskId} (unasked : Unasked h h') :
    Host.Minds id h h' := .same unasked.made unasked.jobs unasked.channel

namespace Scheduler

variable {s s' s'' : Scheduler} {id task : TaskId} {under : Option TaskId}

structure Untouched (id : TaskId) (s s' : Scheduler) : Prop where
  task : s'.tasks.get? id = s.tasks.get? id
  turns : s'.ready.filter (·.1 = id) = s.ready.filter (·.1 = id)
  points : points id s'.trace = points id s.trace

/-- What happens leaves a task alone that was made before, unless it is killed. -/
structure Spares (id : TaskId) (s s' : Scheduler) : Prop where
  minds : Host.Minds id s.toHost s'.toHost
  seen : s.trace <+: s'.trace
  later : s.lastTask ≤ s'.lastTask
  untouched : id ≤ s.lastTask → ¬ WasKilled id s'.trace → Untouched id s s'

theorem Spares.trans (first : Spares id s s') (second : Spares id s' s'') : Spares id s s'' where
  minds := first.minds.trans second.minds
  seen := first.seen.trans second.seen
  later := first.later.trans second.later
  untouched := fun made alive => by
    have before := first.untouched made fun killed => alive (killed.of_prefix second.seen)
    have after := second.untouched (made.trans first.later) alive
    exact ⟨after.task.trans before.task, after.turns.trans before.turns,
      after.points.trans before.points⟩

theorem Spares.of_host {h : Host} (minds : Host.Minds id s.toHost h) (apart : Apart s.toHost h) :
    Spares id s { s with toHost := h } where
  minds := minds
  seen := by
    obtain ⟨es, trace, -⟩ := apart.trace
    exact ⟨es, trace.symm⟩
  later := Nat.le_refl _
  untouched := fun _ _ => ⟨rfl, rfl, apart.points id⟩

theorem Spares.of_same (host : s'.made = s.made ∧ s'.jobs = s.jobs ∧ s'.channel = s.channel)
    (trace : s'.trace = s.trace) (tasks : s'.tasks = s.tasks) (ready : s'.ready = s.ready)
    (lastTask : s'.lastTask = s.lastTask) : Spares id s s' where
  minds := .same host.1 host.2.1 host.2.2
  seen := trace ▸ List.prefix_refl _
  later := lastTask.ge
  untouched := fun _ _ => ⟨by rw [tasks], by rw [ready], by rw [trace]⟩

theorem Spares.refl (s : Scheduler) : Spares id s s := .of_same ⟨rfl, rfl, rfl⟩ rfl rfl rfl rfl

/-! ## Without a request

A step reaches the background only by its request. -/

theorem answer_unasked (s : Scheduler) (task : TaskId) (result : TaskAnswer) :
    Unasked s.toHost (s.answer task result).toHost := by
  unfold answer
  split
  · exact s.toHost.note_unasked rfl
  · cases result <;> exact .of_same rfl rfl rfl

theorem clearAway_unasked (s : Scheduler) (task : TaskId) (t : Task) :
    Unasked s.toHost (s.clearAway task t).toHost := by
  have marked : Unasked s.toHost ((s.askHost (·.killWaiters task)).2.withdraw task).2.toHost :=
    s.toHost.killWaiters_unasked task
  unfold clearAway
  dsimp only
  generalize (s.askHost (·.killWaiters task)).2.withdraw task = taken at marked ⊢
  obtain ⟨results, s'⟩ := taken
  have counted : Unasked s'.toHost
      ({ s'.releaseAll results with stats := { s'.stats with
        discarded := s'.stats.discarded + results.length
        killed := s'.stats.killed + 1 } } : Scheduler).toHost := .of_same rfl rfl rfl
  split
  · exact marked.trans (counted.trans ((answer_unasked _ _ _).trans (.of_same rfl rfl rfl)))
  · exact marked.trans (counted.trans (.of_same rfl rfl rfl))

theorem kill_unasked (s : Scheduler) (task : TaskId) :
    Unasked s.toHost (s.kill task).2.toHost := by
  rw [kill_eq]
  split
  · exact .refl _
  · rename_i t _
    have gone : Unasked s.toHost
        ({ s with tasks := s.tasks.erase task }.note (.killed task t.player)).toHost :=
      s.toHost.note_unasked rfl
    exact gone.trans (clearAway_unasked _ task t)

theorem killAsked_unasked (s : Scheduler) : Unasked s.toHost s.killAsked.toHost := by
  have killed : ∀ (tasks : List TaskId) (s : Scheduler),
      Unasked s.toHost (tasks.foldl (fun s task => (s.kill task).2) s).toHost := by
    intro tasks
    induction tasks with
    | nil => exact fun s => .refl _
    | cons task tasks ih => exact fun s => (s.kill_unasked task).trans (ih _)
  exact killed s.asked { s with asked := [] }

theorem finish_unasked (s : Scheduler) (task : TaskId) (result : Except String Value) :
    Unasked s.toHost (s.finish task result).2.toHost := by
  rw [finish, complete_eq]
  split
  · exact s.killAsked_unasked
  · rename_i t _
    have ended : Unasked s.toHost
        ({ s with tasks := s.tasks.erase task, stats := countEnd s.stats result }.note
          (.ended task result)).toHost := s.toHost.note_unasked rfl
    generalize { s with tasks := s.tasks.erase task, stats := countEnd s.stats result }.note
      (.ended task result) = s' at ended ⊢
    have told : Unasked s'.toHost (s'.tellSession t result).toHost := by
      unfold tellSession
      split <;> exact .of_same rfl rfl rfl
    generalize s'.tellSession t result = s'' at told ⊢
    refine ended.trans (told.trans (.trans ?_ (killAsked_unasked _)))
    unfold tellHandle
    split
    · cases result with
      | ok v =>
        have kept : Unasked s''.toHost (s''.onHost (·.keep v)).toHost := .of_same rfl rfl rfl
        exact kept.trans (answer_unasked _ task _)
      | error message => exact s''.answer_unasked task _
    · exact .refl _

theorem received_unasked (s : Scheduler) (caller : Caller) (next : Caller → Input → Act)
    (response : Response) : Unasked s.toHost (s.received caller next response).2.toHost := by
  have answered : Unasked s.toHost (s.immediate? response).2.toHost := by
    rcases response with _ | _ | _ <;> exact .of_same rfl rfl rfl
  unfold received
  generalize s.immediate? response = answer at answered
  obtain ⟨handle | v, s'⟩ := answer
  · exact answered.trans (killAsked_unasked (s'.park caller.task handle))
  · refine answered.trans (s'.killAsked_unasked.trans ?_)
    dsimp only
    split
    · exact Host.note_unasked _ rfl
    · exact .of_same rfl rfl rfl

theorem perform_minds (s : Scheduler) (id : TaskId) (e : Effect) :
    (s.perform e).2.made = s.made ∧ Host.Minds id s.toHost (s.perform e).2.toHost := by
  cases e with
  | kill task =>
    rw [perform]
    split <;> exact ⟨rfl, .same rfl rfl rfl⟩
  | _ => exact ⟨rfl, .same rfl rfl rfl⟩

theorem move_minds (id : TaskId) (caller : Caller) (act : Act) (s : Scheduler) :
    Host.Minds id s.toHost (act.move caller s).2.toHost := by
  cases act with
  | complete v => exact (s.finish_unasked caller.task _).minds
  | abort message => exact (s.finish_unasked caller.task _).minds
  | effect e next => exact (s.perform_minds id e).2
  | background envelope callback held next =>
    have asked : Host.Minds id s.toHost _ :=
      s.toHost.suspend_minds caller.task { envelope with callback }
    rw [move_background_eq]
    exact asked.trans (received_unasked { s.putBack caller.task held next with
      toHost := (s.toHost.suspend caller.task { envelope with callback }).2 } caller next _).minds

theorem pick_minds (s : Scheduler) (id task : TaskId) (input : Input) :
    (s.pick task input).2.made = s.made ∧
      Host.Minds id s.toHost (s.pick task input).2.toHost := by
  unfold pick
  split
  · cases input <;> exact ⟨rfl, .same rfl rfl rfl⟩
  · split
    · cases input <;> exact ⟨rfl, .same rfl rfl rfl⟩
    · cases input <;> exact ⟨rfl, .same rfl rfl rfl⟩

theorem handleCompletion_minds (s : Scheduler) (c : Completion) :
    Host.Minds id s.toHost (s.handleCompletion c).toHost := by
  unfold handleCompletion
  dsimp only
  split
  · exact .same rfl rfl rfl
  · split <;> exact .same rfl rfl rfl

/-! ## Chores -/

/-- A chore that belongs to the step of no task or of another one. -/
theorem Chore.spares {P : Body → Prop} (chore : Chore P under s s') (other : under ≠ some id) :
    Spares id s s' := by
  cases chore with
  | around same seen sessions messages =>
    simp only [stock, Prod.mk.injEq] at same
    obtain ⟨-, ⟨made, -, jobs, channel, -⟩, tasks, ready, lastTask, -, -⟩ := same
    obtain ⟨es, trace, mute⟩ := seen
    refine ⟨.same made jobs channel, ⟨es, trace.symm⟩, lastTask.ge, fun _ _ => ?_⟩
    refine ⟨by rw [tasks], by rw [ready], trace ▸ points_append _ fun e he its => ?_⟩
    exact other ((mute e he).2 id its)
  | work handle => exact .of_host (s.toHost.step_minds handle) (s.toHost.step_apart handle)
  | silence task => exact .of_host (.same rfl rfl rfl) (s.toHost.killWaiters_apart task)
  | offer rule => exact .of_host (.same rfl rfl rfl) (s.toHost.enumerate_apart rule)
  | create player session body answerable queued its =>
    refine ⟨.same rfl rfl rfl, List.prefix_append _ _, Nat.le_succ _, fun made _ => ?_⟩
    have older : id ≠ s.lastTask + 1 := Nat.ne_of_lt (Nat.lt_succ_of_le made)
    have others : (if queued then [(s.lastTask + 1, Input.start)] else []).filter (·.1 = id) =
        [] := by
      split
      · simpa using older.symm
      · rfl
    refine ⟨(Named.get?_set ..).trans (if_neg older), ?_, points_append _ fun e he its => ?_⟩
    · rw [List.filter_append, others, List.append_nil]
    · rw [List.mem_singleton.1 he] at its
      exact older (Option.some.inj its).symm
  | rewrite task f own bodies =>
    have ne : id ≠ task := fun same => other (same ▸ own)
    exact ⟨.same rfl rfl rfl, List.prefix_refl _, Nat.le_refl _,
      fun _ _ => ⟨(Named.get?_update ..).trans (if_neg ne), rfl, rfl⟩⟩
  | leave task player =>
    refine ⟨.same rfl rfl rfl, List.prefix_append _ _, Nat.le_refl _, fun _ alive => ?_⟩
    have ne : id ≠ task := fun same =>
      alive ⟨player, same ▸ List.mem_append_right _ (List.mem_singleton_self _)⟩
    refine ⟨Named.get?_erase_ne _ ne, rfl, points_append _ fun e he its => ?_⟩
    rw [List.mem_singleton.1 he] at its
    exact ne (Option.some.inj its).symm
  | withdraw task player gone =>
    refine ⟨.same rfl rfl rfl, List.prefix_refl _, Nat.le_refl _, fun _ alive => ⟨rfl, ?_, rfl⟩⟩
    have ne : id ≠ task := fun same => alive ⟨player, same ▸ gone⟩
    refine (List.filter_filter ..).trans (List.filter_congr fun x _ => ?_)
    by_cases its : x.1 = id
    · simp [its, ne]
    · simp [its]
  | finish task result own =>
    have ne : id ≠ task := fun same => other (same ▸ own)
    refine ⟨.same rfl rfl rfl, List.prefix_append _ _, Nat.le_refl _, fun _ _ => ?_⟩
    refine ⟨Named.get?_erase_ne _ ne, rfl, points_append _ fun e he its => ?_⟩
    rw [List.mem_singleton.1 he] at its
    exact ne (Option.some.inj its).symm
  | arrive messages its => exact .of_same ⟨rfl, rfl, rfl⟩ rfl rfl rfl rfl

abbrev AnyChores : Option TaskId → Scheduler → Scheduler → Prop := Chores fun _ => True

theorem Stocked.any (s : Scheduler) : s.Stocked fun _ => True where
  bodies := fun _ _ _ _ => trivial
  messages := fun m _ => by cases m.2 <;> trivial
  parser := fun _ _ _ _ => trivial
  database := fun _ _ _ => trivial

theorem Chores.spares (chores : AnyChores under s s') (other : under ≠ some id) :
    Spares id s s' := by
  induction chores with
  | refl => exact .refl s
  | tail _ chore ih => exact ih.trans (chore.spares other)

theorem Chores.beside (chores : AnyChores none s s') : Spares id s s' := chores.spares nofun

theorem perform_spares (s : Scheduler) (e : Effect) : Spares id s (s.perform e).2 := by
  by_cases takes : ∃ session, e = .acquire session
  · obtain ⟨session, rfl⟩ := takes
    exact .of_same ⟨rfl, rfl, rfl⟩ rfl rfl rfl rfl
  · exact Chores.beside (s.perform_chores fun session same => takes ⟨session, same⟩)

theorem move_spares {caller : Caller} (other : caller.task ≠ id) (act : Act) (s : Scheduler) :
    Spares id s (act.move caller s).2 := by
  have apart : some caller.task ≠ some id := fun same => other (Option.some.inj same)
  have finished (result : Except String Value) : Spares id s (s.finish caller.task result).2 :=
    Chores.spares (s.finish_chores caller.task result) apart
  cases act with
  | complete v => exact finished (.ok v)
  | abort message => exact finished (.error message)
  | effect e next => exact s.perform_spares e
  | background envelope callback held next =>
    rw [move_background_eq]
    have home : Spares id s (s.putBack caller.task held next) :=
      Chores.spares (s.putBack_chores caller.task held fun _ => trivial) apart
    generalize s.putBack caller.task held next = s' at home ⊢
    have asked : Spares id s' _ := .of_host
      (s'.toHost.suspend_minds caller.task { envelope with callback })
      (s'.toHost.suspend_apart caller.task { envelope with callback })
    exact home.trans (asked.trans (Chores.spares (received_chores _ caller next _) apart))

theorem handleCompletion_spares (s : Scheduler) {c : Completion} (other : c.task ≠ id) :
    Spares id s (s.handleCompletion c) := by
  have taken : Spares id s (s.note (.taken c)) :=
    Chores.beside (s.note_chores rfl nofun)
  refine taken.trans ?_
  unfold handleCompletion
  dsimp only
  generalize s.note (.taken c) = s'
  split
  · exact .of_same ⟨rfl, rfl, rfl⟩ rfl rfl rfl rfl
  · split
    · have turns : (s'.ready ++ [(c.task, Input.resume c.result)]).filter (·.1 = id) =
          s'.ready.filter (·.1 = id) := by
        simp [List.filter_append, other]
      have kept : (s'.tasks.update c.task fun t => { t with waiting := none }).get? id =
          s'.tasks.get? id := (Named.get?_update ..).trans (if_neg other.symm)
      exact ⟨.same rfl rfl rfl, List.prefix_refl _, Nat.le_refl _, fun _ _ =>
        ⟨kept, turns, rfl⟩⟩
    · have told : Spares id s' (s'.note (.stray c.handle c.task)) :=
        Chores.beside (s'.note_chores rfl nofun)
      exact told.trans (.of_same ⟨rfl, rfl, rfl⟩ rfl rfl rfl rfl)

end Scheduler

namespace Work
open Scheduler

/-- What there is to see of a task: its entry in the table, its turns, its step that is under way,
and the points of its life. -/
structure View where
  task : Option Task
  turns : List (TaskId × Input)
  act : Option (Caller × Act)
  points : List Event

def view (w : Work) (id : TaskId) : View where
  task := w.server.tasks.get? id
  turns := (w.batch ++ w.server.ready).filter (·.1 = id)
  act := w.act.filter (·.1.task = id)
  points := points id w.server.trace

/-- The turns of the loop that are about one task: its result is taken in, it is picked, or its step
goes on. -/
inductive Own (id : TaskId) : Work → Work → Prop where
  | result (s : Scheduler) (batch) (c : Completion) (rest : List Completion)
      (waiting : s.channel = c :: rest) (its : c.task = id) :
      Own id ⟨s, batch, none⟩ ⟨{ s with channel := rest }.handleCompletion c, batch, none⟩
  | pick (s : Scheduler) (batch) (input : Input) :
      Own id ⟨s, (id, input) :: batch, none⟩ ⟨(s.pick id input).2, batch, (s.pick id input).1⟩
  | move (s : Scheduler) (batch) (caller : Caller) (act : Act) (its : caller.task = id) :
      Own id ⟨s, batch, some (caller, act)⟩
        ⟨(act.move caller s).2, batch, goingOn caller (act.move caller s).1⟩

theorem Own.minds {id : TaskId} {w w' : Work} (own : Own id w w') :
    Host.Minds id w.server.toHost w'.server.toHost := by
  cases own with
  | result s batch c rest waiting its =>
    have left : Host.Minds id s.toHost ({ s with channel := rest } : Scheduler).toHost :=
      .fewer rfl rfl (waiting ▸ List.sublist_cons_self ..)
    exact left.trans (handleCompletion_minds _ c)
  | pick s batch input => exact (s.pick_minds id id input).2
  | move s batch caller act its => exact move_minds id caller act s

/-- What happens leaves a task alone that was made before, unless it is killed. -/
structure Spares (id : TaskId) (w w' : Work) : Prop where
  minds : Host.Minds id w.server.toHost w'.server.toHost
  seen : w.server.trace <+: w'.server.trace
  later : w.server.lastTask ≤ w'.server.lastTask
  view : id ≤ w.server.lastTask → ¬ WasKilled id w'.server.trace → w'.view id = w.view id

variable {w w' : Work} {s s' : Scheduler} {batch batch' : List (TaskId × Input)}
  {act act' : Option (Caller × Act)} {id : TaskId} {given : List TaskId}

theorem Spares.of_server (spares : s.Spares id s')
    (turns : id ≤ s.lastTask → batch'.filter (·.1 = id) = batch.filter (·.1 = id))
    (step : act'.filter (·.1.task = id) = act.filter (·.1.task = id)) :
    Spares id ⟨s, batch, act⟩ ⟨s', batch', act'⟩ where
  minds := spares.minds
  seen := spares.seen
  later := spares.later
  view := fun made alive => by
    have untouched := spares.untouched made alive
    simp only [Work.view, List.filter_append, untouched.task, untouched.turns, untouched.points,
      turns made, step]

theorem Spares.aside (spares : s.Spares id s') : Spares id ⟨s, batch, act⟩ ⟨s', batch, act⟩ :=
  .of_server spares (fun _ => rfl) rfl

theorem pick_caller {task : TaskId} {input : Input} {caller : Caller} {act : Act}
    (picked : (s.pick task input).1 = some (caller, act)) : caller.task = task := by
  unfold pick at picked
  split at picked
  · cases picked
  · split at picked
    · cases picked
    · cases picked
      rfl

theorem filter_of_other {caller : Caller} (other : caller.task ≠ id) (moved : Act ⊕ StepOutcome) :
    (goingOn caller moved).filter (·.1.task = id) = none := by
  cases moved with
  | inl act => exact Option.filter_some_neg (by simpa using other)
  | inr outcome => rfl

theorem Turn.spares_or_own (turn : Turn w w') (id : TaskId) : Spares id w w' ∨ Own id w w' := by
  have beside {s s' : Scheduler} {batch act} (chores : AnyChores none s s') :
      Spares id ⟨s, batch, act⟩ ⟨s', batch, act⟩ := .aside (Chores.beside chores)
  cases turn with
  | message s => exact Or.inl (beside (takeMessage_chores (Stocked.any s)))
  | result s =>
    unfold takeCompletion
    split
    · exact Or.inl (beside .refl)
    · rename_i c rest waiting
      by_cases its : c.task = id
      · exact Or.inr (.result s _ c rest waiting its)
      · have left : s.Spares id { s with channel := rest } := by
          refine ⟨?_, List.prefix_refl _, Nat.le_refl _, fun _ _ => ⟨rfl, rfl, rfl⟩⟩
          exact .fewer rfl rfl (waiting ▸ List.sublist_cons_self ..)
        exact Or.inl (.aside (left.trans (handleCompletion_spares _ its)))
  | poll s => exact Or.inl (beside s.pollCheckpoint_chores)
  | values s => exact Or.inl (beside (Chores.same rfl rfl rfl rfl))
  | destroy s batch v =>
    have told : AnyChores none s (s.note (.destroyed (v.finalizableId?.getD 0))) :=
      s.note_chores rfl nofun
    exact Or.inl (beside (told.trans (Chores.same rfl rfl rfl rfl)))
  | summon s batch v body its =>
    have made : AnyChores none s (s.createTask .system none body false).2 :=
      s.create_chores .system none false trivial
    refine Or.inl (.of_server (Chores.beside made) (fun older => ?_) rfl)
    have ne : s.lastTask + 1 ≠ id := (Nat.ne_of_lt (Nat.lt_succ_of_le older)).symm
    simp [List.filter_append, ne]
  | takeLines s => exact Or.inl (.aside (.of_same ⟨rfl, rfl, rfl⟩ rfl rfl rfl rfl))
  | command s batch entry => exact Or.inl (beside (startCommand_chores (Stocked.any s) entry))
  | takeUp s =>
    refine Or.inl ⟨.same rfl rfl rfl, List.prefix_refl _, Nat.le_refl _, fun _ _ => ?_⟩
    simp [Work.view]
  | pick s batch task input =>
    by_cases its : task = id
    · exact Or.inr (its ▸ .pick s batch input)
    · have picked : AnyChores (some task) s (s.pick task input).2 := s.pick_chores task input
      have others : (s.pick task input).1.filter (·.1.task = id) = none := by
        cases answer : (s.pick task input).1 with
        | none => rfl
        | some step => exact Option.filter_some_neg (by simpa [pick_caller answer] using its)
      exact Or.inl (.of_server (Chores.spares picked fun same => its (Option.some.inj same))
        (fun _ => by simp [its]) others)
  | move s batch caller act =>
    by_cases its : caller.task = id
    · exact Or.inr (.move s batch caller act its)
    · exact Or.inl (.of_server (move_spares its act s) (fun _ => rfl)
        ((filter_of_other its _).trans (filter_of_other its (.inl act)).symm))
  | sweep s => exact Or.inl (.aside (.of_same ⟨rfl, rfl, rfl⟩ rfl rfl rfl rfl))

/-- Whatever happens leaves a task alone, unless it is killed or the loop takes a turn that is about
it. -/
theorem Beat.spares_or_own (beat : Beat w given w') (id : TaskId) :
    Spares id w w' ∨ Own id w w' := by
  cases beat with
  | turn turn => exact turn.spares_or_own id
  | deed s batch act deed outside =>
    refine Or.inl (.aside ?_)
    by_cases elsewhere : ∃ w l clock, deed = .elsewhere w l clock
    · obtain ⟨w, l, clock, rfl⟩ := elsewhere
      exact .of_same ⟨rfl, rfl, rfl⟩ rfl rfl rfl rfl
    · have its : deed.All fun _ => True := by
        cases deed with
        | post m => cases m <;> trivial
        | _ => trivial
      have unheld : deed.Unheld s := by
        cases deed with
        | elsewhere w l clock => exact absurd ⟨w, l, clock, rfl⟩ elsewhere
        | _ => trivial
      have done : AnyChores none s (deed.carryOut s) := s.carryOut_chores deed outside its unheld
      exact Chores.beside done
  | arrive s => exact Or.inl (.aside (.of_same ⟨rfl, rfl, rfl⟩ rfl rfl rfl rfl))

theorem Beat.minds (beat : Beat w given w') (id : TaskId) :
    Host.Minds id w.server.toHost w'.server.toHost :=
  (beat.spares_or_own id).elim Spares.minds Own.minds

theorem Run.made {ids forgone : List TaskId} (run : Run w ids forgone w') :
    w.server.made <+: w'.server.made := by
  induction run with
  | refl => exact List.prefix_refl _
  | tail _ beat ih => exact ih.trans (beat.minds 0).made

theorem Run.free {ids forgone : List TaskId} (run : Run w ids forgone w')
    (start : w.server.onTheWay id = 0) (unasked : w'.server.requests id = 0) :
    w'.server.onTheWay id = 0 := by
  induction run with
  | refl => exact start
  | @tail w' w'' ids forgone given run beat ih =>
    have minds : Host.Minds id w'.server.toHost w''.server.toHost := beat.minds id
    have before : w'.server.requests id = 0 :=
      Nat.le_zero.1 (unasked ▸ Host.requests_le minds.made id)
    exact Nat.le_zero.1 (ih before ▸ (minds.way (unasked.trans before.symm)).1)

end Work
end MooCore
