import Mathlib
import MooCore.Proofs.Scheduler.Agreement
import MooCore.Proofs.Scheduler.Results
import MooCore.Proofs.Scheduler.Sparing
/-!
# A task on its way

A task asks for one thing after another, and nobody else asks for anything in its name. Whatever
happens around it, and in whatever order the threads come back: as long as it is neither killed nor
turned down, it is given the results of what it asks for, one by one, and comes to its own end.
-/

set_option autoImplicit false
namespace MooCore
open Background

def Event.resumed? (id : TaskId) : Event → Option Value
  | .stepped task resumed => if task = id then resumed else none
  | _ => none

/-- What a task was resumed with, in order. -/
def heard (id : TaskId) (es : List Event) : List Value := es.filterMap (Event.resumed? id)

theorem heard_append (id : TaskId) (es es' : List Event) :
    heard id (es ++ es') = heard id es ++ heard id es' := List.filterMap_append

theorem heard_stepped (id : TaskId) (resumed : Option Value) :
    heard id [.stepped id resumed] = resumed.toList := by
  cases resumed <;> simp [heard, Event.resumed?]

theorem heard_points (id : TaskId) (es : List Event) : heard id (points id es) = heard id es := by
  rw [heard, points, List.filterMap_filter, heard]
  refine List.filterMap_congr fun e _ => ?_
  cases e with
  | stepped task resumed => by_cases its : task = id <;> simp [Event.life?, Event.resumed?, its]
  | _ => simp [Event.resumed?]

/-! ## Before the first step -/

namespace Register

variable {r r' : Register} {es all : List Event}

/-- A task that was not stepped yet is to start, and only tasks that were stepped have ended. -/
structure Fresh (r : Register) (all : List Event) : Prop where
  under : ∀ id, r.under = some id → ∃ v, .stepped id v ∈ all
  ended : ∀ id result, .ended id result ∈ all → ∃ v, .stepped id v ∈ all
  turn : ∀ id, (r.tasks.get? id).isSome = true → (∀ v, .stepped id v ∉ all) →
    (id, .start) ∈ r.turns

theorem told_mute (handles : Named TaskId (Option TaskAnswer)) (id task : TaskId) (t : Task)
    (a : TaskAnswer) (result : Except String Value) : .ended task result ∉ told handles id t a := by
  unfold told
  split <;> simp

theorem Fresh.next (fresh : r.Fresh all)
    (under : ∀ id, r'.under = some id → r.under = some id ∨ ∃ v, .stepped id v ∈ es)
    (ended : ∀ id result, .ended id result ∈ es → r.under = some id)
    (turn : ∀ id, (r'.tasks.get? id).isSome = true → (∀ v, .stepped id v ∉ es) →
      ((r.tasks.get? id).isSome = true ∧ ((id, .start) ∈ r.turns → (id, .start) ∈ r'.turns)) ∨
        (id, .start) ∈ r'.turns) : r'.Fresh (all ++ es) := by
  have earlier (id : TaskId) (stepped : ∃ v, .stepped id v ∈ all) :
      ∃ v, .stepped id v ∈ all ++ es := stepped.imp fun _ => List.mem_append_left _
  refine ⟨fun id its => ?_, fun id result its => ?_, fun id there unstepped => ?_⟩
  · rcases under id its with before | ⟨v, now⟩
    · exact earlier id (fresh.under id before)
    · exact ⟨v, List.mem_append_right _ now⟩
  · rcases List.mem_append.1 its with before | now
    · exact earlier id (fresh.ended id result before)
    · exact earlier id (fresh.under id (ended id result now))
  · rcases turn id there fun v now => unstepped v (List.mem_append_right _ now) with
      ⟨before, still⟩ | here
    · exact still (fresh.turn id before fun v now => unstepped v (List.mem_append_left _ now))
    · exact here

theorem Step.fresh (step : Step r es r') (fair : r.Fair all) (fresh : r.Fresh all) :
    r'.Fresh (all ++ es) := by
  have made {t : Task} (id : TaskId)
      (there : ((r.tasks.set (r.last + 1) t).get? id).isSome = true) :
      id = r.last + 1 ∨ (r.tasks.get? id).isSome = true := by
    rw [Named.get?_set] at there
    split at there
    · exact Or.inl ‹_›
    · exact Or.inr there
  have updated {tasks : Named TaskId Task} (f : Task → Task) (task : TaskId)
      (same : tasks = r.tasks.update task f) (id : TaskId)
      (there : (tasks.get? id).isSome = true) : (r.tasks.get? id).isSome = true := by
    rwa [same, Named.get?_update_isSome] at there
  have erased (task id : TaskId) (there : ((r.tasks.erase task).get? id).isSome = true) :
      id ≠ task ∧ (r.tasks.get? id).isSome = true := by
    have ne : id ≠ task := fun same => by
      rw [same, Named.get?_erase_self fair.distinct] at there
      cases there
    exact ⟨ne, by rwa [Named.get?_erase_ne _ ne] at there⟩
  cases step with
  | submitted player session t new asks | hired player session t new unasked
  | summoned player session t new unasked =>
    refine fresh.next (fun _ => Or.inl) (by simp) fun id there _ => ?_
    rcases made id there with rfl | before
    · exact Or.inr (by simp [turns, enrol])
    · refine Or.inl ⟨before, fun here => ?_⟩
      simp only [turns, enrol, List.mem_append] at here ⊢
      tauto
  | killed task t there =>
    refine fresh.next (fun _ => Or.inl) (by simp [told_mute]) fun id still _ => ?_
    obtain ⟨ne, before⟩ := erased task id still
    refine Or.inl ⟨before, fun here => ?_⟩
    simpa [turns, ne] using here
  | ended task t result there under =>
    refine fresh.next (by simp) (by simp [told_mute, under]) fun id still _ => ?_
    exact Or.inl ⟨(erased task id still).2, fun here => here⟩
  | rested | detached | unclaimed =>
    exact fresh.next (by simp) (by simp) fun id there _ => Or.inl ⟨there, fun here => here⟩
  | home task f under keeps =>
    exact fresh.next (fun _ => Or.inl) (by simp) fun id there _ =>
      Or.inl ⟨updated f task rfl id there, fun here => here⟩
  | stepped task resumed under =>
    exact fresh.next (fun _ => Or.inl) (by simp) fun id there _ =>
      Or.inl ⟨updated (fun t => { t with body := none }) task rfl id there, fun here => here⟩
  | parked task h under home =>
    exact fresh.next (by simp) (by simp) fun id there _ =>
      Or.inl ⟨updated (fun t => { t with waiting := some h }) task rfl id there, fun here => here⟩
  | picked task input batch t turn free there =>
    refine fresh.next (fun id its => ?_) (fun id result its => ?_) fun id still unstepped => ?_
    · obtain rfl := Option.some.inj its
      exact Or.inr ⟨_, List.mem_append_right _ (List.mem_singleton_self _)⟩
    · cases input <;> simp [arrival] at its
    · have ne : id ≠ task := by
        rintro rfl
        exact unstepped _ (List.mem_append_right _ (List.mem_singleton_self _))
      refine Or.inl ⟨updated (fun t => { t with body := none }) task rfl id still, fun here => ?_⟩
      rw [turns_of_batch turn] at here
      exact (List.mem_cons.1 here).resolve_left fun same => ne (congrArg Prod.fst same)
  | missed task input batch turn gone =>
    refine fresh.next (fun _ => Or.inl) (by simp) fun id there _ => Or.inl ⟨there, fun here => ?_⟩
    rw [turns_of_batch turn] at here
    refine (List.mem_cons.1 here).resolve_left fun same => ?_
    obtain rfl : id = task := congrArg Prod.fst same
    change (r.tasks.get? id).isSome = true at there
    rw [gone] at there
    cases there
  | reentered task input batch t turn free there away =>
    have home := fair.home task t there (free ▸ (Option.some_ne_none _).symm)
    rw [away] at home
    cases home
  | claimed c t there waits =>
    refine fresh.next (fun _ => Or.inl) (by simp) fun id still _ => ?_
    refine Or.inl ⟨updated (fun t => { t with waiting := none }) c.task rfl id still,
      fun here => ?_⟩
    simp only [turns, List.mem_append] at here ⊢
    tauto
  | takenUp done =>
    refine fresh.next (fun _ => Or.inl) (by simp) fun id there _ => Or.inl ⟨there, fun here => ?_⟩
    simpa [turns, done] using here

end Register

namespace Work
open Scheduler

/-! ## How far a task has come -/

/-- What a task has yet to be told, after what is seen of its life. -/
structure Left (id : TaskId) (told : List Shape) (es : List Event) (rest : List Shape) : Prop where
  so_far : (heard id es).map Value.shape ++ rest = told
  unended : ∀ result, .ended id result ∉ es

/-- What there is to see of a task that comes to its end by some results: it has a turn, its step is
under way, it is away for a result, or it is over. Only while it is away is something on its way to
it. -/
inductive Stands (c : Caller) (told : List Shape) (out : Except String Shape) (h : Host) :
    View → Prop where
  | due {t : Task} {b : Body} {input : Input} {rest : List Shape} {es : List Event}
      (mine : (⟨c.task, t.player, t.session⟩ : Caller) = c) (its : t.body = some b)
      (comes : Act.Comes (fun _ => True) c (b.step c input) rest out)
      (left : Left c.task told es (input.result?.toList.map Value.shape ++ rest))
      (free : h.onTheWay c.task = 0) : Stands c told out h ⟨some t, [(c.task, input)], none, es⟩
  | acting {t : Task} {act : Act} {rest : List Shape} {es : List Event}
      (mine : (⟨c.task, t.player, t.session⟩ : Caller) = c)
      (comes : Act.Comes (fun _ => True) c act rest out) (left : Left c.task told es rest)
      (free : h.onTheWay c.task = 0) : Stands c told out h ⟨some t, [], some (c, act), es⟩
  | away {t : Task} {b : Body} {result : Shape} {rest : List Shape} {es : List Event}
      (mine : (⟨c.task, t.player, t.session⟩ : Caller) = c) (its : t.body = some b)
      (comes : ∀ v : Value, v.shape = result →
        Act.Comes (fun _ => True) c (b.step c (.resume v)) rest out)
      (left : Left c.task told es (result :: rest)) (one : h.onTheWay c.task ≤ 1)
      (brings : h.Brings c.task (·.shape = result)) : Stands c told out h ⟨some t, [], none, es⟩
  | atEnd {task : Option Task} {es : List Event} (so_far : (heard c.task es).map Value.shape = told)
      (ended : ∀ result, .ended c.task result ∈ es → result.map Value.shape = out)
      (free : h.onTheWay c.task = 0) : Stands c told out h ⟨task, [], none, es⟩

/-- One of the requests of a task was turned down. -/
def TurnedDown (id : TaskId) (s : Scheduler) : Prop :=
  ∃ n r why, s.made[n]? = some (id, r) ∧ .refused n why ∈ s.trace

/-- How a task proceeds that comes to its end by some results. -/
inductive Proceeds (c : Caller) (told : List Shape) (out : Except String Shape) (w : Work) :
    Prop where
  | killed (killed : WasKilled c.task w.server.trace)
  | turnedDown (why : TurnedDown c.task w.server)
  | stands (born : c.task ≤ w.server.lastTask)
      (stands : Stands c told out w.server.toHost (w.view c.task))

variable {c : Caller} {told rest : List Shape} {out : Except String Shape} {h h' : Host} {v : View}
  {es es' : List Event} {id : TaskId}

theorem Proceeds.of_view {w : Work} {task : Option Task} {turns : List (TaskId × Input)}
    {act : Option (Caller × Act)} (born : c.task ≤ w.server.lastTask)
    (there : w.server.tasks.get? c.task = task)
    (its_turns : (w.batch ++ w.server.ready).filter (·.1 = c.task) = turns)
    (its_act : w.act.filter (·.1.task = c.task) = act) (seen : points c.task w.server.trace = es)
    (stands : Stands c told out w.server.toHost ⟨task, turns, act, es⟩) :
    Proceeds c told out w := by
  refine .stands born ?_
  rw [view, there, its_turns, its_act, seen]
  exact stands

theorem Left.add (left : Left id told es ((heard id es').map Value.shape ++ rest))
    (unended : ∀ result, .ended id result ∉ es') : Left id told (es ++ es') rest where
  so_far := by
    rw [heard_append, List.map_append, List.append_assoc]
    exact left.so_far
  unended := fun result ended =>
    (List.mem_append.1 ended).elim (left.unended result) (unended result)

/-- As long as nothing else comes on the way to the task, and nothing is seen of it, it is where it
was. -/
theorem Stands.spared (stands : Stands c told out h v)
    (fewer : h'.onTheWay c.task ≤ h.onTheWay c.task)
    (brings : ∀ p, h.Brings c.task p → h'.Brings c.task p) : Stands c told out h' v := by
  cases stands with
  | due mine its comes left free => exact .due mine its comes left (by omega)
  | acting mine comes left free => exact .acting mine comes left (by omega)
  | away mine its comes left one bringing =>
    exact .away mine its comes left (by omega) (brings _ bringing)
  | atEnd so_far ended free => exact .atEnd so_far ended (by omega)

variable {w w' : Work} {s s' : Scheduler} {batch : List (TaskId × Input)}
  {act : Option (Caller × Act)}

theorem TurnedDown.of_prefix (turned : TurnedDown id s) (made : s.made <+: s'.made)
    (seen : s.trace <+: s'.trace) : TurnedDown id s' := by
  obtain ⟨n, r, why, its, refused⟩ := turned
  obtain ⟨more, made⟩ := made
  refine ⟨n, r, why, ?_, seen.subset refused⟩
  rw [← made, List.getElem?_append_left (List.getElem?_eq_some_iff.1 its).1, its]

theorem Proceeds.spared (proceeds : Proceeds c told out w) (spares : Spares c.task w w')
    (unasked : w'.server.requests c.task = w.server.requests c.task) : Proceeds c told out w' := by
  cases proceeds with
  | killed killed => exact .killed (killed.of_prefix spares.seen)
  | turnedDown why => exact .turnedDown (why.of_prefix spares.minds.made spares.seen)
  | stands born stands =>
    by_cases killed : WasKilled c.task w'.server.trace
    · exact .killed killed
    · obtain ⟨fewer, brings⟩ := spares.minds.way unasked
      refine .stands (born.trans spares.later) ?_
      rw [spares.view born killed]
      exact stands.spared fewer brings

/-! ## The loop turns to the task -/

/-- What is left of a step that is under way. -/
structure Acting (c : Caller) (told : List Shape) (out : Except String Shape) (s : Scheduler)
    (batch : List (TaskId × Input)) (act : Act) (rest : List Shape) : Prop where
  born : c.task ≤ s.lastTask
  there : ∃ t, s.tasks.get? c.task = some t ∧ (⟨c.task, t.player, t.session⟩ : Caller) = c
  turns : (batch ++ s.ready).filter (·.1 = c.task) = []
  comes : Act.Comes (fun _ => True) c act rest out
  left : Left c.task told (points c.task s.trace) rest
  free : s.onTheWay c.task = 0

theorem Acting.proceeds {act : Act} (acting : Acting c told out s batch act rest) :
    Proceeds c told out ⟨s, batch, some (c, act)⟩ := by
  obtain ⟨born, ⟨t, there, mine⟩, turns, comes, left, free⟩ := acting
  exact .of_view born there turns (Option.filter_some_pos (by simp)) rfl
    (.acting mine comes left free)

theorem updateTask_there {t : Task} (there : s.tasks.get? id = some t) (f : Task → Task) :
    (s.updateTask id f).tasks.get? id = some (f t) := by
  rw [updateTask, Named.get?_update, if_pos rfl, there, Option.map_some]

theorem takeBody_proceeds {t : Task} {act : Act} {resumed : Option Value}
    (born : c.task ≤ s.lastTask) (there : s.tasks.get? c.task = some t)
    (mine : (⟨c.task, t.player, t.session⟩ : Caller) = c)
    (turns : (batch ++ s.ready).filter (·.1 = c.task) = [])
    (comes : Act.Comes (fun _ => True) c act rest out)
    (left : Left c.task told (points c.task s.trace) (resumed.toList.map Value.shape ++ rest))
    (free : s.onTheWay c.task = 0) :
    Proceeds c told out ⟨s.takeBody c.task resumed, batch, some (c, act)⟩ := by
  have away := updateTask_there there fun t => { t with body := none }
  have seen : points c.task (s.takeBody c.task resumed).trace =
      points c.task s.trace ++ [.stepped c.task resumed] :=
    points_own s.trace fun _ he => List.mem_singleton.1 he ▸ rfl
  refine Acting.proceeds ⟨born, ⟨_, away, mine⟩, turns, comes, ?_, free⟩
  rw [seen]
  exact Left.add ((heard_stepped ..).symm ▸ left) fun _ he => nomatch List.mem_singleton.1 he

theorem pick_proceeds {input : Input} (born : c.task ≤ s.lastTask)
    (stands : Stands c told out s.toHost (view ⟨s, (c.task, input) :: batch, none⟩ c.task)) :
    Proceeds c told out ⟨(s.pick c.task input).2, batch, (s.pick c.task input).1⟩ := by
  have its_turn : (view ⟨s, (c.task, input) :: batch, none⟩ c.task).turns =
      (c.task, input) :: (batch ++ s.ready).filter (·.1 = c.task) := by
    simp [view]
  generalize viewed : view ⟨s, (c.task, input) :: batch, none⟩ c.task = v at stands its_turn
  cases stands with
  | acting | away | atEnd => cases its_turn
  | @due t b input' rest es mine its comes left free =>
    obtain ⟨same, no_more⟩ := List.cons.inj its_turn
    obtain rfl : input' = input := congrArg Prod.snd same
    have there : s.tasks.get? c.task = some t := congrArg View.task viewed
    obtain rfl : points c.task s.trace = es := congrArg View.points viewed
    have picked : s.pick c.task input' = (some (c, b.step c input'),
        (s.noteDelivery c.task input').takeBody c.task input'.result?) := by
      simp only [pick, there, its, mine]
    rw [picked]
    cases input' with
    | start => exact takeBody_proceeds born there mine no_more.symm comes left free
    | resume v =>
      have seen : points c.task (s.noteDelivery c.task (.resume v)).trace =
          points c.task s.trace ++ [.delivered c.task] :=
        points_own s.trace fun _ he => List.mem_singleton.1 he ▸ rfl
      refine takeBody_proceeds born there mine no_more.symm comes ?_ free
      rw [seen]
      exact Left.add left (by simp)

/-- The result that comes for the task is taken in. -/
theorem result_proceeds {c₀ : Completion} {more : List Completion} (its : c₀.task = c.task)
    (waiting : s.channel = c₀ :: more) (born : c.task ≤ s.lastTask)
    (stands : Stands c told out s.toHost (view ⟨s, batch, none⟩ c.task)) :
    Proceeds c told out ⟨{ s with channel := more }.handleCompletion c₀, batch, none⟩ := by
  have way : s.onTheWay c.task = ({ s with channel := more } : Scheduler).onTheWay c.task + 1 := by
    simp only [Host.onTheWay, waiting, List.countP_cons, its, decide_true, if_true]
    omega
  have mem : c₀ ∈ s.channel := waiting ▸ List.mem_cons_self ..
  generalize viewed : view ⟨s, batch, none⟩ c.task = v at stands
  cases stands with
  | due _ _ _ _ free | acting _ _ _ free | atEnd _ _ free =>
    exact absurd (way.symm.trans free) (Nat.succ_ne_zero _)
  | @away t b result rest es mine home comes left one brings =>
    have there : s.tasks.get? c.task = some t := congrArg View.task viewed
    have none_left : (batch ++ s.ready).filter (·.1 = c.task) = [] := congrArg View.turns viewed
    obtain rfl : points c.task s.trace = es := congrArg View.points viewed
    have free : ({ s with channel := more } : Scheduler).onTheWay c.task = 0 := by omega
    have given : c₀.result.shape = result := brings.channel c₀ mem its
    have seen (es : List Event) (mute : ∀ e ∈ es, e.life? = none) :
        points c.task (s.trace ++ es) = points c.task s.trace :=
      points_append _ fun e he => mute e he ▸ (Option.some_ne_none _).symm
    have found : (({ s with channel := more } : Scheduler).note (.taken c₀)).tasks.get? c.task =
        some t := there
    unfold handleCompletion
    rw [its]
    dsimp only
    rw [found]
    dsimp only
    split
    · have awake := updateTask_there there fun t => { t with waiting := none }
      have turn : (batch ++ (s.ready ++ [(c.task, Input.resume c₀.result)])).filter
          (·.1 = c.task) = [(c.task, .resume c₀.result)] := by
        rw [← List.append_assoc, List.filter_append, none_left]
        simp
      have told_of : Left c.task told (points c.task s.trace)
          ([c₀.result].map Value.shape ++ rest) := by
        rw [List.map_singleton, given]
        exact left
      exact .of_view born awake turn rfl (seen [.taken c₀] (by simp [Event.life?]))
        (.due mine home (comes _ given) told_of free)
    · have quiet := seen [.taken c₀, .stray c₀.handle c.task] (by simp [Event.life?])
      rw [List.append_cons] at quiet
      exact .of_view born there none_left rfl quiet
        (.away mine home comes left (free.le.trans zero_le_one)
          (Host.brings_of_free (by exact free) _))

/-! ## The moves of its step -/

theorem finish_proceeds {act : Act} (acting : Acting c told out s batch act [])
    {result : Except String Value} (ends : result.map Value.shape = out) :
    Proceeds c told out ⟨(s.finish c.task result).2, batch, none⟩ := by
  obtain ⟨born, ⟨t, there, -⟩, turns, -, left, free⟩ := acting
  have rest : Spares c.task
      ⟨{ s with tasks := s.tasks.erase c.task }.note (.ended c.task result), batch, none⟩
      ⟨(s.finish c.task result).2, batch, none⟩ :=
    .aside (Chores.beside (s.ended_chores c.task result there))
  refine Proceeds.spared ?_ rest (Host.requests_same (s.finish_unasked c.task result).made c.task)
  have seen : points c.task (s.trace ++ [.ended c.task result]) =
      points c.task s.trace ++ [.ended c.task result] :=
    points_own s.trace fun _ he => List.mem_singleton.1 he ▸ rfl
  refine .of_view born rfl turns rfl seen (.atEnd ?_ (fun result' ended => ?_) free)
  · rw [heard_append, ← left.so_far, List.append_nil]
    simp [heard, Event.resumed?]
  · rcases List.mem_append.1 ended with old | new
    · exact absurd old (left.unended result')
    · cases List.mem_singleton.1 new
      exact ends

/-- The result of a request is there at once. Unless the task is killed now by its own step, it goes
on. -/
theorem received_immediate {caller : Caller} {next : Caller → Input → Act} {v : Value}
    (born : caller.task ≤ s.lastTask) (there : (s.tasks.get? caller.task).isSome = true)
    (alive : ¬ WasKilled caller.task (s.received caller next (.ok (.immediate v))).2.trace) :
    Untouched caller.task s s.killAsked ∧ s.received caller next (.ok (.immediate v)) =
      (.inl (next caller (.resume v)), s.killAsked.takeBody caller.task (some v)) := by
  have spares : Scheduler.Spares caller.task s s.killAsked :=
    Chores.beside s.killAsked_chores
  have answered : s.received caller next (.ok (.immediate v)) =
      if (s.killAsked.tasks.get? caller.task).isSome then
        (.inl (next caller (.resume v)), s.killAsked.takeBody caller.task (some v))
      else (.inr .gone, s.killAsked.release v) := rfl
  have not_before : ¬ WasKilled caller.task s.killAsked.trace := fun killed => by
    refine alive ?_
    rw [answered]
    split
    · exact killed.append_right _
    · exact killed
  have untouched := spares.untouched born not_before
  exact ⟨untouched, answered.trans (if_pos (untouched.task ▸ there))⟩

/-- The task is told the answer to a request: that it was turned down, its result, or that the
result is on its way. -/
theorem received_proceeds {t : Task} {b : Body} {result : Shape} {response : Response}
    (born : c.task ≤ s.lastTask) (there : s.tasks.get? c.task = some t)
    (mine : (⟨c.task, t.player, t.session⟩ : Caller) = c) (home : t.body = some b)
    (turns : (batch ++ s.ready).filter (·.1 = c.task) = [])
    (comes : ∀ v : Value, v.shape = result →
      Act.Comes (fun _ => True) c (b.step c (.resume v)) rest out)
    (left : Left c.task told (points c.task s.trace) (result :: rest))
    (answered : match response with
      | .error _ => TurnedDown c.task s
      | .ok (.immediate v) => v.shape = result ∧ s.onTheWay c.task = 0
      | .ok (.waiting _) => s.onTheWay c.task ≤ 1 ∧ s.Brings c.task (·.shape = result)) :
    Proceeds c told out ⟨(s.received c b.step response).2, batch,
      goingOn c (s.received c b.step response).1⟩ := by
  rcases response with why | handle | v
  · have unasked := s.received_unasked c b.step (.error why)
    obtain ⟨es, seen, -⟩ := unasked.trace
    exact .turnedDown (answered.of_prefix (unasked.made ▸ List.prefix_refl _) ⟨es, seen.symm⟩)
  · obtain ⟨one, brings⟩ := answered
    have spares : Spares c.task ⟨s.park c.task handle, batch, none⟩
        ⟨(s.park c.task handle).killAsked, batch, none⟩ :=
      .aside (Chores.beside (killAsked_chores _))
    have parked := updateTask_there there fun t => { t with waiting := some handle }
    refine Proceeds.spared ?_ spares (Host.requests_same (killAsked_unasked _).made c.task)
    exact .of_view born parked turns rfl rfl (.away mine home comes left one brings)
  · obtain ⟨same, free⟩ := answered
    by_cases killed : WasKilled c.task (s.received c b.step (.ok (.immediate v))).2.trace
    · exact .killed killed
    · obtain ⟨untouched, moved⟩ := received_immediate born (there ▸ rfl) killed
      have spares : Scheduler.Spares c.task s s.killAsked :=
        Chores.beside s.killAsked_chores
      rw [moved]
      refine takeBody_proceeds (born.trans spares.later) (untouched.task.trans there) mine ?_
        (comes v same) ?_ ?_
      · rw [List.filter_append, untouched.turns, ← List.filter_append, turns]
      · rw [untouched.points, Option.toList_some, List.map_singleton, same]
        exact left
      · have fewer := (spares.minds.way
          (Host.requests_same s.killAsked_unasked.made c.task)).1
        omega

theorem asked_proceeds {t : Task} {b : Body} {r : Request} {result : Shape}
    (born : c.task ≤ s.lastTask) (there : s.tasks.get? c.task = some t)
    (mine : (⟨c.task, t.player, t.session⟩ : Caller) = c) (home : t.body = some b)
    (turns : (batch ++ s.ready).filter (·.1 = c.task) = []) (gives : r.Gives (·.shape = result))
    (comes : ∀ v : Value, v.shape = result →
      Act.Comes (fun _ => True) c (b.step c (.resume v)) rest out)
    (left : Left c.task told (points c.task s.trace) (result :: rest))
    (free : s.onTheWay c.task = 0) (asked : Response × Host)
    (answer : s.toHost.suspend c.task r = asked)
    (once : ({ s with toHost := asked.2 }.received c b.step asked.1).2.requests c.task ≤
      s.requests c.task + 1) :
    Proceeds c told out ⟨({ s with toHost := asked.2 }.received c b.step asked.1).2, batch,
      goingOn c ({ s with toHost := asked.2 }.received c b.step asked.1).1⟩ := by
  have made := (s.toHost.suspend_deals c.task r).made
  have seen := (s.toHost.suspend_apart c.task r).points c.task
  have its_own := Host.suspend_own gives free (h := s.toHost) (r := r)
  rw [answer] at made seen its_own
  have unasked := ({ s with toHost := asked.2 } : Scheduler).received_unasked c b.step asked.1
  have its_own := its_own (Host.requests_same unasked.made c.task ▸ once)
  refine received_proceeds born there mine home turns comes (seen.symm ▸ left) ?_
  obtain ⟨response, h⟩ := asked
  rcases response with why | handle | v
  · exact ⟨_, r, why, made, its_own⟩
  · exact its_own
  · exact its_own

theorem move_proceeds {act : Act} (acting : Acting c told out s batch act rest)
    (once : (act.move c s).2.requests c.task ≤ s.requests c.task + 1) :
    Proceeds c told out ⟨(act.move c s).2, batch, goingOn c (act.move c s).1⟩ := by
  cases act with
  | complete v => cases acting.comes with | complete => exact finish_proceeds acting rfl
  | abort message => cases acting.comes with | abort => exact finish_proceeds acting rfl
  | effect e next =>
    cases acting.comes with
    | effect _ _ _ on =>
      have goes_on : Proceeds c told out ⟨s, batch, some (c, next (s.perform e).1)⟩ :=
        Acting.proceeds { acting with comes := on s }
      exact goes_on.spared (.aside (s.perform_spares e))
        (Host.requests_same (s.perform_minds c.task e).1 c.task)
  | background envelope callback held next =>
    obtain ⟨born, ⟨t, there, mine⟩, turns, comes, left, free⟩ := acting
    cases comes with
    | background _ _ _ _ result gives comes =>
      rw [move_background_eq] at once ⊢
      have home := updateTask_there there fun t =>
        { t with body := some { description := t.description, held, step := next } }
      exact asked_proceeds (s := s.putBack c.task held next) born home mine rfl turns gives comes
        left free _ rfl once

/-! ## Beat by beat -/

/-- One beat in which nobody but the task itself asks for anything in its name: its step goes on,
which makes one request at most, or something else happens. -/
inductive Alone (id : TaskId) : Work → Work → Prop where
  | own (s : Scheduler) (batch) (caller : Caller) (act : Act) (its : caller.task = id)
      (once : (act.move caller s).2.requests id ≤ s.requests id + 1) :
      Alone id ⟨s, batch, some (caller, act)⟩
        ⟨(act.move caller s).2, batch, goingOn caller (act.move caller s).1⟩
  | other {w w' : Work} {given : List TaskId} (beat : Beat w given w')
      (unasked : w'.server.requests id = w.server.requests id) : Alone id w w'

theorem Own.grows (own : Own id w w') :
    w.server.made <+: w'.server.made ∧ w.server.trace <+: w'.server.trace := by
  -- it is a turn of the loop that spares the next task
  have next : id ≠ id + 1 := (Nat.succ_ne_self id).symm
  cases own with
  | result s batch c₀ more waiting its =>
    have spares : Scheduler.Spares (id + 1) { s with channel := more } _ :=
      handleCompletion_spares _ (its.trans_ne next)
    exact ⟨spares.minds.made, spares.seen⟩
  | pick s batch input =>
    have picked : AnyChores (some id) s (s.pick id input).2 := s.pick_chores id input
    have spares : Scheduler.Spares (id + 1) s _ :=
      Chores.spares picked fun same => next (Option.some.inj same)
    exact ⟨spares.minds.made, spares.seen⟩
  | move s batch caller act its =>
    have spares : Scheduler.Spares (id + 1) s _ := move_spares (its.trans_ne next) act s
    exact ⟨spares.minds.made, spares.seen⟩

theorem Stands.acts {caller : Caller} {act : Act} (born : c.task ≤ s.lastTask)
    (stands : Stands c told out s.toHost (view ⟨s, batch, some (caller, act)⟩ c.task))
    (its : caller.task = c.task) : caller = c ∧ ∃ rest, Acting c told out s batch act rest := by
  have under : (view ⟨s, batch, some (caller, act)⟩ c.task).act = some (caller, act) := by
    simp [view, its]
  generalize viewed : view ⟨s, batch, some (caller, act)⟩ c.task = v at stands under
  cases stands with
  | due | away | atEnd => cases under
  | @acting t act' rest es mine comes left free =>
    obtain ⟨rfl, rfl⟩ := Prod.mk.inj (Option.some.inj under)
    obtain rfl : points c.task s.trace = es := congrArg View.points viewed
    exact ⟨rfl, rest, born, ⟨t, congrArg View.task viewed, mine⟩, congrArg View.turns viewed,
      comes, left, free⟩

theorem Own.proceeds (own : Own c.task w w') (proceeds : Proceeds c told out w)
    (once : w'.server.requests c.task ≤ w.server.requests c.task + 1) : Proceeds c told out w' := by
  obtain ⟨made, seen⟩ := own.grows
  cases proceeds with
  | killed killed => exact .killed (killed.of_prefix seen)
  | turnedDown why => exact .turnedDown (why.of_prefix made seen)
  | stands born stands =>
    cases own with
    | result s batch c₀ more waiting its => exact result_proceeds its waiting born stands
    | pick s batch input => exact pick_proceeds born stands
    | move s batch caller act its =>
      obtain ⟨rfl, rest, acting⟩ := stands.acts born its
      exact move_proceeds acting once

theorem Alone.proceeds (alone : Alone c.task w w') (proceeds : Proceeds c told out w) :
    Proceeds c told out w' := by
  cases alone with
  | own s batch caller act its once =>
    exact Own.proceeds (.move s batch caller act its) proceeds once
  | other beat unasked =>
    rcases beat.spares_or_own c.task with spares | own
    · exact proceeds.spared spares unasked
    · exact own.proceeds proceeds (unasked.le.trans (Nat.le_succ _))

theorem filter_of_once {turns : List (TaskId × Input)} (once : (turns.map Prod.fst).Nodup)
    {input : Input} (mem : (id, input) ∈ turns) : turns.filter (·.1 = id) = [(id, input)] := by
  obtain ⟨before, after, rfl⟩ := List.append_of_mem mem
  rw [List.map_append, List.map_cons, List.nodup_append] at once
  obtain ⟨-, behind, apart⟩ := once
  have none_before : before.filter (·.1 = id) = [] := List.filter_eq_nil_iff.2 fun x hx same =>
    apart x.1 (List.mem_map_of_mem hx) id (List.mem_cons_self ..) (of_decide_eq_true same)
  have none_after : after.filter (·.1 = id) = [] := List.filter_eq_nil_iff.2 fun x hx same =>
    (List.nodup_cons.1 behind).1 (List.mem_map.2 ⟨x, hx, of_decide_eq_true same⟩)
  rw [List.filter_append, none_before, List.filter_cons_of_pos (by simp), none_after,
    List.nil_append]

/-- Runs in which a task is made with a body, and goes its way by itself from then on. What happened
before may be anything, but nobody may have asked for anything in its name. -/
inductive ByItself (c : Caller) (b : Body) : Work → Prop where
  | made {config : Config} {database : Database} {parser : CommandParser} {clock : Instant}
      {ids forgone : List TaskId} {w : Work} {t : Task}
      (run : Run (.idle (ofConfig config database parser clock)) ids forgone w)
      (there : w.server.tasks.get? c.task = some t)
      (mine : (⟨c.task, t.player, t.session⟩ : Caller) = c) (its : t.body = some b)
      (unstepped : ∀ v, .stepped c.task v ∉ w.server.trace)
      (unasked : w.server.requests c.task = 0) : ByItself c b w
  | beat {w w' : Work} (before : ByItself c b w) (alone : Alone c.task w w') : ByItself c b w'

/-- A task that was made and has not been stepped, and for which nobody has asked for anything, has
its whole way before it. -/
theorem Run.proceeds {config : Config} {database : Database} {parser : CommandParser}
    {clock : Instant} {ids forgone : List TaskId}
    (run : Run (.idle (ofConfig config database parser clock)) ids forgone w) {t : Task} {b : Body}
    (there : w.server.tasks.get? c.task = some t)
    (mine : (⟨c.task, t.player, t.session⟩ : Caller) = c) (its : t.body = some b)
    (unstepped : ∀ v, .stepped c.task v ∉ w.server.trace)
    (unasked : w.server.requests c.task = 0)
    (comes : Act.Comes (fun _ => True) c (b.step c .start) told out) : Proceeds c told out w := by
  obtain ⟨all, trace, runs⟩ := run.enters
  have trace : w.server.trace = all := trace
  obtain ⟨fair, fresh⟩ := runs.keep
    (P := fun r all => r.Fair all ∧ r.Fresh all)
    (fun step ⟨fair, fresh⟩ => ⟨fair.step step, step.fresh fair fresh⟩)
    ⟨(start_settled config database parser clock).fair, nofun, nofun, nofun⟩
  have isSome : (w.server.tasks.get? c.task).isSome = true := there ▸ rfl
  have not_yet (v : Option Value) : .stepped c.task v ∉ [] ++ all.filter Event.isOwn :=
    fun stepped => unstepped v (trace ▸ List.mem_of_mem_filter stepped)
  have free_hand : w.act.filter (·.1.task = c.task) = none := by
    cases under : w.act with
    | none => rfl
    | some step =>
      refine Option.filter_some_neg (decide_eq_false fun same => ?_)
      have its_own : (w.place ids forgone).under = some c.task := by
        rw [place, under, Option.map_some, same]
      obtain ⟨v, stepped⟩ := fresh.under c.task its_own
      exact not_yet v stepped
  have unheard : heard c.task (points c.task w.server.trace) = [] := by
    rw [heard_points]
    refine List.filterMap_eq_nil_iff.2 fun e he => ?_
    cases e with
    | stepped task resumed =>
      have other : task ≠ c.task := fun same => unstepped resumed (same ▸ he)
      exact if_neg other
    | _ => rfl
  refine .of_view (fair.given c.task (Or.inl isSome)) there
    (filter_of_once fair.once (fresh.turn c.task isSome not_yet)) free_hand rfl
    (.due mine its comes ⟨by rw [unheard]; rfl, fun result ended => ?_⟩ (run.free rfl unasked))
  have own : .ended c.task result ∈ [] ++ all.filter Event.isOwn :=
    List.mem_filter.2 ⟨trace ▸ List.mem_of_mem_filter ended, rfl⟩
  obtain ⟨v, stepped⟩ := fresh.ended c.task result own
  exact not_yet v stepped

theorem ByItself.proceeds {b : Body} (way : ByItself c b w)
    (comes : Act.Comes (fun _ => True) c (b.step c .start) told out) : Proceeds c told out w := by
  induction way with
  | made run there mine its unstepped unasked =>
    exact run.proceeds there mine its unstepped unasked comes
  | beat _ alone ih => exact alone.proceeds ih

/-- In every run in which a task goes its way by itself: unless it is killed or turned down, it has
come to its end by the results that were to be given to it. -/
theorem ByItself.ended {b : Body} (way : ByItself c b w)
    (comes : Act.Comes (fun _ => True) c (b.step c .start) told out)
    (alive : ¬ WasKilled c.task w.server.trace) (heeded : ¬ TurnedDown c.task w.server)
    {result : Except String Value} (ended : .ended c.task result ∈ w.server.trace) :
    (heard c.task w.server.trace).map Value.shape = told ∧ result.map Value.shape = out := by
  cases way.proceeds comes with
  | killed killed => exact absurd killed alive
  | turnedDown why => exact absurd why heeded
  | stands born stands =>
    have point : .ended c.task result ∈ (w.view c.task).points :=
      List.mem_filter.2 ⟨ended, decide_eq_true rfl⟩
    have hears : heard c.task (w.view c.task).points = heard c.task w.server.trace :=
      heard_points ..
    generalize w.view c.task = v at stands point hears
    cases stands with
    | due _ _ _ left | acting _ _ left | away _ _ _ left => exact absurd point (left.unended result)
    | atEnd so_far ends => exact ⟨hears ▸ so_far, ends result point⟩

/-! ## Whole steps -/

variable {b : Body} {ids forgone : List TaskId}

theorem ByItself.run (way : ByItself c b w) (run : Run w ids forgone w')
    (unasked : w'.server.requests c.task = w.server.requests c.task) : ByItself c b w' := by
  induction run with
  | refl => exact way
  | @tail w' w'' ids forgone given run beat ih =>
    have le := Host.requests_le run.made c.task
    have le' := Host.requests_le (beat.minds c.task).made c.task
    exact (ih (by omega)).beat (.other beat (by omega))

theorem ByItself.step {caller : Caller} {act : Act}
    (way : ByItself c b ⟨s, batch, some (caller, act)⟩) (its : caller.task = c.task)
    (once : (act.run caller s).2.requests c.task ≤ s.requests c.task + 1) :
    ByItself c b ⟨(act.run caller s).2, batch, none⟩ := by
  induction act using Act.move_induct generalizing s with
  | moves act ih =>
    have first : s.requests c.task ≤ (act.move caller s).2.requests c.task :=
      Host.requests_le (move_minds c.task caller act s).made c.task
    have alone := Alone.own s batch caller act its
    rw [Act.run_eq] at once ⊢
    generalize next : act.move caller s = moved at first alone once
    obtain ⟨act' | outcome, s'⟩ := moved
    · obtain ⟨ids, run⟩ := (run_turns caller act' s' batch).run
      have rest : s'.requests c.task ≤ (act'.run caller s').2.requests c.task :=
        Host.requests_le run.made c.task
      have once : (act'.run caller s').2.requests c.task ≤ s.requests c.task + 1 := once
      exact ih caller s act' (congrArg Prod.fst next) (way.beat (alone (rest.trans once)))
        (once.trans (Nat.add_le_add_right first 1))
    · exact way.beat (alone once)

theorem ByItself.runOne {input : Input} (way : ByItself c b ⟨s, (c.task, input) :: batch, none⟩)
    (once : (s.runOne (c.task, input)).requests c.task ≤ s.requests c.task + 1) :
    ByItself c b ⟨s.runOne (c.task, input), batch, none⟩ := by
  have same : (s.pick c.task input).2.requests c.task = s.requests c.task :=
    Host.requests_same (s.pick_minds c.task c.task input).1 c.task
  have picked := way.beat (.other (.turn (.pick s batch c.task input)) same)
  have left (s : Scheduler) (outcome : StepOutcome) :
      (s.releaseOutcome outcome).requests c.task = s.requests c.task := by
    rcases outcome with (_ | v) | _ | _ <;> rfl
  rw [Scheduler.runOne, stepTask_eq] at once ⊢
  dsimp only at once ⊢
  rw [left] at once
  generalize answer : s.pick c.task input = taken at same picked once
  obtain ⟨_ | ⟨caller, act⟩, s'⟩ := taken
  · exact picked
  · have its : caller.task = c.task := pick_caller (congrArg Prod.fst answer)
    have stepped := picked.step its (once.trans (Nat.add_le_add_right same.ge 1))
    obtain ⟨ids, released⟩ := (releaseOutcome_turns _ batch (act.run caller s').1).run
    exact stepped.run released (left _ _)

theorem ByItself.runReady (way : ByItself c b (idle s)) (ready : s.ready.map Prod.fst = [c.task])
    (once : s.runReady.requests c.task ≤ s.requests c.task + 1) :
    ByItself c b (idle s.runReady) := by
  obtain ⟨⟨task, input⟩, turn, its⟩ := List.map_eq_singleton_iff.1 ready
  obtain rfl : task = c.task := its
  have taken := way.beat (.other (.turn (.takeUp s)) rfl)
  rw [Scheduler.runReady] at once ⊢
  rw [turn] at taken once ⊢
  exact taken.runOne once

end Work
end MooCore
