import MooCore.Proofs.Named
import MooCore.Proofs.Scheduler.Courses
/-!
# The docket of a server

A docket is what of a server bears on the courses of its tasks while the server is brought to an
end. It changes in few ways, and what they mean for the tasks and for what is counted is proved here
once.
-/

set_option autoImplicit false
namespace MooCore
open Background

/-- What of a server bears on the courses of its tasks: the tasks with the handles they wait for,
the turns that are taken up and those that are ready, the task that is being stepped and whether it
has been turned down, the tasks of the waiters, and the results on their way. -/
@[ext]
structure Docket where
  tasks : List (TaskId × Option Handle)
  batch : List (TaskId × Input)
  ready : List (TaskId × Input)
  free : Option TaskId
  down : Bool
  table : List TaskId
  channel : List Completion
  made : List (TaskId × Request)
  resumed : Nat
  accepting : Bool
  draining : Bool

namespace Docket

def alive (d : Docket) : List TaskId := d.tasks.map Prod.fst

def turns (d : Docket) : List (TaskId × Input) := d.batch ++ d.ready

def turnEvents (id : TaskId) : Input → List Event
  | .start => [.stepped id none]
  | .resume v => [.delivered id, .stepped id (some v)]

def without (d : Docket) (id : TaskId) : Docket :=
  { d with tasks := d.tasks.filter (·.1 ≠ id), ready := d.ready.filter (·.1 ≠ id) }

/-- The ways in which a docket changes, with what is seen of each. -/
inductive Step : Docket → List Event → Docket → Prop where
  | note (d : Docket) (e : Event) (quiet : e.isQuiet = true)
      (at_once : d.down = true → e.isKilling = true) : Step d [e] d
  | sent (d : Docket) (n : Nat) (c : Completion) (known : c.task ∈ d.table) (up : d.down = false) :
      Step d [.sent n c] { d with channel := d.channel ++ [c] }
  | unwanted (d : Docket) (n : Nat) (h : Handle) (id : TaskId) (known : id ∈ d.table)
      (gone : id ∉ d.alive) (up : d.down = false) : Step d [.discarded n h id] d
  | leave (d : Docket) (table : List TaskId) (fewer : table ⊆ d.table) : Step d [] { d with table }
  | home (d : Docket) (c : Completion) (rest : List Completion) (first : d.channel = c :: rest)
      (waits : (c.task, some c.handle) ∈ d.tasks) (up : d.down = false)
      (draining : d.draining = true) :
      Step d [.taken c]
        { d with
          tasks := d.tasks.map fun x => if x.1 = c.task then (x.1, none) else x
          ready := d.ready ++ [(c.task, .resume c.result)]
          channel := rest
          resumed := d.resumed + 1 }
  | late (d : Docket) (c : Completion) (rest : List Completion) (first : d.channel = c :: rest)
      (gone : c.task ∉ d.alive) (up : d.down = false) : Step d [.taken c] { d with channel := rest }
  | takeUp (d : Docket) (empty : d.batch = []) : Step d [] { d with batch := d.ready, ready := [] }
  | skip (d : Docket) (id : TaskId) (input : Input) (rest : List (TaskId × Input))
      (first : d.batch = (id, input) :: rest) (gone : id ∉ d.alive) :
      Step d [] { d with batch := rest }
  | pick (d : Docket) (id : TaskId) (input : Input) (rest : List (TaskId × Input))
      (first : d.batch = (id, input) :: rest) (there : id ∈ d.alive) (idle : d.free = none)
      (up : d.down = false) :
      Step d (turnEvents id input) { d with batch := rest, free := some id }
  | refused (d : Docket) (id : TaskId) (r : Request) (free : d.free = some id)
      (there : id ∈ d.alive) (up : d.down = false) :
      Step d [.refused d.made.length .shuttingDown]
        { d with down := true, made := d.made ++ [(id, r)] }
  | again (d : Docket) (id : TaskId) (v : Value) (shape : v.shape = Refusal.shuttingDown.errorMap)
      (free : d.free = some id) (there : id ∈ d.alive) (down : d.down = true) :
      Step d [.stepped id (some v)] { d with down := false }
  | gone (d : Docket) (id : TaskId) (free : d.free = some id) (gone : id ∉ d.alive) :
      Step d [] { d with free := none, down := false }
  | ended (d : Docket) (id : TaskId) (result : Except String Value) (free : d.free = some id)
      (there : id ∈ d.alive) (up : d.down = false) (no_waiter : id ∉ d.table)
      (no_result : ∀ c ∈ d.channel, c.task ≠ id) :
      Step d [.ended id result] { d.without id with free := none }
  | killed (d : Docket) (id : TaskId) (player : Obj) (there : id ∈ d.alive) :
      Step d [.killed id player] (d.without id)

inductive Runs : Docket → List Event → Docket → Prop where
  | refl (d : Docket) : Runs d [] d
  | tail {d d' d'' : Docket} {es es' : List Event} (runs : Runs d es d') (step : Step d' es' d'') :
      Runs d (es ++ es') d''

variable {d d' d'' : Docket} {es es' : List Event} {id : TaskId} {c : Course}

theorem Step.to (step : Step d es d') (same : d'' = d') : Step d es d'' := same ▸ step

theorem Step.runs (step : Step d es d') : Runs d es d' := .tail (.refl d) step

theorem Runs.trans (first : Runs d es d') (second : Runs d' es' d'') : Runs d (es ++ es') d'' := by
  induction second with
  | refl => rwa [List.append_nil]
  | tail _ step ih => exact List.append_assoc .. ▸ .tail ih step

theorem Runs.notes (d : Docket) (quiet : ∀ e ∈ es, e.isQuiet = true)
    (at_once : d.down = true → ∀ e ∈ es, e.isKilling = true) : Runs d es d := by
  induction es with
  | nil => exact .refl d
  | cons e es ih =>
    have first := Step.note d e (quiet e (List.mem_cons_self ..))
      fun down => at_once down e (List.mem_cons_self ..)
    exact first.runs.trans (ih (fun e he => quiet e (List.mem_cons_of_mem _ he))
      fun down e he => at_once down e (List.mem_cons_of_mem _ he))

/-! ## Sound dockets -/

/-- A task has at most one turn, no task has a turn while it waits, and the task that is being
stepped neither has a turn nor waits. -/
structure Sound (d : Docket) : Prop where
  distinct : d.alive.Nodup
  once : (d.turns.map Prod.fst).Nodup
  awake : ∀ x ∈ d.turns, ∀ h, (x.1, some h) ∉ d.tasks
  free : ∀ id, d.free = some id → id ∉ d.turns.map Prod.fst ∧ ∀ h, (id, some h) ∉ d.tasks

theorem mem_without {x : TaskId × Option Handle} :
    x ∈ (d.without id).tasks ↔ x ∈ d.tasks ∧ x.1 ≠ id := by
  simp [without]

theorem alive_without : (d.without id).alive = d.alive.filter (· ≠ id) := by
  rw [alive, without, alive, List.filter_map]
  rfl

theorem turns_without : (d.without id).turns.Sublist d.turns :=
  List.filter_sublist.append_left _

theorem Sound.without (sound : d.Sound) (id : TaskId) : (d.without id).Sound where
  distinct := alive_without ▸ sound.distinct.filter _
  once := sound.once.sublist (turns_without.map _)
  awake := fun x hx h mem => sound.awake x (turns_without.subset hx) h (mem_without.1 mem).1
  free := fun n mine => by
    obtain ⟨no_turn, never⟩ := sound.free n mine
    exact ⟨fun hn => no_turn ((turns_without.map _).subset hn),
      fun h mem => never h (mem_without.1 mem).1⟩

theorem still_away {tasks : List (TaskId × Option Handle)} {task : TaskId}
    {x : TaskId × Option Handle} {h : Handle} (waits : x.2 = some h)
    (mem : x ∈ tasks.map fun x => if x.1 = task then (x.1, none) else x) :
    x ∈ tasks ∧ x.1 ≠ task := by
  obtain ⟨y, hy, rfl⟩ := List.mem_map.1 mem
  by_cases its : y.1 = task
  · rw [if_pos its] at waits
    cases waits
  · rw [if_neg its]
    exact ⟨hy, its⟩

theorem home_alive (tasks : List (TaskId × Option Handle)) (task : TaskId) :
    (tasks.map fun x => if x.1 = task then (x.1, none) else x).map Prod.fst =
      tasks.map Prod.fst := by
  rw [List.map_map]
  refine List.map_congr_left fun x _ => ?_
  rw [Function.comp_apply]
  split <;> rfl

theorem Step.sound (step : Step d es d') (sound : d.Sound) : d'.Sound := by
  cases step with
  | note | sent | unwanted | leave | late | refused | again =>
    exact ⟨sound.distinct, sound.once, sound.awake, sound.free⟩
  | home c rest first waits =>
    have no_turn : c.task ∉ d.turns.map Prod.fst := fun turn => by
      obtain ⟨x, hx, same⟩ := List.mem_map.1 turn
      exact sound.awake x hx c.handle (same ▸ waits)
    have turns : d.batch ++ (d.ready ++ [(c.task, .resume c.result)]) =
        d.turns ++ [(c.task, .resume c.result)] := (List.append_assoc ..).symm
    refine ⟨?_, ?_, fun x hx h mem => ?_, fun id mine => ⟨?_, fun h mem => ?_⟩⟩
    · rw [alive, home_alive]
      exact sound.distinct
    · rw [Docket.turns, turns, List.map_append]
      exact List.nodup_append_comm.1 (List.nodup_cons.2 ⟨no_turn, sound.once⟩ :)
    · obtain ⟨old, ne⟩ := still_away rfl mem
      rw [Docket.turns, turns] at hx
      rcases List.mem_append.1 hx with there | new
      · exact sound.awake x there h old
      · exact ne (by rw [List.mem_singleton.1 new])
    · obtain ⟨none_there, never⟩ := sound.free id mine
      rw [Docket.turns, turns, List.map_append, List.mem_append]
      rintro (there | new)
      · exact none_there there
      · have same : id = c.task := List.mem_singleton.1 new
        exact never c.handle (same ▸ waits)
    · exact (sound.free id mine).2 h (still_away rfl mem).1
  | takeUp empty =>
    have turns : d.ready ++ [] = d.turns := by rw [Docket.turns, empty, List.append_nil]; rfl
    refine ⟨sound.distinct, ?_, ?_, ?_⟩
    all_goals
      dsimp only [Docket.turns]
      rw [turns]
    · exact sound.once
    · exact sound.awake
    · exact sound.free
  | skip id input rest first =>
    have fewer : (rest ++ d.ready).Sublist d.turns := by
      rw [Docket.turns, first]
      exact (List.sublist_cons_self ..).append_right _
    refine ⟨sound.distinct, sound.once.sublist (fewer.map _), fun x hx => ?_, fun n mine => ?_⟩
    · exact sound.awake x (fewer.subset hx)
    · obtain ⟨no_turn, never⟩ := sound.free n mine
      exact ⟨fun hn => no_turn ((fewer.map _).subset hn), never⟩
  | pick id input rest first =>
    have turns : d.turns = (id, input) :: (rest ++ d.ready) := by rw [Docket.turns, first]; rfl
    have once := sound.once
    rw [turns, List.map_cons, List.nodup_cons] at once
    refine ⟨sound.distinct, once.2, fun x hx => ?_, fun n mine => ?_⟩
    · exact sound.awake x (turns ▸ List.mem_cons_of_mem _ hx)
    · cases mine
      exact ⟨once.1, sound.awake (id, input) (turns ▸ List.mem_cons_self ..)⟩
  | gone => exact ⟨sound.distinct, sound.once, sound.awake, nofun⟩
  | ended id =>
    have left := sound.without id
    exact ⟨left.distinct, left.once, left.awake, nofun⟩
  | killed id => exact sound.without id

theorem Step.made (step : Step d es d') : d.made <+: d'.made := by
  cases step <;> first | exact List.prefix_refl _ | exact List.prefix_append _ _

theorem Runs.sound (runs : Runs d es d') (sound : d.Sound) : d'.Sound := by
  induction runs with
  | refl => exact sound
  | tail _ step ih => exact step.sound ih

/-! ## Where a task is on its course -/

inductive At (d : Docket) (id : TaskId) : Course → Prop where
  | due (there : (id, none) ∈ d.tasks) (turn : (id, .start) ∈ d.turns) : At d id .due
  | back (v : Value) (there : (id, none) ∈ d.tasks) (turn : (id, .resume v) ∈ d.turns) :
      At d id (.back v)
  | away (h : Handle) (there : (id, some h) ∈ d.tasks) : At d id (.away h)
  | stepping (there : id ∈ d.alive) (free : d.free = some id) (up : d.down = false) :
      At d id .stepping
  | turnedDown (there : id ∈ d.alive) (free : d.free = some id) (down : d.down = true) :
      At d id .turnedDown
  | finished (gone : id ∉ d.alive) (no_waiter : id ∉ d.table)
      (no_result : ∀ c ∈ d.channel, c.task ≠ id) : At d id .finished
  | killed (gone : id ∉ d.alive) : At d id .killed

theorem At.up (here : d.At id c) (up : d.down = false) : c ≠ .turnedDown := by
  rintro rfl
  cases here with
  | turnedDown _ _ down => exact absurd (up.symm.trans down) nofun

theorem At.there (here : d.At id c) (there : id ∈ d.alive) : c.isOver = false := by
  cases here with
  | finished gone | killed gone => exact absurd there gone
  | _ => rfl

theorem left_behind : id ∉ (d.without id).alive := by
  rw [alive_without, List.mem_filter]
  simp

/-- Nothing has happened to a task. -/
structure Passes (id : TaskId) (d d' : Docket) : Prop where
  tasks : id ∈ d.alive → ∀ h, (id, h) ∈ d.tasks → (id, h) ∈ d'.tasks := by
    exact fun _ _ mem => mem
  turns : id ∈ d.alive → ∀ input, (id, input) ∈ d.turns → (id, input) ∈ d'.turns := by
    exact fun _ _ mem => mem
  free : id ∈ d.alive → d.free = some id → d'.free = some id ∧ d'.down = d.down := by
    exact fun _ mine => ⟨mine, rfl⟩
  gone : id ∉ d.alive → id ∉ d'.alive := by
    exact fun gone => gone
  away : id ∉ d.table → (∀ c ∈ d.channel, c.task ≠ id) →
      id ∉ d'.table ∧ ∀ c ∈ d'.channel, c.task ≠ id := by
    exact fun no_waiter no_result => ⟨no_waiter, no_result⟩

theorem passes_without {task : TaskId} (ne : task ≠ id) : Passes id d (d.without task) where
  tasks := fun _ _ mem => mem_without.2 ⟨mem, Ne.symm ne⟩
  turns := fun _ input turn => by
    refine (List.mem_append.1 turn).elim (List.mem_append_left _) fun ready => ?_
    exact List.mem_append_right _ (List.mem_filter.2 ⟨ready, by simpa using Ne.symm ne⟩)
  gone := fun absent still => absent (List.mem_of_mem_filter (alive_without ▸ still))

theorem At.carry (here : d.At id c) (passes : Passes id d d') : d'.At id c := by
  have alive {h : Option Handle} (mem : (id, h) ∈ d.tasks) : id ∈ d.alive :=
    List.mem_map_of_mem mem
  have alive' (there : id ∈ d.alive) : id ∈ d'.alive := by
    obtain ⟨x, hx, rfl⟩ := List.mem_map.1 there
    exact List.mem_map_of_mem (passes.tasks there x.2 hx)
  cases here with
  | due there turn =>
    exact .due (passes.tasks (alive there) _ there) (passes.turns (alive there) _ turn)
  | back v there turn =>
    exact .back v (passes.tasks (alive there) _ there) (passes.turns (alive there) _ turn)
  | away h there => exact .away h (passes.tasks (alive there) _ there)
  | stepping there mine up =>
    obtain ⟨mine, same⟩ := passes.free there mine
    exact .stepping (alive' there) mine (same.trans up)
  | turnedDown there mine down =>
    obtain ⟨mine, same⟩ := passes.free there mine
    exact .turnedDown (alive' there) mine (same.trans down)
  | finished absent no_waiter no_result =>
    obtain ⟨no_waiter, no_result⟩ := passes.away no_waiter no_result
    exact .finished (passes.gone absent) no_waiter no_result
  | killed absent => exact .killed (passes.gone absent)

def courseOf : Input → Course
  | .start => .due
  | .resume v => .back v

theorem Sound.at_turn (sound : d.Sound) {input : Input} (turn : (id, input) ∈ d.turns)
    (there : id ∈ d.alive) (here : d.At id c) : c = courseOf input := by
  have only {other : Input} (also : (id, other) ∈ d.turns) : input = other :=
    Option.some.inj ((Named.get?_of_mem sound.once turn).symm.trans
      (Named.get?_of_mem sound.once also))
  cases here with
  | due _ first => rw [only first]; rfl
  | back v _ first => rw [only first]; rfl
  | away h waits => exact absurd waits (sound.awake _ turn h)
  | stepping _ mine | turnedDown _ mine =>
    exact absurd (List.mem_map_of_mem turn) (sound.free id mine).1
  | finished gone | killed gone => exact absurd there gone

theorem Sound.at_errand (sound : d.Sound) {h : Handle} (waits : (id, some h) ∈ d.tasks)
    (here : d.At id c) : c = .away h := by
  have only {other : Option Handle} (also : (id, other) ∈ d.tasks) : some h = other :=
    Option.some.inj ((Named.get?_of_mem sound.distinct waits).symm.trans
      (Named.get?_of_mem sound.distinct also))
  cases here with
  | due there | back _ there => exact absurd (only there) nofun
  | away h' there => rw [Option.some.inj (only there)]
  | stepping _ mine | turnedDown _ mine => exact absurd waits ((sound.free id mine).2 h)
  | finished gone | killed gone => exact absurd (List.mem_map_of_mem waits) gone

theorem Sound.at_step (sound : d.Sound) (mine : d.free = some id) (there : id ∈ d.alive)
    (here : d.At id c) : c = if d.down then .turnedDown else .stepping := by
  cases here with
  | due _ turn | back _ _ turn =>
    exact absurd (List.mem_map_of_mem turn) (sound.free id mine).1
  | away h waits => exact absurd waits ((sound.free id mine).2 h)
  | stepping _ _ up => rw [up]; rfl
  | turnedDown _ _ down => rw [down]; rfl
  | finished gone | killed gone => exact absurd there gone

/-! ## What a step means to a task -/

def GoesOn (id : TaskId) (c : Course) (es : List Event) (d' : Docket) : Prop :=
  ∃ c', d'.At id c' ∧ ∀ made, d'.made <+: made → Course.Path made id c es c'

theorem At.goesOn {c' : Course} {e : Event} (there : d'.At id c')
    (goes : ∀ made, d'.made <+: made → Course.Goes made id c e c') : GoesOn id c [e] d' :=
  ⟨c', there, fun made more => (goes made more).path⟩

theorem At.still (here : d.At id c) (passes : Passes id d d') : GoesOn id c [] d' :=
  ⟨c, here.carry passes, fun _ _ => .nil c⟩

theorem At.aside {e : Event} (here : d.At id c) (passes : Passes id d d')
    (other : ∀ made, d'.made <+: made → e.concerns made id = false)
    (at_once : c = .turnedDown → e.isKilling = true) : GoesOn id c [e] d' :=
  (here.carry passes).goesOn fun made more => .aside c e (other made more) at_once

theorem At.not_turnedDown {e : Event} (here : d.At id c) (up : d.down = false) :
    c = .turnedDown → e.isKilling = true :=
  fun down => absurd down (here.up up)

theorem At.absent (here : d.At id c) (gone : id ∉ d.alive) :
    c = .killed ∨ (id ∉ d.table ∧ ∀ r ∈ d.channel, r.task ≠ id) := by
  cases here with
  | killed => exact Or.inl rfl
  | finished _ no_waiter no_result => exact Or.inr ⟨no_waiter, no_result⟩
  | due there | back _ there | away _ there => exact absurd (List.mem_map_of_mem there) gone
  | stepping there | turnedDown there => exact absurd there gone

theorem free_ne {task : TaskId} (free : d.free = some task) (other : task ≠ id) :
    d.free ≠ some id :=
  fun also => other (Option.some.inj (free.symm.trans also))

theorem number_given {made : List (TaskId × Request)} {task : TaskId} {r : Request}
    (more : d.made ++ [(task, r)] <+: made) : made[d.made.length]?.map Prod.fst = some task := by
  obtain ⟨rest, rfl⟩ := more
  simp

theorem home_course {r : Completion} {rest : List Completion} (sound : d.Sound)
    (here : d.At id c) (first : d.channel = r :: rest) (waits : (r.task, some r.handle) ∈ d.tasks)
    (up : d.down = false) :
    GoesOn id c [.taken r]
      { d with
        tasks := d.tasks.map fun x => if x.1 = r.task then (x.1, none) else x
        ready := d.ready ++ [(r.task, .resume r.result)]
        channel := rest
        resumed := d.resumed + 1 } := by
  by_cases its : r.task = id
  · subst its
    rw [sound.at_errand waits here]
    refine At.goesOn (.back r.result ?_ ?_) fun _ _ => .taken _ _
    · refine List.mem_map.2 ⟨_, waits, ?_⟩
      rw [if_pos rfl]
    · exact List.mem_append_right _ (List.mem_append_right _ (List.mem_singleton_self _))
  · refine here.aside
      { tasks := fun _ h mem => ?_
        turns := fun _ input turn => ?_
        gone := ?_
        away := fun no_waiter no_result => ?_ }
      (fun _ _ => decide_eq_false its) (here.not_turnedDown up)
    · refine List.mem_map.2 ⟨_, mem, ?_⟩
      rw [if_neg (Ne.symm its)]
    · rw [turns, ← List.append_assoc]
      exact List.mem_append_left _ turn
    · rw [alive, alive, home_alive]
      exact fun absent => absent
    · exact ⟨no_waiter, fun r' hr' => no_result r' (first ▸ List.mem_cons_of_mem _ hr')⟩

theorem pick_course {task : TaskId} {input : Input} {rest : List (TaskId × Input)}
    (sound : d.Sound) (here : d.At id c) (first : d.batch = (task, input) :: rest)
    (there : task ∈ d.alive) (idle : d.free = none) (up : d.down = false) :
    GoesOn id c (turnEvents task input) { d with batch := rest, free := some task } := by
  have all : d.turns = (task, input) :: (rest ++ d.ready) := by rw [turns, first]; rfl
  by_cases its : task = id
  · subst its
    rw [sound.at_turn (all ▸ List.mem_cons_self ..) there here]
    refine ⟨.stepping, .stepping there rfl up, fun made _ => ?_⟩
    cases input with
    | start => exact Course.Goes.started.path
    | resume v => exact .cons (.delivered v) (Course.Goes.resumed v).path
  · have passes : Passes id d { d with batch := rest, free := some task } :=
      { turns := fun _ other turn => ?_, free := fun _ mine => ?_ }
    · refine ⟨c, here.carry passes, fun made _ => ?_⟩
      have aside (e : Event) (other : e.concerns made id = false) : Course.Path made id c [e] c :=
        (Course.Goes.aside c e other (here.not_turnedDown up)).path
      cases input with
      | start => exact aside (.stepped task none) (decide_eq_false its)
      | resume v =>
        exact .append (aside (.delivered task) (decide_eq_false its))
          (aside (.stepped task (some v)) (decide_eq_false its))
    · rw [all] at turn
      exact (List.mem_cons.1 turn).resolve_left fun same => its (Prod.mk.inj same).1.symm
    · exact absurd (idle.symm.trans mine) nofun

theorem Step.course (step : Step d es d') (sound : d.Sound) (here : d.At id c) :
    GoesOn id c es d' := by
  cases step with
  | note e quiet at_once =>
    refine here.aside {} (fun made _ => ?_) fun down => ?_
    · cases e <;> first | rfl | cases quiet
    · subst down
      cases here with
      | turnedDown _ _ down => exact at_once down
  | sent n r known up =>
    refine here.aside { away := fun no_waiter no_result => ⟨no_waiter, fun r' hr' => ?_⟩ }
      (fun _ _ => rfl) (here.not_turnedDown up)
    rcases List.mem_append.1 hr' with old | new
    · exact no_result r' old
    · rintro rfl
      exact no_waiter (List.mem_singleton.1 new ▸ known)
  | unwanted n h task known gone up =>
    by_cases its : task = id
    · subst its
      rcases here.absent gone with rfl | ⟨no_waiter, -⟩
      · exact At.goesOn (.killed gone) fun _ _ => .unwanted n h
      · exact absurd known no_waiter
    · exact here.aside {} (fun _ _ => decide_eq_false its) (here.not_turnedDown up)
  | leave table fewer =>
    refine here.still { away := fun no_waiter no_result => ⟨fun mem => ?_, no_result⟩ }
    exact no_waiter (fewer mem)
  | home r rest first waits up draining => exact home_course sound here first waits up
  | late r rest first gone up =>
    by_cases its : r.task = id
    · subst its
      rcases here.absent gone with rfl | ⟨-, no_result⟩
      · exact At.goesOn (.killed gone) fun _ _ => .late r rfl
      · exact absurd rfl (no_result r (first ▸ List.mem_cons_self ..))
    · refine here.aside { away := fun no_waiter no_result => ⟨no_waiter, fun r' hr' => ?_⟩ }
        (fun _ _ => decide_eq_false its) (here.not_turnedDown up)
      exact no_result r' (first ▸ List.mem_cons_of_mem _ hr')
  | takeUp empty =>
    refine here.still { turns := fun _ input turn => ?_ }
    rw [turns, empty] at turn
    exact List.mem_append_left _ turn
  | skip task input rest first gone =>
    refine here.still { turns := fun there other turn => ?_ }
    rw [turns, first, List.cons_append] at turn
    refine (List.mem_cons.1 turn).resolve_left fun same => ?_
    exact gone ((Prod.mk.inj same).1 ▸ there)
  | pick task input rest first there idle up => exact pick_course sound here first there idle up
  | refused task r mine there up =>
    by_cases its : task = id
    · subst its
      have stepping := sound.at_step mine there here
      rw [up] at stepping
      subst stepping
      exact At.goesOn (.turnedDown there mine rfl) fun _ more => .refused _ (number_given more)
    · refine here.aside { free := fun _ also => absurd also (free_ne mine its) }
        (fun _ more => ?_) (here.not_turnedDown up)
      rw [Event.concerns, number_given more]
      simpa using its
  | again task v shape mine there down =>
    by_cases its : task = id
    · subst its
      have turned := sound.at_step mine there here
      rw [down] at turned
      subst turned
      exact At.goesOn (.stepping there mine rfl) fun _ _ => .told v shape
    · refine here.aside { free := fun _ also => absurd also (free_ne mine its) }
        (fun _ _ => decide_eq_false its) ?_
      rintro rfl
      cases here with
      | turnedDown _ also => exact absurd also (free_ne mine its)
  | gone task mine gone =>
    refine here.still { free := fun there also => ?_ }
    exact absurd (Option.some.inj (mine.symm.trans also) ▸ there) gone
  | ended task result mine there up no_waiter no_result =>
    by_cases its : task = id
    · subst its
      have stepping := sound.at_step mine there here
      rw [up] at stepping
      subst stepping
      exact At.goesOn (.finished left_behind no_waiter no_result) fun _ _ => .ended result
    · have passes := passes_without (d := d) its
      exact here.aside { passes with free := fun _ also => absurd also (free_ne mine its) }
        (fun _ _ => decide_eq_false its) (here.not_turnedDown up)
  | killed task player there =>
    by_cases its : task = id
    · subst its
      exact At.goesOn (.killed left_behind) fun _ _ => .killed c player (here.there there)
    · exact here.aside (passes_without its) (fun _ _ => decide_eq_false its) fun _ => rfl

theorem Runs.course (runs : Runs d es d') (sound : d.Sound) (here : d.At id c) :
    GoesOn id c es d' := by
  induction runs with
  | refl => exact here.still {}
  | tail runs step ih =>
    obtain ⟨c', there, path⟩ := ih
    obtain ⟨c'', further, goes_on⟩ := step.course (runs.sound sound) there
    exact ⟨c'', further, fun made more =>
      (path made (step.made.trans more)).append (goes_on made more)⟩

/-! ## What is counted -/

theorem sents_append : sents (es ++ es') = sents es ++ sents es' := List.filterMap_append

theorem takens_append : takens (es ++ es') = takens es ++ takens es' := List.filterMap_append

/-- What is seen agrees with the docket: results are taken in the order in which they came, those
that are counted were taken for tasks that were there, every request is turned down, and none is
accepted. -/
structure Account (d : Docket) (es : List Event) (d' : Docket) : Prop where
  results : d.channel ++ sents es = takens es ++ d'.channel
  counted : es.foldl Headcount.after ⟨d.alive, d.resumed⟩ = ⟨d'.alive, d'.resumed⟩
  turned_down : ∀ n, d.made.length ≤ n → n < d'.made.length → .refused n .shuttingDown ∈ es
  none_accepted : ∀ e ∈ es, e.isAccepted = false
  accepting : d'.accepting = d.accepting
  draining : d'.draining = d.draining

theorem Account.refl (d : Docket) : Account d [] d where
  results := List.append_nil _
  counted := rfl
  turned_down := fun _ old new => absurd old new.not_ge
  none_accepted := nofun
  accepting := rfl
  draining := rfl

theorem Account.trans (first : Account d es d') (second : Account d' es' d'') :
    Account d (es ++ es') d'' where
  results := by
    rw [sents_append, takens_append, ← List.append_assoc, first.results, List.append_assoc,
      second.results, List.append_assoc]
  counted := by rw [List.foldl_append, first.counted, second.counted]
  turned_down := fun n old new => by
    rcases Nat.lt_or_ge n d'.made.length with before | after
    · exact List.mem_append_left _ (first.turned_down n old before)
    · exact List.mem_append_right _ (second.turned_down n after new)
  none_accepted := fun e he =>
    (List.mem_append.1 he).elim (first.none_accepted e) (second.none_accepted e)
  accepting := second.accepting.trans first.accepting
  draining := second.draining.trans first.draining

theorem Account.of_same (made : d'.made = d.made) (none_accepted : ∀ e ∈ es, e.isAccepted = false)
    (accepting : d'.accepting = d.accepting) (draining : d'.draining = d.draining)
    (results : d.channel ++ sents es = takens es ++ d'.channel)
    (counted : es.foldl Headcount.after ⟨d.alive, d.resumed⟩ = ⟨d'.alive, d'.resumed⟩) :
    Account d es d' :=
  ⟨results, counted, fun _ old new => absurd old (made ▸ new).not_ge, none_accepted, accepting,
    draining⟩

theorem Step.account (step : Step d es d') : Account d es d' := by
  cases step with
  | note e quiet =>
    cases e with
    | returned | silenced | cleaned | remark | answered | replied | told =>
      exact .of_same rfl (by simp [Event.isAccepted]) rfl rfl (List.append_nil _) rfl
    | _ => cases quiet
  | sent n r => exact .of_same rfl (by simp [Event.isAccepted]) rfl rfl rfl rfl
  | unwanted n h task =>
    exact .of_same rfl (by simp [Event.isAccepted]) rfl rfl (List.append_nil _) rfl
  | leave | takeUp | skip | gone => exact .of_same rfl nofun rfl rfl (List.append_nil _) rfl
  | home r rest first waits =>
    have there : r.task ∈ d.alive := List.mem_map_of_mem waits
    refine .of_same rfl (by simp [Event.isAccepted]) rfl rfl ?_ ?_
    · exact (List.append_nil _).trans first
    · simp only [List.foldl, Headcount.after]
      rw [if_pos there, alive, alive, home_alive]
  | late r rest first gone =>
    refine .of_same rfl (by simp [Event.isAccepted]) rfl rfl ?_ ?_
    · exact (List.append_nil _).trans first
    · simp only [List.foldl, Headcount.after, if_neg gone, Nat.add_zero]
      rfl
  | pick task input =>
    cases input <;>
      exact .of_same rfl (by simp [turnEvents, Event.isAccepted]) rfl rfl (List.append_nil _) rfl
  | again task v =>
    exact .of_same rfl (by simp [Event.isAccepted]) rfl rfl (List.append_nil _) rfl
  | refused task r =>
    refine ⟨List.append_nil _, rfl, fun n old new => ?_, by simp [Event.isAccepted], rfl, rfl⟩
    rw [List.length_append, List.length_singleton] at new
    have same : n = d.made.length := by omega
    exact same ▸ List.mem_singleton_self _
  | ended task result =>
    refine .of_same rfl (by simp [Event.isAccepted]) rfl rfl (List.append_nil _) ?_
    simp only [List.foldl, Headcount.after, ← alive_without]
    rfl
  | killed task player =>
    refine .of_same rfl (by simp [Event.isAccepted]) rfl rfl (List.append_nil _) ?_
    simp only [List.foldl, Headcount.after, ← alive_without]
    rfl

theorem Runs.account (runs : Runs d es d') : Account d es d' := by
  induction runs with
  | refl => exact .refl d
  | tail _ step ih => exact ih.trans step.account

/-! ## When everybody is back -/

theorem Step.table (step : Step d es d') : d'.table ⊆ d.table := by
  cases step with
  | leave table fewer => exact fewer
  | _ => exact List.Subset.refl _

theorem Runs.table (runs : Runs d es d') : d'.table ⊆ d.table := by
  induction runs with
  | refl => exact List.Subset.refl _
  | tail _ step ih => exact List.Subset.trans step.table ih

/-- Nobody is away any more, and no result is on its way. -/
structure Settled (d : Docket) : Prop where
  table : d.table = []
  channel : d.channel = []

theorem Step.settled (step : Step d es d') (settled : d.Settled) :
    d'.Settled ∧ d'.ready ⊆ d.ready := by
  obtain ⟨table, channel⟩ := settled
  cases step with
  | sent n r known => exact absurd (table ▸ known) List.not_mem_nil
  | home r rest first | late r rest first => exact absurd (channel.symm.trans first) nofun
  | leave table' fewer =>
    exact ⟨⟨List.eq_nil_of_subset_nil (table ▸ fewer), channel⟩, List.Subset.refl _⟩
  | takeUp => exact ⟨⟨table, channel⟩, List.nil_subset _⟩
  | ended | killed => exact ⟨⟨table, channel⟩, List.filter_subset_self _⟩
  | note | unwanted | skip | pick | refused | again | gone =>
    exact ⟨⟨table, channel⟩, List.Subset.refl _⟩

theorem Runs.settled (runs : Runs d es d') (settled : d.Settled) :
    d'.Settled ∧ d'.ready ⊆ d.ready := by
  induction runs with
  | refl => exact ⟨settled, List.Subset.refl _⟩
  | tail _ step ih =>
    obtain ⟨further, fewer⟩ := step.settled ih.1
    exact ⟨further, List.Subset.trans fewer ih.2⟩

end Docket
end MooCore
