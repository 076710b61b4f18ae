import MooCore.Event
import MooCore.Task.Body
/-!
# Courses of tasks

A server that is brought to an end takes on no more work, and each of its tasks goes a course of its
own until it ends or is killed. The events that are about a task tell how far it has come.
-/

set_option autoImplicit false
namespace MooCore
open Background

/-! ## Events -/

def Event.sent? : Event → Option Completion
  | .sent _ c => some c
  | _ => none

def Event.taken? : Event → Option Completion
  | .taken c => some c
  | _ => none

def Event.isAccepted : Event → Bool
  | .accepted .. => true
  | _ => false

def Event.isKilling : Event → Bool
  | .killed .. | .silenced _ | .answered .. => true
  | _ => false

def Event.isQuiet : Event → Bool
  | .returned .. | .silenced _ | .cleaned .. | .remark _ | .answered .. | .replied ..
  | .told .. => true
  | _ => false

def Event.isDelivery (id : TaskId) : Event → Bool
  | .delivered task => task = id
  | _ => false

/-- Whether an event is about a task. A refusal is about the task that made the request, which is
known by its number. -/
def Event.concerns (made : List (TaskId × Request)) (id : TaskId) : Event → Bool
  | .created task _ _ | .stepped task _ | .reentered task | .delivered task | .ended task _
  | .killed task _ | .accepted _ _ task | .discarded _ _ task | .lost _ _ task
  | .vanished _ _ task | .stray _ task => task = id
  | .taken c => c.task = id
  | .refused n _ => made[n]?.map Prod.fst = some id
  | _ => false

def sents (es : List Event) : List Completion := es.filterMap Event.sent?

/-- The results that were taken out of the channel. -/
def takens (es : List Event) : List Completion := es.filterMap Event.taken?

theorem mem_takens {es : List Event} {c : Completion} : c ∈ takens es ↔ .taken c ∈ es := by
  rw [takens, List.mem_filterMap]
  refine ⟨fun ⟨e, he, is⟩ => ?_, fun mem => ⟨_, mem, rfl⟩⟩
  cases e <;> cases is
  exact he

/-- The tasks that are there, and how many results were taken for tasks that were. -/
structure Headcount where
  alive : List TaskId
  returned : Nat

def Headcount.after (n : Headcount) : Event → Headcount
  | .taken c => { n with returned := n.returned + if c.task ∈ n.alive then 1 else 0 }
  | .killed id _ | .ended id _ => { n with alive := n.alive.filter (· ≠ id) }
  | _ => n

/-- A task was killed. -/
def WasKilled (id : TaskId) (es : List Event) : Prop := ∃ player, .killed id player ∈ es

theorem WasKilled.append_left {id : TaskId} {es : List Event} (killed : WasKilled id es)
    (before : List Event) : WasKilled id (before ++ es) :=
  killed.imp fun _ => List.mem_append_right _

theorem WasKilled.append_right {id : TaskId} {es : List Event} (killed : WasKilled id es)
    (after : List Event) : WasKilled id (es ++ after) :=
  killed.imp fun _ => List.mem_append_left _

theorem WasKilled.cons {id : TaskId} {es : List Event} (killed : WasKilled id es) (e : Event) :
    WasKilled id (e :: es) :=
  killed.append_left [e]

/-! ## Courses -/

/-- How far a task has come. -/
inductive Course where
  /-- it is to take its first step -/
  | due
  /-- it waits for what is done behind a handle -/
  | away (h : Handle)
  /-- its result was taken out of the channel -/
  | back (v : Value)
  /-- its result was handed to it -/
  | handed (v : Value)
  | stepping
  /-- it is being stepped, and its request was turned down -/
  | turnedDown
  /-- it completed or gave up -/
  | finished
  | killed

namespace Course

def isOver : Course → Bool
  | finished | killed => true
  | _ => false

/-- What may happen to a task that goes its course. A request is turned down because the server is
shutting down, and then nothing but kills can happen before the task is told. Results are thrown
away only if their task was killed. -/
inductive Goes (made : List (TaskId × Request)) (id : TaskId) : Course → Event → Course → Prop where
  | started : Goes made id due (.stepped id none) stepping
  | taken (h : Handle) (v : Value) :
      Goes made id (away h) (.taken { handle := h, task := id, result := v }) (back v)
  | delivered (v : Value) : Goes made id (back v) (.delivered id) (handed v)
  | resumed (v : Value) : Goes made id (handed v) (.stepped id (some v)) stepping
  | refused (n : Nat) (asked : made[n]?.map Prod.fst = some id) :
      Goes made id stepping (.refused n .shuttingDown) turnedDown
  | told (v : Value) (shape : v.shape = Refusal.shuttingDown.errorMap) :
      Goes made id turnedDown (.stepped id (some v)) stepping
  | ended (result : Except String Value) : Goes made id stepping (.ended id result) finished
  | killed (c : Course) (player : Obj) (alive : c.isOver = false) :
      Goes made id c (.killed id player) killed
  | late (c : Completion) (its : c.task = id) : Goes made id killed (.taken c) killed
  | unwanted (n : Nat) (h : Handle) : Goes made id killed (.discarded n h id) killed
  | aside (c : Course) (e : Event) (other : e.concerns made id = false)
      (at_once : c = turnedDown → e.isKilling = true) : Goes made id c e c

/-- The course of a task while events happen one after another. -/
inductive Path (made : List (TaskId × Request)) (id : TaskId) :
    Course → List Event → Course → Prop where
  | nil (c : Course) : Path made id c [] c
  | cons {c c' c'' : Course} {e : Event} {es : List Event} (first : Goes made id c e c')
      (rest : Path made id c' es c'') : Path made id c (e :: es) c''

variable {made : List (TaskId × Request)} {id : TaskId} {c c' c'' : Course} {e : Event}
  {es es' : List Event}

theorem Path.append (first : Path made id c es c') (second : Path made id c' es' c'') :
    Path made id c (es ++ es') c'' := by
  induction first with
  | nil c => exact second
  | cons goes _ ih => exact .cons goes (ih second)

theorem Goes.path (goes : Goes made id c e c') : Path made id c [e] c' := .cons goes (.nil c')

theorem Path.split (path : Path made id c (es ++ e :: es') c'') :
    ∃ c₁ c₂, Path made id c es c₁ ∧ Goes made id c₁ e c₂ ∧ Path made id c₂ es' c'' := by
  induction es generalizing c with
  | nil =>
    cases path with
    | cons first rest => exact ⟨c, _, .nil c, first, rest⟩
  | cons x es ih =>
    cases path with
    | cons first rest =>
      obtain ⟨c₁, c₂, before, goes, after⟩ := ih rest
      exact ⟨c₁, c₂, .cons first before, goes, after⟩

/-! ## What courses come to -/

theorem Path.ending (path : Path made id c es c') (alive : c.isOver = false)
    (no_more : c'.isOver = true) : (∃ result, .ended id result ∈ es) ∨ WasKilled id es := by
  induction path with
  | nil c => exact absurd (alive.symm.trans no_more) nofun
  | @cons c c' _ e es first _ ih =>
    cases first with
    | ended result => exact Or.inl ⟨result, List.mem_cons_self ..⟩
    | killed _ player => exact Or.inr ⟨player, List.mem_cons_self ..⟩
    | late | unwanted => cases alive
    | started | taken | delivered | resumed | refused | told | aside =>
      exact (ih (by first | rfl | exact alive) no_more).imp
        (fun ⟨result, mem⟩ => ⟨result, List.mem_cons_of_mem _ mem⟩) (·.cons _)

theorem Path.from_finished (path : Path made id finished es c) : c = finished := by
  induction es with
  | nil => cases path; rfl
  | cons e es ih =>
    cases path with
    | cons first rest =>
      cases first with
      | killed _ _ alive => cases alive
      | aside => exact ih rest

theorem Path.was_killed (path : Path made id c es killed) (alive : c.isOver = false) :
    WasKilled id es := by
  rcases path.ending alive rfl with ⟨result, mem⟩ | was_killed
  · obtain ⟨before, after, rfl⟩ := List.append_of_mem mem
    obtain ⟨c₁, c₂, first, goes, rest⟩ := path.split
    cases goes with
    | ended => exact absurd rest.from_finished nofun
    | aside _ _ other => simp [Event.concerns] at other
  · exact was_killed

theorem Path.thrown_away {n : Nat} {h : Handle} (path : Path made id c es c')
    (alive : c.isOver = false) (thrown : .discarded n h id ∈ es) : WasKilled id es := by
  obtain ⟨before, after, rfl⟩ := List.append_of_mem thrown
  obtain ⟨c₁, c₂, first, goes, -⟩ := path.split
  cases goes with
  | unwanted => exact (first.was_killed alive).append_right _
  | aside _ _ other => simp [Event.concerns] at other

def dues (id : TaskId) : Course → List Event
  | back v => [.delivered id, .stepped id (some v)]
  | handed v => [.stepped id (some v)]
  | _ => []

theorem Path.dues (path : Path made id c es c') (no_more : c'.isOver = true) :
    WasKilled id es ∨ (c.dues id).Sublist es := by
  induction path with
  | nil c =>
    cases c with
    | finished | killed => exact Or.inr (List.nil_sublist _)
    | _ => cases no_more
  | @cons c c' _ e es first _ ih =>
    have rest := ih no_more
    cases first with
    | killed _ player => exact Or.inl ⟨player, List.mem_cons_self ..⟩
    | delivered | resumed => exact rest.imp (·.cons _) (·.cons_cons _)
    | aside => exact rest.imp (·.cons _) (·.cons _)
    | _ => exact Or.inr (List.nil_sublist _)

theorem Path.from_away {h : Handle} (path : Path made id (away h) es c')
    (no_more : c'.isOver = true) :
    WasKilled id es ∨
      ∃ v, [.taken ⟨h, id, v⟩, .delivered id, .stepped id (some v)].Sublist es := by
  induction es with
  | nil => cases path; cases no_more
  | cons e es ih =>
    cases path with
    | cons first rest =>
      cases first with
      | taken _ v => exact (rest.dues no_more).imp (·.cons _) fun given => ⟨v, given.cons_cons _⟩
      | killed _ player => exact Or.inl ⟨player, List.mem_cons_self ..⟩
      | aside => exact (ih rest).imp (·.cons _) fun ⟨v, given⟩ => ⟨v, given.cons _⟩

/-- How many results a task is still to get. -/
def owed : Course → Nat
  | away _ | back _ => 1
  | _ => 0

theorem Path.deliveries (path : Path made id c es c') :
    es.countP (·.isDelivery id) + c'.owed ≤ c.owed := by
  induction path with
  | nil c => simp
  | @cons c c' c'' e es first _ ih =>
    have once : (if e.isDelivery id then 1 else 0) + c'.owed ≤ c.owed := by
      cases first with
      | aside c e other =>
        cases e with
        | delivered task => simp_all [Event.isDelivery, Event.concerns]
        | _ => simp [Event.isDelivery]
      | _ => simp [Event.isDelivery, owed]
    rw [List.countP_cons]
    omega

theorem owed_le (c : Course) : c.owed ≤ 1 := by
  cases c <;> simp [owed]

theorem Path.delivered_once (path : Path made id c es c') (there : .delivered id ∈ es) :
    es.countP (·.isDelivery id) = 1 := by
  have some_there : 0 < es.countP (·.isDelivery id) :=
    List.countP_pos_iff.2 ⟨_, there, by simp [Event.isDelivery]⟩
  have at_most := path.deliveries
  have one := c.owed_le
  omega

/-- A result that was taken while its task was there is given to the task just once, and the task is
stepped with it, unless the task is killed. -/
theorem Path.result {r : Completion} (path : Path made r.task c es c') (alive : c.isOver = false)
    (no_more : c'.isOver = true) (taken : .taken r ∈ es) :
    WasKilled r.task es ∨
      ([.taken r, .delivered r.task, .stepped r.task (some r.result)].Sublist es ∧
        es.countP (·.isDelivery r.task) = 1) := by
  obtain ⟨before, after, rfl⟩ := List.append_of_mem taken
  obtain ⟨c₁, c₂, first, goes, rest⟩ := path.split
  obtain ⟨h, id, v⟩ := r
  cases goes with
  | taken =>
    refine (rest.dues no_more).imp (fun killed => (killed.cons _).append_left _) fun given => ?_
    have whole := (given.cons_cons (.taken ⟨h, id, v⟩)).trans (List.sublist_append_right before _)
    have there := whole.subset (List.mem_cons_of_mem _ (List.mem_cons_self ..))
    exact ⟨whole, path.delivered_once there⟩
  | late => exact Or.inl ((first.was_killed alive).append_right _)
  | aside _ _ other => simp [Event.concerns] at other

end Course

end MooCore
