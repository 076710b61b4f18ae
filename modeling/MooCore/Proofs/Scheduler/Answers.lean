import MooCore.Proofs.Scheduler.Beats
import MooCore.Proofs.Scheduler.Results
import MooCore.Trace
/-!
# Who ended, and who was told

Every task that was made has ended, once, or is in the table. Who asked how a task ends is told so
once, when it ends; when the server shuts down, the tasks that are left are given up and those who
asked are told so.
-/

set_option autoImplicit false
namespace MooCore
open Background

def Event.created? : Event → Option TaskId
  | .created id .. => some id
  | _ => none

/-- The end of a task, by itself or by a kill, as those who asked are to be told of it. -/
def Event.ending? : Event → Option (TaskId × TaskAnswer)
  | .ended id result => some (id, answerOf result)
  | .killed id _ => some (id, .error .cancelled)
  | _ => none

namespace Trace

def creations (es : List Event) : List TaskId := es.filterMap Event.created?

def endings (es : List Event) : List (TaskId × TaskAnswer) := es.filterMap Event.ending?

@[simp] theorem creations_cons (e : Event) (es : List Event) :
    creations (e :: es) = e.created?.toList ++ creations es := Event.filterMap_cons _ e es

@[simp] theorem endings_cons (e : Event) (es : List Event) :
    endings (e :: es) = e.ending?.toList ++ endings es := Event.filterMap_cons _ e es

@[simp] theorem creations_nil : creations [] = [] := rfl

@[simp] theorem endings_nil : endings [] = [] := rfl

theorem creations_append (es es' : List Event) :
    creations (es ++ es') = creations es ++ creations es' := List.filterMap_append

theorem endings_append (es es' : List Event) : endings (es ++ es') = endings es ++ endings es' :=
  List.filterMap_append

theorem answers_append (es es' : List Event) : answers (es ++ es') = answers es ++ answers es' :=
  List.filterMap_append

theorem creations_own (es : List Event) : creations (es.filter Event.isOwn) = creations es :=
  Event.filterMap_own (fun e other => by cases e <;> first | rfl | cases other) es

theorem endings_own (es : List Event) : endings (es.filter Event.isOwn) = endings es :=
  Event.filterMap_own (fun e other => by cases e <;> first | rfl | cases other) es

theorem answers_own (es : List Event) : answers (es.filter Event.isOwn) = answers es :=
  Event.filterMap_own (fun e other => by cases e <;> first | rfl | cases other) es

/-- An end that a value came of. -/
def succeeded : TaskId × TaskAnswer → Bool
  | (_, .ok _) => true
  | (_, .error _) => false

def failedWith (fault : TaskFault) : TaskId × TaskAnswer → Bool
  | (_, .error f) => f = fault
  | (_, .ok _) => false

theorem endings_length (es : List Event) :
    (endings es).length = (endings es).countP succeeded +
      (endings es).countP (failedWith .aborted) + (endings es).countP (failedWith .cancelled) := by
  induction es with
  | nil => rfl
  | cons e es ih =>
    cases e with
    | ended id result =>
      cases result <;> simp [Event.ending?, answerOf, List.countP_cons, succeeded, failedWith] <;>
        omega
    | killed id player =>
      simp [Event.ending?, succeeded, failedWith]
      omega
    | _ => simpa [Event.ending?] using ih

end Trace

namespace Register
open Trace

variable {r r' : Register} {es all : List Event} {id : TaskId} {t : Task}
  {left : Named TaskId Task} {handles : Named TaskId (Option TaskAnswer)}

/-! ## Those who asked -/

theorem told_or_not (handles : Named TaskId (Option TaskAnswer)) (id : TaskId) (t : Task)
    (a : TaskAnswer) :
    (told handles id t a = [.answered id a] ∧ settled handles id t a = handles.set id (some a)) ∨
      (told handles id t a = [] ∧ settled handles id t a = handles ∧
        (t.answerable = true → handles.get? id = none)) := by
  unfold told settled
  rw [Named.has_eq]
  cases t.answerable with
  | false => exact Or.inr ⟨rfl, rfl, nofun⟩
  | true =>
    cases held : handles.get? id with
    | none => exact Or.inr ⟨rfl, rfl, fun _ => rfl⟩
    | some _ => exact Or.inl ⟨rfl, rfl⟩

theorem told_endings (handles : Named TaskId (Option TaskAnswer)) (id : TaskId) (t : Task)
    (a : TaskAnswer) :
    creations (told handles id t a) = [] ∧ endings (told handles id t a) = [] := by
  unfold told
  split <;> exact ⟨rfl, rfl⟩

theorem told_answers {a : TaskAnswer} {x : TaskId × TaskAnswer}
    (mem : x ∈ answers (told handles id t a)) : x = (id, a) := by
  unfold told at mem
  split at mem
  · exact List.mem_singleton.1 mem
  · cases mem

theorem told_once (handles : Named TaskId (Option TaskAnswer)) (id : TaskId) (t : Task)
    (a : TaskAnswer) : ((answers (told handles id t a)).map Prod.fst).Nodup := by
  unfold told
  split
  · exact List.nodup_singleton id
  · exact List.nodup_nil

theorem settled_held (handles : Named TaskId (Option TaskAnswer)) (id : TaskId) (t : Task)
    (a : TaskAnswer) {other : TaskId} (held : (handles.get? other).isSome = true) :
    ((settled handles id t a).get? other).isSome = true := by
  obtain ⟨-, new⟩ | ⟨-, same, -⟩ := told_or_not handles id t a
  · rw [new, Named.get?_set]
    split
    · rfl
    · exact held
  · rwa [same]

/-- Where `left` are the tasks that have not ended: nobody was told of the end of one of them, and
nobody was told twice. A handle without an answer is that of a task that is left. -/
structure Heard (left : Named TaskId Task) (handles : Named TaskId (Option TaskAnswer))
    (all : List Event) : Prop where
  distinct : (left.map Prod.fst).Nodup
  held : (handles.map Prod.fst).Nodup
  once : ((answers all).map Prod.fst).Nodup
  untold : ∀ id ∈ left.map Prod.fst, id ∉ (answers all).map Prod.fst
  waits : ∀ id, handles.get? id = some none → ∃ t, left.get? id = some t ∧ t.answerable = true
  heard : ∀ id a, handles.get? id = some (some a) → (id, a) ∈ answers all

theorem of_settled (heard : Heard left handles all) {a : TaskAnswer} {other : TaskId}
    {b : Option TaskAnswer} (there : left.get? id = some t)
    (found : (settled handles id t a).get? other = some b) :
    (handles.get? other = some b ∧ (b = none → other ≠ id)) ∨
      (other = id ∧ b = some a ∧ (id, a) ∈ answers (told handles id t a)) := by
  obtain ⟨told, new⟩ | ⟨-, same, unheld⟩ := told_or_not handles id t a
  · rw [new, Named.get?_set] at found
    split at found
    · rename_i its
      exact Or.inr ⟨its, (Option.some.inj found).symm, told ▸ List.mem_singleton.2 rfl⟩
    · rename_i ne
      exact Or.inl ⟨found, fun _ => ne⟩
  · rw [same] at found
    refine Or.inl ⟨found, ?_⟩
    rintro rfl rfl
    -- who waits for the end of this task asked for it, so it was told
    obtain ⟨t', its, answerable⟩ := heard.waits other found
    have mine : t' = t := Option.some.inj (its.symm.trans there)
    exact nomatch (unheld (mine ▸ answerable)).symm.trans found

/-- A task leaves, and who asked for it is told. -/
theorem Heard.leaves (heard : Heard left handles all) {a : TaskAnswer}
    (there : left.get? id = some t) (seen : answers es = answers (told handles id t a)) :
    Heard (left.erase id) (settled handles id t a) (all ++ es) := by
  have keys : ∀ other ∈ (left.erase id).map Prod.fst, other ≠ id ∧ other ∈ left.map Prod.fst := by
    intro other its
    have parted := (Named.erase_keys_perm there).nodup_iff.2 heard.distinct
    refine ⟨fun same => (List.nodup_cons.1 parted).1 (same ▸ its), ?_⟩
    exact (Named.erase_keys_perm there).subset (List.mem_cons_of_mem _ its)
  have new : ∀ x ∈ answers es, x = (id, a) := fun x its => told_answers (seen ▸ its)
  have untold : id ∉ (answers all).map Prod.fst :=
    heard.untold id (List.mem_map_of_mem (f := Prod.fst) (Named.mem_of_get? there))
  constructor
  case distinct => exact Named.erase_distinct heard.distinct id
  case held =>
    unfold settled
    split
    · exact Named.set_distinct heard.held id (some a)
    · exact heard.held
  case once =>
    rw [answers_append, List.map_append]
    refine heard.once.append (seen ▸ told_once handles id t a) fun other old now => ?_
    obtain ⟨x, its, rfl⟩ := List.mem_map.1 now
    have mine : x.1 = id := congrArg Prod.fst (new x its)
    exact untold (mine ▸ old)
  case untold =>
    intro other its told
    rw [answers_append, List.map_append, List.mem_append] at told
    obtain old | now := told
    · exact heard.untold other (keys other its).2 old
    · obtain ⟨x, mem, rfl⟩ := List.mem_map.1 now
      exact (keys _ its).1 (congrArg Prod.fst (new x mem))
  case waits =>
    intro other asks
    obtain ⟨old, ne⟩ | ⟨-, some, -⟩ := of_settled heard there asks
    · obtain ⟨t', its, answerable⟩ := heard.waits other old
      exact ⟨t', (Named.get?_erase_ne left (ne rfl)).trans its, answerable⟩
    · cases some
  case heard =>
    intro other b knows
    rw [answers_append, List.mem_append]
    obtain ⟨old, -⟩ | ⟨rfl, same, told⟩ := of_settled heard there knows
    · exact Or.inl (heard.heard other b old)
    · exact Or.inr (seen ▸ Option.some.inj same ▸ told)

theorem Heard.stays (heard : Heard left handles all) {left' : Named TaskId Task}
    {handles' : Named TaskId (Option TaskAnswer)} (quiet : answers es = [])
    (keys : left'.map Prod.fst = left.map Prod.fst)
    (same : ∀ id t, left.get? id = some t →
      ∃ t', left'.get? id = some t' ∧ t'.answerable = t.answerable)
    (distinct : (handles'.map Prod.fst).Nodup)
    (held : ∀ id a, handles'.get? id = some a → handles.get? id = some a) :
    Heard left' handles' (all ++ es) := by
  have seen : answers (all ++ es) = answers all := by
    rw [answers_append, quiet, List.append_nil]
  constructor
  case distinct => exact keys ▸ heard.distinct
  case held => exact distinct
  case once => exact seen ▸ heard.once
  case untold => exact fun id its => seen ▸ heard.untold id (keys ▸ its)
  case waits =>
    intro id asks
    obtain ⟨t, its, answerable⟩ := heard.waits id (held id none asks)
    obtain ⟨t', its', also⟩ := same id t its
    exact ⟨t', its', also.trans answerable⟩
  case heard => exact fun id a knows => seen ▸ heard.heard id a (held id (some a) knows)

/-! ## The books -/

structure Counted (c : Counts) (all : List Event) : Prop where
  started : c.started = (creations all).length
  completed : c.completed = (endings all).countP succeeded
  aborted : c.aborted = (endings all).countP (failedWith .aborted)
  killed : c.killed = (endings all).countP (failedWith .cancelled)

/-- Every task that was made has ended or is in the table, and not both. -/
structure Accounted (r : Register) (all : List Event) : Prop where
  counted : Counted r.counts all
  given : ∀ id ∈ creations all, id ≤ r.last
  once : (creations all).Nodup
  parted : (creations all).Perm ((endings all).map Prod.fst ++ r.tasks.map Prod.fst)
  heard : Heard r.tasks r.handles all
  fitting : ∀ x ∈ answers all, x ∈ endings all

theorem Accounted.ends_once (acc : r.Accounted all) :
    ((endings all).map Prod.fst ++ r.tasks.map Prod.fst).Nodup := acc.parted.nodup_iff.1 acc.once

/-- A new task is made, and maybe somebody asks for it. -/
theorem Accounted.admitted (acc : r.Accounted all) (tasks : r'.tasks = r.tasks.set (r.last + 1) t)
    (last : r'.last = r.last + 1)
    (counts : r'.counts = { r.counts with started := r.counts.started + 1 })
    (handles : r'.handles = r.handles ∨
      r'.handles = r.handles.set (r.last + 1) none ∧ t.answerable = true)
    (made : creations es = [r.last + 1]) (quiet : endings es = [] ∧ answers es = []) :
    r'.Accounted (all ++ es) := by
  have created : creations (all ++ es) = creations all ++ [r.last + 1] := by
    rw [creations_append, made]
  have ended : endings (all ++ es) = endings all := by
    rw [endings_append, quiet.1, List.append_nil]
  have told : answers (all ++ es) = answers all := by
    rw [answers_append, quiet.2, List.append_nil]
  have known : ∀ id ∈ r.tasks.map Prod.fst, id ≤ r.last := fun id its =>
    acc.given id (acc.parted.mem_iff.2 (List.mem_append_right _ its))
  have fresh : r.last + 1 ∉ r.tasks.map Prod.fst := fun its =>
    Nat.not_succ_le_self _ (known _ its)
  have keys : r'.tasks.map Prod.fst = r.tasks.map Prod.fst ++ [r.last + 1] := by
    rw [tasks, Named.set_of_unused fresh, List.map_append]
    rfl
  constructor
  case counted =>
    obtain ⟨started, completed, aborted, killed⟩ := acc.counted
    rw [counts]
    exact ⟨by rw [created, List.length_append, ← started]; rfl, ended ▸ completed,
      ended ▸ aborted, ended ▸ killed⟩
  case given =>
    intro id its
    rw [created, List.mem_append, List.mem_singleton] at its
    rw [last]
    exact its.elim (fun old => Nat.le_succ_of_le (acc.given id old)) Nat.le_of_eq
  case once =>
    rw [created, List.nodup_append_comm]
    exact List.nodup_cons.2 ⟨fun its => Nat.not_succ_le_self _ (acc.given _ its), acc.once⟩
  case parted =>
    rw [created, ended, keys, ← List.append_assoc]
    exact acc.parted.append_right _
  case fitting => exact fun x its => ended ▸ acc.fitting x (told ▸ its)
  case heard =>
    have others : ∀ id t', r.tasks.get? id = some t' → r'.tasks.get? id = some t' := by
      intro id t' its
      have ne : id ≠ r.last + 1 := fun same =>
        fresh (same ▸ List.mem_map_of_mem (f := Prod.fst) (Named.mem_of_get? its))
      rw [tasks, Named.get?_set, if_neg ne, its]
    -- who was told of a task was told of its end, and a task that ended was made before
    have untold : r.last + 1 ∉ (answers all).map Prod.fst := by
      intro its
      obtain ⟨x, mem, same⟩ := List.mem_map.1 its
      have made := acc.parted.mem_iff.2
        (List.mem_append_left _ (List.mem_map_of_mem (f := Prod.fst) (acc.fitting x mem)))
      exact Nat.not_succ_le_self _ (same ▸ acc.given _ made)
    have heard := acc.heard
    constructor
    case distinct => exact tasks ▸ Named.set_distinct heard.distinct _ t
    case held =>
      obtain same | ⟨new, -⟩ := handles
      · exact same ▸ heard.held
      · exact new ▸ Named.set_distinct heard.held _ none
    case once => exact told ▸ heard.once
    case untold =>
      intro id its
      rw [keys, List.mem_append, List.mem_singleton] at its
      rw [told]
      exact its.elim (heard.untold id) fun same => same ▸ untold
    case waits =>
      intro id asks
      have old (asks : r.handles.get? id = some none) :
          ∃ t', r'.tasks.get? id = some t' ∧ t'.answerable = true := by
        obtain ⟨t', its, answerable⟩ := heard.waits id asks
        exact ⟨t', others id t' its, answerable⟩
      obtain same | ⟨new, answerable⟩ := handles
      · exact old (same ▸ asks)
      · rw [new, Named.get?_set] at asks
        split at asks
        · rename_i same
          exact ⟨t, by rw [tasks, Named.get?_set, if_pos same], answerable⟩
        · exact old asks
    case heard =>
      intro id a knows
      rw [told]
      obtain same | ⟨new, -⟩ := handles
      · exact heard.heard id a (same ▸ knows)
      · rw [new, Named.get?_set] at knows
        split at knows
        · cases knows
        · exact heard.heard id a knows

theorem Accounted.removed (acc : r.Accounted all) {a : TaskAnswer}
    (there : r.tasks.get? id = some t) (tasks : r'.tasks = r.tasks.erase id)
    (last : r'.last = r.last) (handles : r'.handles = settled r.handles id t a)
    (counted : Counted r'.counts (all ++ es)) (made : creations es = [])
    (ended : endings es = [(id, a)]) (seen : answers es = answers (told r.handles id t a)) :
    r'.Accounted (all ++ es) := by
  have created : creations (all ++ es) = creations all := by
    rw [creations_append, made, List.append_nil]
  have ended : endings (all ++ es) = endings all ++ [(id, a)] := by rw [endings_append, ended]
  constructor
  case counted => exact counted
  case given => exact fun other its => last ▸ acc.given other (created ▸ its)
  case once => exact created ▸ acc.once
  case parted =>
    rw [created, ended, tasks, List.map_append, List.append_assoc]
    exact acc.parted.trans ((Named.erase_keys_perm there).symm.append_left _)
  case heard =>
    rw [tasks, handles]
    exact acc.heard.leaves there seen
  case fitting =>
    intro x its
    rw [answers_append, seen, List.mem_append] at its
    rw [ended, List.mem_append]
    exact its.imp (acc.fitting x) fun new => List.mem_singleton.2 (told_answers new)

/-- No task is made and none ends. -/
theorem Accounted.quiet (acc : r.Accounted all) (made : creations es = [])
    (ended : endings es = []) (unheard : answers es = [])
    (tasks : r'.tasks = r.tasks ∨
      ∃ id f, r'.tasks = r.tasks.update id f ∧ ∀ t, (f t).answerable = t.answerable)
    (last : r'.last = r.last)
    (handles : r'.handles = r.handles ∨ ∃ id, r'.handles = r.handles.erase id)
    (counts : ∃ n, r'.counts = { r.counts with discarded := n }) : r'.Accounted (all ++ es) := by
  have made : creations (all ++ es) = creations all := by
    rw [creations_append, made, List.append_nil]
  have ended : endings (all ++ es) = endings all := by
    rw [endings_append, ended, List.append_nil]
  have told : answers (all ++ es) = answers all := by
    rw [answers_append, unheard, List.append_nil]
  have keys : r'.tasks.map Prod.fst = r.tasks.map Prod.fst := by
    obtain same | ⟨id, f, changed, -⟩ := tasks
    · rw [same]
    · rw [changed, Named.update_keys]
  have same : ∀ id t, r.tasks.get? id = some t →
      ∃ t', r'.tasks.get? id = some t' ∧ t'.answerable = t.answerable := by
    intro id t its
    obtain same | ⟨other, f, changed, keeps⟩ := tasks
    · exact ⟨t, same ▸ its, rfl⟩
    · rw [changed, Named.get?_update, its]
      split
      · exact ⟨f t, rfl, keeps t⟩
      · exact ⟨t, rfl, rfl⟩
  constructor
  case counted =>
    obtain ⟨started, completed, aborted, killed⟩ := acc.counted
    obtain ⟨n, counts⟩ := counts
    rw [counts]
    exact ⟨made ▸ started, ended ▸ completed, ended ▸ aborted, ended ▸ killed⟩
  case given => exact fun id its => last ▸ acc.given id (made ▸ its)
  case once => exact made ▸ acc.once
  case parted =>
    rw [made, ended, keys]
    exact acc.parted
  case fitting => exact fun x its => ended ▸ acc.fitting x (told ▸ its)
  case heard =>
    obtain kept | ⟨id, fewer⟩ := handles
    · exact acc.heard.stays unheard keys same (kept ▸ acc.heard.held)
        fun id a its => kept ▸ its
    · exact acc.heard.stays unheard keys same (fewer ▸ Named.erase_distinct acc.heard.held id)
        fun other a its => (Named.of_get?_erase acc.heard.held (fewer ▸ its)).2

theorem Counted.ended {c : Counts} (counted : Counted c all) (result : Except String Value)
    (made : creations es = []) (ended : endings es = [(id, answerOf result)]) :
    Counted (c.ended result) (all ++ es) := by
  obtain ⟨started, completed, aborted, killed⟩ := counted
  cases result <;> constructor <;>
    simp [creations_append, endings_append, Counts.ended, answerOf, succeeded, failedWith, *]

theorem Step.accounted (step : Step r es r') (acc : r.Accounted all) :
    r'.Accounted (all ++ es) := by
  cases step with
  | submitted player session t new asks =>
    exact acc.admitted rfl rfl rfl (Or.inr ⟨rfl, asks⟩) rfl ⟨rfl, rfl⟩
  | hired | summoned => exact acc.admitted rfl rfl rfl (Or.inl rfl) rfl ⟨rfl, rfl⟩
  | killed id t there =>
    have quiet := told_endings r.handles id t (.error .cancelled)
    have ended : endings (.killed id t.player :: told r.handles id t (.error .cancelled)) =
        [(id, .error .cancelled)] := by
      rw [endings_cons, quiet.2]
      rfl
    refine acc.removed there rfl rfl rfl ?_ quiet.1 ended rfl
    obtain ⟨started, completed, aborted, killed⟩ := acc.counted
    constructor <;>
      simp [creations_append, endings_append, Event.created?, succeeded, failedWith, *]
  | ended id t result there =>
    have quiet := told_endings r.handles id t (answerOf result)
    have ended : endings (.ended id result :: told r.handles id t (answerOf result)) =
        [(id, answerOf result)] := by
      rw [endings_cons, quiet.2]
      rfl
    exact acc.removed there rfl rfl rfl (acc.counted.ended result quiet.1 ended) quiet.1 ended rfl
  | home id f under keeps =>
    exact acc.quiet rfl rfl rfl (Or.inr ⟨id, f, rfl, fun t => (keeps t).1⟩) rfl (Or.inl rfl)
      ⟨_, rfl⟩
  | picked id input =>
    cases input <;>
      exact acc.quiet rfl rfl rfl
        (Or.inr ⟨id, fun t => { t with body := none }, rfl, fun _ => rfl⟩) rfl (Or.inl rfl) ⟨_, rfl⟩
  | stepped id =>
    exact acc.quiet rfl rfl rfl
      (Or.inr ⟨id, fun t => { t with body := none }, rfl, fun _ => rfl⟩) rfl (Or.inl rfl) ⟨_, rfl⟩
  | parked id h =>
    exact acc.quiet rfl rfl rfl
      (Or.inr ⟨id, fun t => { t with waiting := some h }, rfl, fun _ => rfl⟩) rfl (Or.inl rfl)
      ⟨_, rfl⟩
  | claimed c =>
    exact acc.quiet rfl rfl rfl
      (Or.inr ⟨c.task, fun t => { t with waiting := none }, rfl, fun _ => rfl⟩) rfl (Or.inl rfl)
      ⟨_, rfl⟩
  | unclaimed | rested | missed | reentered | takenUp =>
    exact acc.quiet rfl rfl rfl (Or.inl rfl) rfl (Or.inl rfl) ⟨_, rfl⟩
  | detached id => exact acc.quiet rfl rfl rfl (Or.inl rfl) rfl (Or.inr ⟨id, rfl⟩) ⟨_, rfl⟩

theorem Accounted.same {all' : List Event} (acc : r.Accounted all)
    (made : creations all' = creations all) (ended : endings all' = endings all)
    (told : answers all' = answers all) : r.Accounted all' := by
  obtain ⟨⟨started, completed, aborted, killed⟩, given, once, parted, heard, fitting⟩ := acc
  obtain ⟨distinct, held, unique, untold, waits, heard⟩ := heard
  constructor
  case counted => exact ⟨made ▸ started, ended ▸ completed, ended ▸ aborted, ended ▸ killed⟩
  case given => exact made ▸ given
  case once => exact made ▸ once
  case parted => rwa [made, ended]
  case heard => exact ⟨distinct, held, told ▸ unique, told ▸ untold, waits, told ▸ heard⟩
  case fitting => rwa [told, ended]

theorem Step.keeps (step : Step r es r')
    (held : id ∈ r.forgone ∨ (r.handles.get? id).isSome = true) :
    id ∈ r'.forgone ∨ (r'.handles.get? id).isSome = true := by
  cases step with
  | submitted player session t new =>
    refine held.imp_right fun held => ?_
    rw [Named.get?_set]
    split
    · rfl
    · exact held
  | killed other t | ended other t => exact held.imp_right (settled_held r.handles other t _)
  | detached other =>
    by_cases its : id = other
    · exact Or.inl (its ▸ List.mem_append_right _ (List.mem_singleton.2 rfl))
    · rw [Named.get?_erase_ne _ its]
      exact held.imp_left (List.mem_append_left _)
  | _ => exact held

theorem Runs.keeps (runs : Runs r es r')
    (held : id ∈ r.forgone ∨ (r.handles.get? id).isSome = true) :
    id ∈ r'.forgone ∨ (r'.handles.get? id).isSome = true := by
  induction runs with
  | nil => exact held
  | cons step _ ih => exact ih (step.keeps held)

end Register

namespace Scheduler
open Register Trace

variable {s s' : Scheduler} {p p' : Place}

theorem Enters.accounted (enters : Enters s p s' p') (acc : (s.register p).Accounted s.trace) :
    (s'.register p').Accounted s'.trace := by
  obtain ⟨es, trace, runs⟩ := enters
  refine (runs.keep Step.accounted acc).same ?_ ?_ ?_ <;> rw [trace]
  · rw [creations_append, creations_append, creations_own]
  · rw [endings_append, endings_append, endings_own]
  · rw [answers_append, answers_append, answers_own]

theorem accounted_anywhere {all : List Event} (acc : (s.register p).Accounted all) :
    (s.register p').Accounted all :=
  ⟨acc.counted, acc.given, acc.once, acc.parted, acc.heard, acc.fitting⟩

theorem start_accounted (c : Config) (database : Database) (parser : CommandParser)
    (clock : Instant) : ((ofConfig c database parser clock).register {}).Accounted [] where
  counted := ⟨rfl, rfl, rfl, rfl⟩
  given := nofun
  once := List.nodup_nil
  parted := List.Perm.refl _
  heard :=
    { distinct := List.nodup_nil
      held := List.nodup_nil
      once := List.nodup_nil
      untold := nofun
      waits := nofun
      heard := nofun }
  fitting := nofun

/-! ## The end of the server -/

/-- The tasks that were left are given up, and those who asked are told so. -/
structure GivenUp (left : Named TaskId Task) (s s' : Scheduler) : Prop where
  tasks : s'.tasks = s.tasks
  trace : ∃ es, s'.trace = s.trace ++ es ∧ endings es = [] ∧
    ∀ x ∈ answers es, x.1 ∈ left.map Prod.fst ∧ x.2 = .error .shuttingDown
  heard : Heard [] s'.handles s'.trace
  held : ∀ id, (s.handles.get? id).isSome = true → (s'.handles.get? id).isSome = true

theorem foldl_abandon (left : Named TaskId Task) (s : Scheduler)
    (heard : Heard left s.handles s.trace) : GivenUp left s (left.foldl abandon s) := by
  induction left generalizing s with
  | nil =>
    exact ⟨rfl, ⟨[], (List.append_nil _).symm, rfl, nofun⟩, heard, fun _ held => held⟩
  | cons entry left ih =>
    obtain ⟨id, t⟩ := entry
    have table : (s.abandon (id, t)).register {} = { s.register {} with
        handles := settled s.handles id t (.error .shuttingDown) } := answer_register {} s id t _
    have trace : (s.abandon (id, t)).trace =
        s.trace ++ told s.handles id t (.error .shuttingDown) := answer_told s id t _
    have tasks : (s.abandon (id, t)).tasks = s.tasks := congrArg Register.tasks table
    have handles : (s.abandon (id, t)).handles =
        settled s.handles id t (.error .shuttingDown) := congrArg Register.handles table
    have first : Named.get? ((id, t) :: left) id = some t :=
      Named.get?_of_mem heard.distinct (List.mem_cons_self ..)
    have rest : Named.erase ((id, t) :: left) id = left :=
      List.eraseP_cons_of_pos (decide_eq_true rfl)
    have leaves := heard.leaves (a := .error .shuttingDown) first rfl
    rw [rest, ← handles, ← trace] at leaves
    obtain ⟨tasks', ⟨es, trace', ended, told'⟩, heard', held'⟩ := ih _ leaves
    refine ⟨tasks'.trans tasks, ⟨told s.handles id t (.error .shuttingDown) ++ es, ?_, ?_, ?_⟩,
      heard', fun other held => ?_⟩
    · rw [List.foldl_cons, trace', trace, List.append_assoc]
    · rw [endings_append, (told_endings _ _ _ _).2, ended]
      rfl
    · intro x its
      rw [answers_append, List.mem_append] at its
      obtain now | later := its
      · rw [told_answers now]
        exact ⟨List.mem_cons_self .., rfl⟩
      · exact (told' x later).imp_left (List.mem_cons_of_mem _)
    · refine held' other ?_
      rw [handles]
      exact settled_held s.handles id t _ held

theorem clearReady_same (s : Scheduler) : s.clearReady.tasks = s.tasks ∧
    s.clearReady.handles = s.handles ∧ s.clearReady.trace = s.trace := by
  have each (xs : List (TaskId × Input)) (s : Scheduler) :
      let s' := xs.foldl (fun s entry => s.releaseInput entry.2) s
      s'.tasks = s.tasks ∧ s'.handles = s.handles ∧ s'.trace = s.trace := by
    induction xs generalizing s with
    | nil => exact ⟨rfl, rfl, rfl⟩
    | cons entry xs ih =>
      obtain ⟨id, _ | v⟩ := entry
      · exact ih s
      · exact ih (s.release v)
  exact each s.ready { s with ready := [] }

theorem finalCheckpoint_enters (s : Scheduler) (p : Place) :
    Enters s p s.finalCheckpoint.2 p := by
  unfold finalCheckpoint
  split
  · exact checkpoint_enters p s .shutdown
  · exact Enters.refl s p

theorem failWaiting_enters (s : Scheduler) (p : Place) : Enters s p s.failWaiting p := by
  have failed (coordinator : Checkpoint.Coordinator) : Enters s p { s with coordinator } p :=
    .same rfl rfl
  exact (failed _).trans (tellAll_enters p _ _)

/-- Once the server is shut down, every handle that was held has its answer. -/
theorem conclude_answers (s : Scheduler) (timedOut : Bool)
    (acc : (s.register {}).Accounted s.trace) :
    let s' := (s.conclude timedOut).2
    s'.tasks = [] ∧ Heard [] s'.handles s'.trace ∧
      (∀ id a, (id, a) ∈ answers s'.trace → (id, a) ∈ endings s'.trace ∨
        id ∉ (endings s'.trace).map Prod.fst ∧ a = .error .shuttingDown) ∧
      ∀ id, (s.handles.get? id).isSome = true → (s'.handles.get? id).isSome = true := by
  have told : Enters s {} s.finalCheckpoint.2.failWaiting {} :=
    (s.finalCheckpoint_enters {}).trans (failWaiting_enters _ {})
  have acc := told.accounted acc
  have kept : ∀ id, (s.handles.get? id).isSome = true →
      (s.finalCheckpoint.2.failWaiting.handles.get? id).isSome = true := by
    intro id held
    obtain ⟨es, -, runs⟩ := told
    exact (runs.keeps (Or.inr held)).resolve_left nofun
  generalize same : s.finalCheckpoint.2.failWaiting = before at acc kept
  -- the table is emptied before anybody is told, so the tasks that are left are those of the list
  obtain ⟨tasks, ⟨es, trace, ended, abandoned⟩, heard, held⟩ :=
    foldl_abandon before.tasks { before with tasks := [] } acc.heard
  obtain ⟨cleared, handles, quiet⟩ := before.abandonAll.clearReady_same
  have ends : (s.conclude timedOut).2.tasks = before.abandonAll.clearReady.tasks ∧
      (s.conclude timedOut).2.handles = before.abandonAll.clearReady.handles ∧
      (s.conclude timedOut).2.trace = before.abandonAll.clearReady.trace := by
    rw [← same]
    exact ⟨rfl, rfl, rfl⟩
  rw [cleared, handles, quiet] at ends
  intro s'
  rw [ends.1, ends.2.1, ends.2.2]
  refine ⟨tasks, heard, fun id a its => ?_, fun id its => held id (kept id its)⟩
  have trace : before.abandonAll.trace = before.trace ++ es := trace
  have ended : endings (before.trace ++ es) = endings before.trace := by
    rw [endings_append, ended, List.append_nil]
  rw [trace, answers_append, List.mem_append] at its
  rw [trace, ended]
  obtain old | new := its
  · exact Or.inl (acc.fitting _ old)
  · obtain ⟨left, why⟩ := abandoned _ new
    refine Or.inr ⟨fun its => ?_, why⟩
    exact (List.nodup_append.1 acc.ends_once).2.2 id its id left rfl

theorem submit_asks {s s' : Scheduler} {player : Obj} {session : Option SessionId} {body : Body}
    {id : TaskId} (taken : s.submit player session body = (.ok id, s')) :
    id = s.lastTask + 1 ∧ s'.handles.get? id = some none := by
  unfold submit at taken
  split at taken
  · cases taken
  · obtain ⟨made, rfl⟩ := Prod.mk.inj taken
    obtain rfl := Except.ok.inj made
    exact ⟨rfl, by rw [Named.get?_set, if_pos rfl]⟩

/-- In every run, at every moment: each task that was made has ended once or is in the table, and
the counters say how many ended in which way. Who submits a task, directly or by a message, holds
its handle until it is given up. And if the server is then shut down, each of those who hold a
handle has been told once how the task ended, or, if it was given up, that the server was shutting
down. -/
theorem tasks_accounted_for (c : Config) (database : Database) (parser : CommandParser)
    (clock : Instant) (w : Work) (dropped forgone : List TaskId)
    (run : Work.Run (.idle (ofConfig c database parser clock)) dropped forgone w) :
    (w.server.stats.started = w.server.stats.completed + w.server.stats.aborted +
        w.server.stats.killed + w.server.tasks.length ∧
      w.server.stats.started = (creations w.server.trace).length ∧
      w.server.stats.completed = (endings w.server.trace).countP succeeded ∧
      w.server.stats.aborted = (endings w.server.trace).countP (failedWith .aborted) ∧
      w.server.stats.killed = (endings w.server.trace).countP (failedWith .cancelled)) ∧
    ((creations w.server.trace).Perm
        ((endings w.server.trace).map Prod.fst ++ w.server.tasks.map Prod.fst) ∧
      ((endings w.server.trace).map Prod.fst ++ w.server.tasks.map Prod.fst).Nodup) ∧
    (∀ messages player session body id s',
      { w.server with messages }.submit player session body = (.ok id, s') →
        id ∉ creations w.server.trace ∧ s'.handles.get? id = some none) ∧
    (∀ dropped forgone w', Work.Run w dropped forgone w' →
      ∀ id, (w.server.handles.get? id).isSome = true → id ∉ forgone →
        (w'.server.handles.get? id).isSome = true) ∧
    ∀ s rounds report s', w = .idle s → s.shutdown rounds = (report, s') →
      s'.tasks = [] ∧ ((answers s'.trace).map Prod.fst).Nodup ∧
        ∀ id, (s.handles.get? id).isSome = true → ∃ a,
          s'.handles.get? id = some (some a) ∧ (id, a) ∈ answers s'.trace ∧
            ((id, a) ∈ endings s'.trace ∨
              id ∉ (endings s'.trace).map Prod.fst ∧ a = .error .shuttingDown) := by
  have acc := run.enters.accounted (start_accounted c database parser clock)
  have kept {w' : Work} {dropped forgone : List TaskId} (later : Work.Run w dropped forgone w')
      (id : TaskId) (held : (w.server.handles.get? id).isSome = true) :
      id ∈ forgone ∨ (w'.server.handles.get? id).isSome = true := by
    obtain ⟨es, -, runs⟩ := later.enters
    exact runs.keeps (Or.inr held)
  refine ⟨⟨?_, acc.counted.started, acc.counted.completed, acc.counted.aborted,
    acc.counted.killed⟩, ⟨acc.parted, acc.ends_once⟩, ?_, ?_, ?_⟩
  · have parted := acc.parted.length_eq
    rw [List.length_append, List.length_map, List.length_map, endings_length,
      ← acc.counted.started, ← acc.counted.completed, ← acc.counted.aborted,
      ← acc.counted.killed] at parted
    exact parted
  · intro messages player session body id s' taken
    obtain ⟨rfl, asked⟩ := submit_asks taken
    exact ⟨fun made => Nat.not_succ_le_self _ (acc.given _ made), asked⟩
  · exact fun _ _ w' later id held unforgone => (kept later id held).resolve_left unforgone
  · rintro s rounds report s' rfl shut
    -- the run goes on until threads are no longer waited for, and the books still agree then
    obtain ⟨s₁, timedOut, ⟨ids, later⟩, ends⟩ := Work.shutdown_run s rounds
    have acc₁ : (s₁.register {}).Accounted s₁.trace :=
      accounted_anywhere (later.enters.accounted (accounted_anywhere acc))
    have same : (s₁.conclude timedOut).2 = s' := congrArg Prod.snd (ends.symm.trans shut)
    have concluded := conclude_answers s₁ timedOut acc₁
    rw [same] at concluded
    obtain ⟨empty, heard, fitting, held⟩ := concluded
    refine ⟨empty, heard.once, fun id its => ?_⟩
    have still := held id ((kept later id its).resolve_left nofun)
    obtain ⟨answer, found⟩ := Option.isSome_iff_exists.1 still
    cases answer with
    | none =>
      -- no task is left that anybody could still wait for
      obtain ⟨t, its, -⟩ := heard.waits id found
      cases its
    | some a =>
      have told := heard.heard id a found
      exact ⟨a, found, told, fitting id a told⟩

def parting : List Deed :=
  [.submit .system none vengeful, .submit .system none asking, .submit .system none asking,
    .tick false, .step 1, .step 1, .step 1, .tick false]

theorem each_told_once :
    let s := (ofConfig {} .empty (fun _ => .error "") 0).carryOut parting
    (s.stats.started = s.stats.completed + s.stats.aborted + s.stats.killed + s.tasks.length ∧
      s.stats.completed = 1 ∧ s.stats.killed = 1 ∧ s.tasks.length = 1) ∧
    ∃ report s', s.shutdown [] = (report, s') ∧ ((answers s'.trace).map Prod.fst).Nodup ∧
      ∀ id ∈ [1, 2, 3], ∃ a, (id, a) ∈ answers s'.trace ∧
        ((id, a) ∈ endings s'.trace ∨
          id ∉ (endings s'.trace).map Prod.fst ∧ a = .error .shuttingDown) := by
  intro s
  have run : ∃ dropped, Work.Run (.idle (ofConfig {} .empty (fun _ => .error "") 0)) dropped _
      (.idle s) := Work.carryOut_run parting _
  have ends : s.stats.completed = 1 ∧ s.stats.killed = 1 ∧ s.tasks.length = 1 := by
    decide +kernel
  have held : ∀ id ∈ [1, 2, 3], (s.handles.get? id).isSome = true := by decide +kernel
  clear_value s
  obtain ⟨dropped, run⟩ := run
  obtain ⟨⟨total, -⟩, -, -, -, shut⟩ :=
    tasks_accounted_for {} .empty (fun _ => .error "") 0 _ _ _ run
  obtain ⟨-, once, told⟩ := shut s [] _ _ rfl rfl
  refine ⟨⟨total, ends⟩, _, _, rfl, once, fun id its => ?_⟩
  obtain ⟨a, -, told⟩ := told id (held id its)
  exact ⟨a, told⟩

end Scheduler
end MooCore
