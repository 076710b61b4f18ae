import MooCore.Proofs.Scheduler.Beats
import MooCore.Proofs.Scheduler.Courses
/-!
# What becomes of results

Every result that was taken from the channel was handed to its task, still has a turn, or was thrown
away. Those that are thrown away are counted, except one kind: the result of a task that is killed
while its turn is in the batch that the loop works through.
-/

set_option autoImplicit false
namespace MooCore
open Background

/-- The task that an event hands a result from the channel. -/
def Event.delivered? : Event → Option TaskId
  | .delivered id => some id
  | _ => none

def deliveries (es : List Event) : List TaskId := es.filterMap Event.delivered?

@[simp] theorem takens_cons (e : Event) (es : List Event) :
    takens (e :: es) = e.taken?.toList ++ takens es := Event.filterMap_cons _ e es

@[simp] theorem deliveries_cons (e : Event) (es : List Event) :
    deliveries (e :: es) = e.delivered?.toList ++ deliveries es := Event.filterMap_cons _ e es

@[simp] theorem takens_nil : takens [] = [] := rfl

@[simp] theorem deliveries_nil : deliveries [] = [] := rfl

theorem takens_append (es es' : List Event) : takens (es ++ es') = takens es ++ takens es' :=
  List.filterMap_append

theorem deliveries_append (es es' : List Event) :
    deliveries (es ++ es') = deliveries es ++ deliveries es' := List.filterMap_append

theorem takens_own (es : List Event) : takens (es.filter Event.isOwn) = takens es :=
  Event.filterMap_own (fun e other => by cases e <;> first | rfl | cases other) es

theorem deliveries_own (es : List Event) : deliveries (es.filter Event.isOwn) = deliveries es :=
  Event.filterMap_own (fun e other => by cases e <;> first | rfl | cases other) es

theorem WasKilled.own {id : TaskId} {es : List Event}
    (killed : WasKilled id (es.filter Event.isOwn)) : WasKilled id es :=
  killed.imp fun _ => List.mem_of_mem_filter

namespace Register

variable {r r' : Register} {es all : List Event}

def turns (r : Register) : List (TaskId × Input) := r.batch ++ r.ready

theorem turns_of_batch {x : TaskId × Input} {batch : List (TaskId × Input)}
    (turn : r.batch = x :: batch) : r.turns = x :: (batch ++ r.ready) := by
  rw [turns, turn, List.cons_append]

theorem results_append (xs ys : List (TaskId × Input)) :
    results (xs ++ ys) = results xs ++ results ys := List.filterMap_append

theorem results_cons (id : TaskId) (input : Input) (xs : List (TaskId × Input)) :
    (results ((id, input) :: xs)).length = (lost id input).length + (results xs).length := by
  cases input with
  | start => simp [results, Input.result?, lost]
  | resume v =>
    simp [results, Input.result?, lost]
    omega

theorem results_parted (xs : List (TaskId × Input)) (id : TaskId) :
    (results (xs.filter (·.1 = id))).length + (results (xs.filter (·.1 ≠ id))).length =
      (results xs).length := by
  induction xs with
  | nil => rfl
  | cons x xs ih =>
    obtain ⟨other, input⟩ := x
    rw [results_cons]
    by_cases its : other = id
    · simp only [its, decide_true, List.filter_cons_of_pos, results_cons, ne_eq, not_true_eq_false,
        decide_false, Bool.false_eq_true, not_false_eq_true, List.filter_cons_of_neg] at ih ⊢
      omega
    · simp only [its, decide_true, List.filter_cons_of_pos, results_cons, ne_eq,
        decide_false, Bool.false_eq_true, not_false_eq_true, List.filter_cons_of_neg] at ih ⊢
      omega

/-! ## The books -/

/-- Every result that was taken is accounted for. -/
def Balanced (r : Register) (all : List Event) : Prop :=
  (takens all).length = (deliveries all).length + (results r.turns).length + r.counts.discarded +
    r.missed.length

theorem told_quiet (handles : Named TaskId (Option TaskAnswer)) (id : TaskId) (t : Task)
    (a : TaskAnswer) :
    takens (told handles id t a) = [] ∧ deliveries (told handles id t a) = [] := by
  unfold told
  split <;> exact ⟨rfl, rfl⟩

/-- What a change adds on one side it adds on the other. -/
theorem Step.adds (step : Step r es r') :
    (takens es).length + (results r.turns).length + r.counts.discarded + r.missed.length =
      (deliveries es).length + (results r'.turns).length + r'.counts.discarded +
        r'.missed.length := by
  unfold turns
  simp only [results_append, List.length_append]
  cases step with
  | submitted | hired | summoned =>
    simp [Event.taken?, Event.delivered?, enrol, results, Input.result?]
  | killed id t there =>
    have parted := results_parted r.ready id
    simp [told_quiet, Event.taken?, Event.delivered?] at parted ⊢
    omega
  | ended id t result =>
    cases result <;> simp [told_quiet, Event.taken?, Event.delivered?, Counts.ended]
  | rested | home | stepped | parked | detached => rfl
  | picked id input batch t turn =>
    rw [turn, results_cons]
    cases input <;> simp [arrival, lost, Event.taken?, Event.delivered?]
    omega
  | missed id input batch turn | reentered id input batch t turn =>
    rw [turn, results_cons]
    simp [Event.taken?, Event.delivered?]
    omega
  | unclaimed c =>
    simp [Event.taken?, Event.delivered?]
    omega
  | claimed c =>
    simp [Event.taken?, Event.delivered?, results, Input.result?]
    omega
  | takenUp done =>
    rw [done]
    simp [results]

theorem Step.balanced (step : Step r es r') (balanced : r.Balanced all) :
    r'.Balanced (all ++ es) := by
  have adds := step.adds
  unfold Balanced at *
  rw [takens_append, deliveries_append, List.length_append, List.length_append]
  omega

/-! ## Turns -/

def Knows (r : Register) (id : TaskId) : Prop :=
  (r.tasks.get? id).isSome = true ∨ id ∈ r.turns.map Prod.fst ∨ r.under = some id

/-- A task has one turn at most, none while it waits or is being stepped, and none once it has ended
by itself. A task that is not being stepped has its body. -/
structure Fair (r : Register) (all : List Event) : Prop where
  distinct : (r.tasks.map Prod.fst).Nodup
  given : ∀ id, r.Knows id → id ≤ r.last
  once : (r.turns.map Prod.fst).Nodup
  apart : ∀ id, r.under = some id → id ∉ r.turns.map Prod.fst
  awake : ∀ id t, r.tasks.get? id = some t → id ∈ r.turns.map Prod.fst ∨ r.under = some id →
    t.waiting = none
  home : ∀ id t, r.tasks.get? id = some t → r.under ≠ some id → t.body.isSome = true
  live : ∀ id ∈ r.turns.map Prod.fst, (r.tasks.get? id).isSome = true ∨ WasKilled id all
  lost : ∀ id ∈ r.missed, WasKilled id all

variable {id : TaskId} {t : Task}

/-- A new task is the only one with its number, and so is its turn. -/
theorem Fair.admitted (fair : r.Fair all) (new : t.waiting = none ∧ t.body.isSome = true)
    (tasks : r'.tasks = r.tasks.set (r.last + 1) t) (last : r'.last = r.last + 1)
    (turns : r'.turns.Perm (r.turns ++ [(r.last + 1, .start)])) (under : r'.under = r.under)
    (missed : r'.missed = r.missed) : r'.Fair (all ++ es) := by
  have turn : ∀ id, id ∈ r'.turns.map Prod.fst ↔ id ∈ r.turns.map Prod.fst ∨ id = r.last + 1 := by
    intro id
    rw [(turns.map Prod.fst).mem_iff, List.map_append, List.mem_append]
    simp
  have fresh : ¬ r.Knows (r.last + 1) := fun known =>
    Nat.not_succ_le_self _ (fair.given _ known)
  have found : ∀ id, r'.tasks.get? id =
      if id = r.last + 1 then some t else r.tasks.get? id := by
    intro id
    rw [tasks, Named.get?_set]
  constructor
  case distinct => exact tasks ▸ Named.set_distinct fair.distinct _ t
  case given =>
    intro id known
    rw [Knows, found, turn, under] at known
    rw [last]
    by_cases new : id = r.last + 1
    · exact Nat.le_of_eq new
    · simp only [new, if_false, or_false] at known
      exact Nat.le_succ_of_le (fair.given id known)
  case once =>
    have once : ((r.turns ++ [(r.last + 1, Input.start)]).map Prod.fst).Nodup := by
      rw [List.map_append, List.nodup_append_comm]
      exact List.nodup_cons.2 ⟨fun there => fresh (Or.inr (Or.inl there)), fair.once⟩
    exact (turns.map Prod.fst).nodup_iff.2 once
  case apart =>
    intro id busy there
    rw [under] at busy
    obtain old | rfl := (turn id).1 there
    · exact fair.apart id busy old
    · exact fresh (Or.inr (Or.inr busy))
  case awake =>
    intro id t' there busy
    rw [found] at there
    rw [turn, under] at busy
    split at there
    · exact Option.some.inj there ▸ new.1
    · rename_i other
      simp only [other, or_false] at busy
      exact fair.awake id t' there busy
  case home =>
    intro id t' there free
    rw [found] at there
    rw [under] at free
    split at there
    · exact Option.some.inj there ▸ new.2
    · exact fair.home id t' there free
  case live =>
    intro id there
    rw [found]
    split
    · exact Or.inl rfl
    · rename_i other
      exact (fair.live id (((turn id).1 there).resolve_right other)).imp_right
        (·.append_right es)
  case lost => exact fun id there => (fair.lost id (missed ▸ there)).append_right es

/-- A task is gone. If it had a turn left it was killed. -/
theorem Fair.removed (fair : r.Fair all) (tasks : r'.tasks = r.tasks.erase id)
    (last : r'.last = r.last) (turns : r'.turns.Sublist r.turns)
    (turned : id ∈ r'.turns.map Prod.fst → WasKilled id es)
    (under : r'.under = r.under ∨ r'.under = none ∧ r.under = some id)
    (missed : r'.missed = r.missed) : r'.Fair (all ++ es) := by
  have turn : ∀ id ∈ r'.turns.map Prod.fst, id ∈ r.turns.map Prod.fst :=
    fun _ there => (turns.map _).subset there
  have found : ∀ other t, r'.tasks.get? other = some t → other ≠ id ∧ r.tasks.get? other = some t :=
    fun _ _ there => Named.of_get?_erase fair.distinct (tasks ▸ there)
  have busy : ∀ other, r'.under = some other → r.under = some other := by
    intro other its
    obtain same | ⟨none, -⟩ := under
    · exact same ▸ its
    · rw [none] at its
      cases its
  constructor
  case distinct => exact tasks ▸ Named.erase_distinct fair.distinct id
  case given =>
    rintro other (there | there | its)
    · obtain ⟨t, there⟩ := Option.isSome_iff_exists.1 there
      rw [last]
      exact fair.given other (Or.inl (by rw [(found other t there).2]; rfl))
    · exact last ▸ fair.given other (Or.inr (Or.inl (turn other there)))
    · exact last ▸ fair.given other (Or.inr (Or.inr (busy other its)))
  case once => exact fair.once.sublist (turns.map _)
  case apart => exact fun other its there => fair.apart other (busy other its) (turn other there)
  case awake =>
    exact fun other t there its =>
      fair.awake other t (found other t there).2 (its.imp (turn other) (busy other))
  case home =>
    intro other t there free
    obtain ⟨ne, before⟩ := found other t there
    obtain same | ⟨-, its⟩ := under
    · exact fair.home other t before (same ▸ free)
    · exact fair.home other t before fun also => ne (Option.some.inj (also.symm.trans its))
  case live =>
    intro other there
    by_cases its : other = id
    · exact Or.inr (its ▸ (turned (its ▸ there)).append_left all)
    · rw [tasks, Named.get?_erase_ne _ its]
      exact (fair.live other (turn other there)).imp_right (·.append_right es)
  case lost => exact fun other there => (fair.lost other (missed ▸ there)).append_right es

/-- The table stays as it is. -/
theorem Fair.same_table (fair : r.Fair all) (tasks : r'.tasks = r.tasks) (last : r'.last = r.last)
    (turns : r'.turns.Sublist r.turns)
    (under : r'.under = r.under ∨
      r'.under = none ∧ ∀ id, r.under = some id → r.tasks.get? id = none)
    (lost : ∀ id ∈ r'.missed, id ∈ r.missed ∨ WasKilled id all) : r'.Fair (all ++ es) := by
  have turn : ∀ id ∈ r'.turns.map Prod.fst, id ∈ r.turns.map Prod.fst :=
    fun _ there => (turns.map _).subset there
  have busy : ∀ id, r'.under = some id → r.under = some id := by
    intro id its
    obtain same | ⟨none, -⟩ := under
    · exact same ▸ its
    · rw [none] at its
      cases its
  constructor
  case distinct => exact tasks ▸ fair.distinct
  case given =>
    intro id known
    rw [Knows, tasks] at known
    exact last ▸ fair.given id (known.imp_right (Or.imp (turn id) (busy id)))
  case once => exact fair.once.sublist (turns.map _)
  case apart => exact fun id its there => fair.apart id (busy id its) (turn id there)
  case awake =>
    exact fun id t there its => fair.awake id t (tasks ▸ there) (its.imp (turn id) (busy id))
  case home =>
    intro id t there free
    rw [tasks] at there
    obtain same | ⟨-, gone⟩ := under
    · exact fair.home id t there (same ▸ free)
    · exact fair.home id t there fun its => nomatch (gone id its).symm.trans there
  case live =>
    intro id there
    rw [tasks]
    exact (fair.live id (turn id there)).imp_right (·.append_right es)
  case lost =>
    exact fun id there => ((lost id there).elim (fair.lost id) fun killed => killed).append_right es

/-- One task has changed, and maybe its place. -/
theorem Fair.updated (fair : r.Fair all) (f : Task → Task) (tasks : r'.tasks = r.tasks.update id f)
    (last : r'.last = r.last) (missed : r'.missed = r.missed) (known : r.Knows id)
    (once : (r'.turns.map Prod.fst).Nodup)
    (turns : ∀ other ∈ r'.turns.map Prod.fst, other ∈ r.turns.map Prod.fst ∨
      other = id ∧ (r.tasks.get? id).isSome = true)
    (under : ∀ other, other ≠ id → (r'.under = some other ↔ r.under = some other))
    (apart : r'.under = some id → id ∉ r'.turns.map Prod.fst)
    (awake : ∀ t, r.tasks.get? id = some t → id ∈ r'.turns.map Prod.fst ∨ r'.under = some id →
      (f t).waiting = none)
    (home : ∀ t, r.tasks.get? id = some t → r'.under ≠ some id → (f t).body.isSome = true) :
    r'.Fair (all ++ es) := by
  have turn : ∀ other ∈ r'.turns.map Prod.fst, other ≠ id → other ∈ r.turns.map Prod.fst :=
    fun other there ne => (turns other there).resolve_right fun its => ne its.1
  have present : ∀ other, (r'.tasks.get? other).isSome = (r.tasks.get? other).isSome := by
    intro other
    rw [tasks, Named.get?_update_isSome]
  constructor
  case distinct => exact tasks ▸ Named.update_distinct fair.distinct id f
  case given =>
    intro other its
    rw [last]
    by_cases same : other = id
    · exact same ▸ fair.given id known
    · rw [Knows, present, under other same] at its
      exact fair.given other (its.imp_right (Or.imp_left fun there => turn other there same))
  case once => exact once
  case apart =>
    intro other its there
    by_cases same : other = id
    · exact apart (same ▸ its) (same ▸ there)
    · exact fair.apart other ((under other same).1 its) (turn other there same)
  case awake =>
    intro other t' there busy
    obtain ⟨t, before, rfl⟩ := Named.of_get?_update (tasks ▸ there)
    by_cases same : other = id
    · subst same
      rw [if_pos rfl]
      exact awake t before busy
    · rw [if_neg same]
      exact fair.awake other t before
        (busy.imp (fun there => turn other there same) (under other same).1)
  case home =>
    intro other t' there free
    obtain ⟨t, before, rfl⟩ := Named.of_get?_update (tasks ▸ there)
    by_cases same : other = id
    · subst same
      rw [if_pos rfl]
      exact home t before free
    · rw [if_neg same]
      exact fair.home other t before fun its => free ((under other same).2 its)
  case live =>
    intro other there
    rw [present]
    obtain old | ⟨rfl, new⟩ := turns other there
    · exact (fair.live other old).imp_right (·.append_right es)
    · exact Or.inl new
  case lost => exact fun other there => (fair.lost other (missed ▸ there)).append_right es

/-- No change spoils the order of the turns. -/
theorem Fair.step (step : Step r es r') (fair : r.Fair all) : r'.Fair (all ++ es) := by
  cases step with
  | submitted player session t new =>
    exact fair.admitted new rfl rfl (by simp [turns, enrol]) rfl rfl
  | hired player session t new => exact fair.admitted new rfl rfl (by simp [turns, enrol]) rfl rfl
  | summoned player session t new =>
    refine fair.admitted new rfl rfl ?_ rfl rfl
    simp only [turns, List.append_assoc]
    exact List.perm_append_comm.append_left r.batch
  | killed id t there =>
    -- a turn in the batch is not taken back, and comes when the task is gone
    exact fair.removed rfl rfl (List.filter_sublist.append_left r.batch)
      (fun _ => ⟨t.player, List.mem_cons_self ..⟩) (Or.inl rfl) rfl
  | ended id t result there under =>
    exact fair.removed rfl rfl (List.Sublist.refl _)
      (fun turned => absurd turned (fair.apart id under)) (Or.inr ⟨rfl, under⟩) rfl
  | rested id under gone =>
    refine fair.same_table rfl rfl (List.Sublist.refl _) (Or.inr ⟨rfl, ?_⟩) fun _ => Or.inl
    exact fun other its => Option.some.inj (under.symm.trans its) ▸ gone
  | home id f under keeps =>
    exact fair.updated f rfl rfl rfl (Or.inr (Or.inr under)) fair.once (fun _ => Or.inl)
      (fun _ _ => Iff.rfl) (fair.apart id)
      (fun t there busy => (keeps t).2.1.trans (fair.awake id t there busy))
      (fun t _ _ => (keeps t).2.2)
  | stepped id resumed under =>
    exact fair.updated (fun t => { t with body := none }) rfl rfl rfl (Or.inr (Or.inr under))
      fair.once (fun _ => Or.inl) (fun _ _ => Iff.rfl) (fair.apart id) (fair.awake id)
      (fun t _ free => absurd under free)
  | parked id h under home =>
    refine fair.updated (fun t => { t with waiting := some h }) rfl rfl rfl (Or.inr (Or.inr under))
      fair.once (fun _ => Or.inl) (fun other ne => ⟨nofun, fun its => ?_⟩) nofun
      (fun t there busy => ?_) (fun t there _ => home t there)
    · exact absurd (Option.some.inj (its.symm.trans under)) ne
    · exact absurd (busy.resolve_right nofun) (fair.apart id under)
  | picked id input batch t turn free there =>
    have turns := turns_of_batch turn
    have once := fair.once
    have awake := fair.awake id
    rw [turns, List.map_cons, List.nodup_cons] at once
    rw [turns] at awake
    refine fair.updated (fun t => { t with body := none }) rfl rfl rfl (Or.inl (by rw [there]; rfl))
      once.2 (fun other its => ?_) (fun other ne => ?_) (fun _ => once.1) (fun t there _ => ?_)
      (fun t _ its => absurd rfl its)
    · exact Or.inl (turns ▸ List.mem_cons_of_mem _ its)
    · simp [free, Ne.symm ne]
    · exact awake t there (Or.inl (List.mem_cons_self ..))
  | missed id input batch turn gone =>
    have turns := turns_of_batch turn
    refine fair.same_table rfl rfl ?_ (Or.inl rfl) fun other there => ?_
    · exact turns ▸ List.sublist_cons_self _ _
    · obtain before | now := List.mem_append.1 there
      · exact Or.inl before
      · have its : other = id := by
          cases input with
          | start => cases now
          | resume v => exact List.mem_singleton.1 now
        -- it had a turn and is not in the table, so it was killed
        have live := fair.live id (turns ▸ List.mem_cons_self ..)
        rw [gone] at live
        exact Or.inr (its ▸ live.resolve_left nofun)
  | reentered id input batch t turn free there away =>
    -- this does not happen, as a task that is not being stepped has its body
    have home := fair.home id t there (free ▸ nofun)
    rw [away] at home
    cases home
  | unclaimed c nobody =>
    exact fair.same_table rfl rfl (List.Sublist.refl _) (Or.inl rfl) fun _ => Or.inl
  | claimed c t there waits =>
    -- who waits has no turn, so the one that it gets is its only one
    have idle : ¬ (c.task ∈ r.turns.map Prod.fst ∨ r.under = some c.task) := fun busy =>
      nomatch waits.symm.trans (fair.awake c.task t there busy)
    have present : (r.tasks.get? c.task).isSome = true := by rw [there]; rfl
    have turns : (r.batch ++ (r.ready ++ [(c.task, Input.resume c.result)])).map Prod.fst =
        r.turns.map Prod.fst ++ [c.task] := by simp [Register.turns]
    refine fair.updated (fun t => { t with waiting := none }) rfl rfl rfl (Or.inl present) ?_
      (fun other turned => ?_) (fun _ _ => Iff.rfl) (fun under => absurd (Or.inr under) idle)
      (fun _ _ _ => rfl) (fun t there free => fair.home c.task t there free)
    · rw [Register.turns, turns, List.nodup_append_comm]
      exact List.nodup_cons.2 ⟨fun turned => idle (Or.inl turned), fair.once⟩
    · rw [Register.turns, turns, List.mem_append, List.mem_singleton] at turned
      exact turned.imp_right fun its => ⟨its, present⟩
  | takenUp done =>
    exact fair.same_table rfl rfl (by simp [turns, done]) (Or.inl rfl) fun _ => Or.inl
  | detached id =>
    exact fair.same_table rfl rfl (List.Sublist.refl _) (Or.inl rfl) fun _ => Or.inl

/-! ## Deliveries -/

def Prompt (es : List Event) : Prop :=
  ∀ before after id, es = before ++ .delivered id :: after →
    ∃ v rest, after = .stepped id (some v) :: rest

theorem Prompt.append {es es' : List Event} (first : Prompt es) (second : Prompt es') :
    Prompt (es ++ es') := by
  intro before after id split
  obtain ⟨mid, rfl, rest⟩ | ⟨mid, rfl, rest⟩ := List.append_eq_append_iff.1 split
  · exact second mid after id rest
  · cases mid with
    | nil => exact second [] after id rest.symm
    | cons e mid =>
      obtain ⟨rfl, rfl⟩ := List.cons.inj rest
      obtain ⟨v, later, rfl⟩ := first before mid id rfl
      exact ⟨v, later ++ es', rfl⟩

theorem Prompt.of_none {es : List Event} (none : deliveries es = []) : Prompt es := by
  rintro before after id rfl
  simp [deliveries_append, Event.delivered?] at none

theorem Step.prompt (step : Step r es r') : Prompt es := by
  cases step with
  | picked id input batch t turn free there =>
    cases input with
    | start => exact .of_none rfl
    | resume v =>
      intro before after other split
      obtain - | ⟨e, _ | ⟨e', before⟩⟩ := before
      · obtain ⟨same, rfl⟩ := List.cons.inj split
        exact ⟨v, [], by rw [Event.delivered.inj same]; rfl⟩
      · cases (List.cons.inj (List.cons.inj split).2).1
      · exact absurd (List.cons.inj (List.cons.inj split).2).2 (by simp)
  | killed | ended => exact .of_none (by simp [told_quiet, Event.delivered?])
  | _ => exact .of_none rfl

/-! ## Runs -/

/-- What holds between the register and all that was seen. -/
structure Settled (r : Register) (all : List Event) : Prop where
  fair : r.Fair all
  balanced : r.Balanced all
  prompt : Prompt all

theorem Step.settled {all : List Event} (step : Step r es r') (settled : r.Settled all) :
    r'.Settled (all ++ es) :=
  ⟨settled.fair.step step, step.balanced settled.balanced, settled.prompt.append step.prompt⟩

end Register

namespace Scheduler

theorem start_settled (c : Config) (database : Database) (parser : CommandParser)
    (clock : Instant) :
    ((ofConfig c database parser clock).register {}).Settled [] where
  fair :=
    { distinct := List.nodup_nil
      given := by rintro id (there | there | under) <;> contradiction
      once := List.nodup_nil
      apart := nofun
      awake := nofun
      home := nofun
      live := nofun
      lost := nofun }
  balanced := rfl
  prompt := .of_none rfl

/-- In every run, at every moment: each result that was taken from the channel was handed to its
task, which was stepped with it, or it has a turn, or it was thrown away. Those that were thrown
away are counted, apart from the results of tasks that were killed while their turn was in the batch
that the loop worked through. -/
theorem results_accounted_for (c : Config) (database : Database) (parser : CommandParser)
    (clock : Instant) (w : Work) (dropped forgone : List TaskId)
    (run : Work.Run (.idle (ofConfig c database parser clock)) dropped forgone w) :
    (takens w.server.trace).length = (deliveries w.server.trace).length +
      (Register.results (w.batch ++ w.server.ready)).length + w.server.stats.discarded +
        dropped.length ∧
    (∀ id ∈ dropped, WasKilled id w.server.trace) ∧
    ∀ before after id,
      w.server.trace.filter Event.isOwn = before ++ .delivered id :: after →
        ∃ v rest, after = .stepped id (some v) :: rest := by
  obtain ⟨es, trace, runs⟩ := run.enters
  have trace : w.server.trace = es := trace
  have settled := runs.keep Register.Step.settled (start_settled c database parser clock)
  rw [List.nil_append, ← trace] at settled
  refine ⟨?_, fun id its => (settled.fair.lost id its).own, settled.prompt⟩
  have balanced := settled.balanced
  rw [Register.Balanced, takens_own, deliveries_own] at balanced
  exact balanced

/-- A task that asks for something in the background and kills the second task when it has the
result. -/
def vengeful : Body where
  description := "vengeful"
  step _ _ := .background { title := "echo", argument := .int 7 } (fun _ v => .finish v) []
    fun _ _ => .effect (.kill 2) fun _ => .complete .none

def vengefully : List Deed :=
  [.submit .system none vengeful, .submit .system none asking, .tick false, .step 1, .step 1,
    .step 1, .step 2, .step 2, .step 2, .tick false]

/-- Two results were taken and one was handed over. The other one is neither in the queue nor
counted. -/
theorem batched_result_uncounted :
    let s := (ofConfig {} .empty (fun _ => .error "") 0).carryOut vengefully
    (takens s.trace).length ≠ (deliveries s.trace).length + (Register.results s.ready).length +
      s.stats.discarded ∧ s.stats.killed = 1 := by
  decide +kernel

/-- It is the one result that was dropped in that run. -/
theorem vengefully_dropped :
    let s := (ofConfig {} .empty (fun _ => .error "") 0).carryOut vengefully
    ∃ dropped, Work.Run (.idle (ofConfig {} .empty (fun _ => .error "") 0)) dropped [] (.idle s) ∧
      dropped.length = 1 ∧ ∀ id ∈ dropped, WasKilled id s.trace := by
  intro s
  obtain ⟨dropped, run⟩ := Work.carryOut_run vengefully (ofConfig {} .empty (fun _ => .error "") 0)
  obtain ⟨balanced, killed, -⟩ := results_accounted_for {} .empty (fun _ => .error "") 0 _ _ _ run
  have taken : (takens s.trace).length = 2 := by decide +kernel
  have delivered : (deliveries s.trace).length = 1 := by decide +kernel
  have queued : (Register.results s.ready).length = 0 := by decide +kernel
  have counted : s.stats.discarded = 0 := by decide +kernel
  have balanced : (takens s.trace).length = (deliveries s.trace).length +
    (Register.results s.ready).length + s.stats.discarded + dropped.length := balanced
  rw [taken, delivered, queued, counted] at balanced
  exact ⟨dropped, run, by omega, killed⟩

end Scheduler
end MooCore
