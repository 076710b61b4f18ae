import MooCore.Proofs.Scheduler.Roll
/-!
# Killed tasks

A task that was killed is never stepped again, wherever the kill caught it, and nothing that belongs
to another task is touched by the kill.
-/

set_option autoImplicit false
namespace MooCore
open Background

/-- After it was killed a task is not stepped, is handed no result and does not end, and its number
is not given to another task. -/
structure AtRest (task : TaskId) (after : List Event) : Prop where
  never_stepped : ∀ resumed, .stepped task resumed ∉ after
  never_resumed : .delivered task ∉ after
  never_ends : ∀ result, .ended task result ∉ after
  killed_once : ∀ player, .killed task player ∉ after
  number_kept : ∀ player session, .created task player session ∉ after

theorem AtRest.of_unseen {task : TaskId} {after : List Event}
    (unseen : ∀ e ∈ after, e.life? ≠ some task) : AtRest task after where
  never_stepped := fun _ seen => unseen _ seen rfl
  never_resumed := fun seen => unseen _ seen rfl
  never_ends := fun _ seen => unseen _ seen rfl
  killed_once := fun _ seen => unseen _ seen rfl
  number_kept := fun _ _ seen => unseen _ seen rfl

namespace Scheduler

/-! ## Those that are not killed -/

/-- All that belongs to the tasks other than one, in its order, and what all tasks share. -/
def others (s : Scheduler) (task : TaskId) :=
  ((s.tasks.filter (·.1 ≠ task), s.ready.filter (·.1 ≠ task),
      s.gateway.waiters.filter (·.task ≠ task), s.handles.filter (·.1 ≠ task)),
    (s.jobs, s.channel, s.made, s.messages, s.asked, s.lastTask, s.lastObject),
    (s.slots, s.pins, s.queue, s.sessions, s.guards, s.database, s.coordinator, s.directory),
    s.gateway.next, s.gateway.max, s.gateway.threading, s.gateway.accepting, s.draining)

variable {s s' : Scheduler}

theorem filter_erase {α : Type} (xs : Named TaskId α) (task : TaskId) :
    (xs.erase task).filter (·.1 ≠ task) = xs.filter (·.1 ≠ task) := by
  induction xs with
  | nil => rfl
  | cons x xs ih =>
    rw [Named.erase] at ih ⊢
    by_cases its : x.1 = task
    · simp [its]
    · simpa [its] using ih

theorem filter_set {α : Type} (xs : Named TaskId α) (task : TaskId) (a : α) :
    (xs.set task a).filter (·.1 ≠ task) = xs.filter (·.1 ≠ task) := by
  induction xs with
  | nil => simp [Named.set]
  | cons x xs ih =>
    rw [Named.set]
    by_cases its : x.1 = task
    · simp [its]
    · simpa [its] using ih

theorem filter_marked (ws : List Waiter) (task : TaskId) :
    (ws.map fun w => if w.task = task then { w with active := false } else w).filter
      (·.task ≠ task) = ws.filter (·.task ≠ task) := by
  induction ws with
  | nil => rfl
  | cons w ws ih =>
    by_cases its : w.task = task
    · simpa [its] using ih
    · simpa [its] using ih

theorem answer_others (s : Scheduler) (task : TaskId) (result : TaskAnswer) :
    (s.answer task result).others task = s.others task := by
  unfold answer
  split
  · simp only [others, note, onHost, Host.note, filter_set]
  · cases result <;> rfl

theorem kill_others (s : Scheduler) (task : TaskId) :
    (s.kill task).2.others task = s.others task := by
  unfold kill
  split
  · rfl
  · rename_i t there
    let struck : Scheduler := { s with tasks := s.tasks.erase task }.note (.killed task t.player)
    have left : ((struck.askHost (·.killWaiters task)).2.withdraw task).2.others task =
        s.others task := by
      have waiters := filter_marked s.gateway.waiters task
      have turns : (s.ready.filter (·.1 ≠ task)).filter (·.1 ≠ task) =
          s.ready.filter (·.1 ≠ task) := by simp
      simp only [others, struck, withdraw, askHost, note, onHost, Host.note, Host.killWaiters,
        Host.locking, Host.noteAll, Gateway.kill, filter_erase, waiters, turns]
    dsimp only
    split
    · exact (answer_others _ task _).trans left
    · exact left

theorem answer_trace (s : Scheduler) (task : TaskId) (result : TaskAnswer) :
    ∃ es, (s.answer task result).trace = s.trace ++ es := by
  unfold answer
  split
  · exact ⟨_, rfl⟩
  · cases result <;> exact ⟨[], (List.append_nil _).symm⟩

theorem kill_seen (s : Scheduler) (task : TaskId) :
    ((s.kill task).1 = .ok () ∧ ∃ t es, s.tasks.get? task = some t ∧
      (s.kill task).2.trace = s.trace ++ .killed task t.player :: es) ∨
    ((s.kill task).1 = .error (.notFound task) ∧ s.tasks.get? task = none ∧
      (s.kill task).2 = s) := by
  unfold kill
  split
  · rename_i absent
    exact Or.inr ⟨rfl, absent, rfl⟩
  · rename_i t there
    have more {tail all : List Event}
        (all_seen : all = s.trace ++ [.killed task t.player] ++ tail) :
        ∃ t es, s.tasks.get? task = some t ∧ all = s.trace ++ .killed task t.player :: es :=
      ⟨t, tail, there, by rw [all_seen, List.append_assoc, List.singleton_append]⟩
    dsimp only
    split
    · refine Or.inl ⟨rfl, ?_⟩
      obtain ⟨es, told⟩ := answer_trace _ task (.error .cancelled)
      exact more (told.trans (List.append_assoc _ _ es))
    · exact Or.inl ⟨rfl, more rfl⟩

/-! ## Those that are killed -/

theorem start_fit (c : Config) (database : Database) (parser : CommandParser) (clock : Instant) :
    (ofConfig c database parser clock).roll.Fit := ⟨List.nodup_nil, nofun⟩

theorem Logs.at_rest {before after : List Event} {task : TaskId} {player : Obj}
    (logs : Logs s s') (fit : s.roll.Fit) (fresh : s.trace = [])
    (seen : s'.trace = before ++ .killed task player :: after) :
    AtRest task after ∧ s'.tasks.get? task = none ∧ task ≤ s'.lastTask := by
  obtain ⟨es, trace, runs⟩ := logs fit
  rw [fresh, List.nil_append] at trace
  obtain ⟨gone, unseen⟩ := runs.after_kill fit (trace.symm.trans seen)
  exact ⟨.of_unseen unseen, Named.get?_eq_none.2 gone.absent, gone.given⟩

/-- At every moment of every run, a task whose kill was seen is gone for good: it is not stepped
after that, whether it had a turn in the queue or in the batch, was away behind a thread, or asked
for its own end in the step under way. Whoever kills a task that is there is told so, and from then
on that task is at rest. A kill, whenever it comes, leaves what belongs to other tasks as it was. -/
theorem killed_task_rests (c : Config) (database : Database) (parser : CommandParser)
    (clock : Instant) (w : Work)
    (run : Work.Moments (.idle (ofConfig c database parser clock)) w) :
    (∀ before after task player, w.server.trace = before ++ .killed task player :: after →
      AtRest task after ∧ w.server.tasks.get? task = none ∧ task ≤ w.server.lastTask) ∧
    (∀ task,
      ((w.server.kill task).1 = .ok () ↔ (w.server.tasks.get? task).isSome) ∧
      ((w.server.kill task).1 = .ok () →
        ∀ w', Work.Moments ⟨(w.server.kill task).2, w.batch, w.act⟩ w' →
          ∃ player after, w'.server.trace = w.server.trace ++ .killed task player :: after ∧
            AtRest task after)) ∧
    ∀ (s : Scheduler) (task : TaskId), (s.kill task).2.others task = s.others task := by
  have logs := run.logs
  have fit := start_fit c database parser clock
  refine ⟨fun _ _ _ _ seen => logs.at_rest fit rfl seen,
    fun task => ⟨?_, fun done w' further => ?_⟩, kill_others⟩
  · rcases w.server.kill_seen task with ⟨done, t, -, there, -⟩ | ⟨failed, absent, -⟩
    · simp [done, there]
    · simp [failed, absent]
  · rcases w.server.kill_seen task with ⟨-, t, es, -, seen⟩ | ⟨failed, -⟩
    · have later := logs.trans (w.server.kill_logs task)
      obtain ⟨es', trace, -⟩ := further.logs (by
        obtain ⟨_, -, runs⟩ := later fit
        exact runs.fit fit)
      have all : w'.server.trace = w.server.trace ++ .killed task t.player :: (es ++ es') := by
        rw [trace, seen, List.append_assoc, List.cons_append]
      exact ⟨t.player, es ++ es', all, ((later.trans further.logs).at_rest fit rfl all).1⟩
    · rw [failed] at done
      cases done

def reckless : Body where
  description := "reckless"
  step _ input :=
    match input with
    | .start => .effect (.kill 2) fun _ => .effect (.kill 1) fun _ =>
        .background { title := "echo", argument := .int 7 } (fun _ v => .finish v) []
          fun _ _ => .complete .none
    | .resume v => .complete v

/-- The second task is killed while its turn is in the batch, and the first one while it asks for
work; the third one's result is in the channel. -/
def recklessly : List Deed :=
  [.submit .system none reckless, .submit .system none asking, .submit .system none asking,
    .tick false, .step 1, .step 1, .step 1, .step 2, .step 2, .step 2]

def victim? : Event → Option TaskId
  | .killed task _ => some task
  | _ => none

theorem cut_at_kill {es : List Event} {n : Nat} {task : TaskId}
    (killed : es[n]?.bind victim? = some task) :
    ∃ player, es = es.take n ++ .killed task player :: es.drop (n + 1) := by
  obtain ⟨e, seen, its⟩ := Option.bind_eq_some_iff.1 killed
  obtain ⟨_, rfl⟩ := List.getElem?_eq_some_iff.1 seen
  cases kind : es[n] with
  | killed id player =>
    rw [kind] at its
    refine ⟨player, ?_⟩
    rw [← Option.some.inj its, ← kind, List.getElem_cons_drop, List.take_append_drop]
  | _ =>
    rw [kind] at its
    cases its

theorem recklessly_killed :
    let s := (ofConfig {} .empty (fun _ => .error "") 0).carryOut recklessly
    s.trace.filterMap victim? = [2, 1] ∧ AtRest 2 (s.trace.drop 6) ∧ AtRest 1 (s.trace.drop 8) ∧
      s.channel.map Completion.task = [3] ∧
      ∃ player after, ((s.kill 3).2.tick).2.trace = s.trace ++ .killed 3 player :: after ∧
        AtRest 3 after := by
  intro s
  obtain ⟨rests, kills, -⟩ := killed_task_rests {} .empty (fun _ => .error "") 0 (.idle s)
    (Work.carryOut_moments recklessly _ [] none)
  obtain ⟨there, rests_later⟩ := kills 3
  have second : s.trace[5]?.bind victim? = some 2 := by decide +kernel
  have first : s.trace[7]?.bind victim? = some 1 := by decide +kernel
  obtain ⟨_, second⟩ := cut_at_kill second
  obtain ⟨_, first⟩ := cut_at_kill first
  refine ⟨by decide +kernel, (rests _ _ 2 _ second).1, (rests _ _ 1 _ first).1,
    by decide +kernel, ?_⟩
  exact rests_later (there.2 (by decide +kernel)) _ (Work.tick_turns _ false).moments

end Scheduler
end MooCore
