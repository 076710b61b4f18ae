import MooCore.Builtin.Task
import MooCore.Proofs.Scheduler.Alone
import MooCore.Proofs.Scheduler.Newcomers
import MooCore.Proofs.Scheduler.Registry
import MooCore.Proofs.Scheduler.Rights
import MooCore.Proofs.Sessions.Calls
/-!
# What lines of input lead to

A line that is handed out leads to one task or to one message to its session. A task has its turn in
the same round, the only one it gets to start with, and is stepped then unless somebody killed it
before.
-/

set_option autoImplicit false
namespace MooCore
open Background

namespace Scheduler

variable {s s' s'' : Scheduler} {session : SessionId} {line : String} {id : TaskId}

/-! ## One line -/

def commander (s : Scheduler) (session : SessionId) : Obj :=
  ((s.sessions.get? session).bind Session.player).getD .nothing

/-- There is one task more, with its turn, and nothing was sent to anybody. -/
structure Hires (s : Scheduler) (c : Caller) (body : Body) (s' : Scheduler) : Prop where
  fresh : c.task = s.lastTask + 1
  tasks : s'.tasks = s.tasks.set c.task
    { player := c.player, session := c.session, description := body.description, body := some body,
      answerable := false }
  ready : s'.ready = s.ready ++ [(c.task, .start)]
  lastTask : s'.lastTask = c.task
  told : ∀ id, s'.linesTo id = s.linesTo id

/-- One line was sent to one session, and there is no task more. -/
structure Refuses (s : Scheduler) (session : SessionId) (line : String) (s' : Scheduler) :
    Prop where
  told : ∀ id, s'.linesTo id = s.linesTo id ++ if id = session then [line] else []
  tasks : s'.tasks = s.tasks
  ready : s'.ready = s.ready
  lastTask : s'.lastTask = s.lastTask

theorem prepare_same (s : Scheduler) (d : Draft) :
    ∃ w, (s.prepare d).2 = { s with toWorkspace := w } := by
  obtain ⟨vs, w, built⟩ := s.toHost.buildAll_workspace d.recipes
  refine ⟨w, ?_⟩
  rw [prepare, askHost, built]

theorem startCommand_blank (blank : (Text.trim line).isEmpty = true) :
    s.startCommand (session, line) = s := if_pos blank

theorem startCommand_unread (filled : (Text.trim line).isEmpty = false) {message : String}
    (unread : s.parser (Text.trim line) = .error message) :
    s.startCommand (session, line) = (s.sendLine session ("!! " ++ message)).2 := by
  simp only [startCommand, filled, unread, Bool.false_eq_true, if_false]

theorem startCommand_hires (s : Scheduler) (session : SessionId)
    (filled : (Text.trim line).isEmpty = false) {d : Draft}
    (read : s.parser (Text.trim line) = .ok d) :
    s.Hires ⟨s.lastTask + 1, s.commander session, some session⟩ (s.prepare d).1
      (s.startCommand (session, line)) := by
  obtain ⟨w, prepared⟩ := s.prepare_same d
  rw [s.startCommand_read filled read, prepared]
  exact ⟨rfl, rfl, rfl, rfl, fun _ => rfl⟩

theorem startCommand_refuses (filled : (Text.trim line).isEmpty = false) {message : String}
    (unread : s.parser (Text.trim line) = .error message)
    (listens : s.sessions.listens session = true) :
    s.Refuses session ("!! " ++ message) (s.startCommand (session, line)) := by
  rw [startCommand_unread filled unread]
  refine ⟨fun id => ?_, rfl, rfl, rfl⟩
  rw [sendLine_linesTo]
  simp only [listens, and_true]

/-! ## Line after line -/

/-- The tasks that are there stay, turns come behind those that wait, and sessions neither come nor
go. -/
structure Adds (s s' : Scheduler) : Prop where
  later : s.lastTask ≤ s'.lastTask
  older : ∀ id ≤ s.lastTask, s'.tasks.get? id = s.tasks.get? id
  ready : s.ready <+: s'.ready
  parser : s'.parser = s.parser
  logins : s'.sessions.logins = s.sessions.logins

theorem Adds.refl (s : Scheduler) : Adds s s :=
  ⟨Nat.le_refl _, fun _ _ => rfl, List.prefix_refl _, rfl, rfl⟩

theorem Adds.trans (first : Adds s s') (second : Adds s' s'') : Adds s s'' where
  later := first.later.trans second.later
  older := fun id old => (second.older id (old.trans first.later)).trans (first.older id old)
  ready := first.ready.trans second.ready
  parser := second.parser.trans first.parser
  logins := second.logins.trans first.logins

theorem startCommand_adds (s : Scheduler) (entry : SessionId × String) :
    Adds s (s.startCommand entry) := by
  obtain ⟨session, line⟩ := entry
  cases filled : (Text.trim line).isEmpty with
  | true =>
    rw [startCommand_blank filled]
    exact .refl s
  | false =>
    cases read : s.parser (Text.trim line) with
    | ok d =>
      obtain ⟨w, prepared⟩ := s.prepare_same d
      rw [s.startCommand_read filled read, prepared]
      refine ⟨Nat.le_succ _, fun id old => ?_, List.prefix_append _ _, rfl, rfl⟩
      exact (Named.get?_set ..).trans (if_neg (Nat.ne_of_lt (Nat.lt_succ_of_le old)))
    | error message =>
      rw [startCommand_unread filled read]
      exact ⟨Nat.le_refl _, fun _ _ => rfl, List.prefix_refl _, rfl,
        s.sessions.send_logins session _⟩

theorem startAll_adds (entries : List (SessionId × String)) (s : Scheduler) :
    Adds s (entries.foldl startCommand s) := by
  induction entries generalizing s with
  | nil => exact .refl s
  | cons entry entries ih => exact (s.startCommand_adds entry).trans (ih _)

/-! ## The round -/

/-- In the round that comes a task has the only turn it gets to start with, and is stepped then
unless it was killed before. -/
def Starts (s : Scheduler) (c : Caller) (body : Body) : Prop :=
  ∃ before after, s.ready = before ++ (c.task, .start) :: after ∧
    (∀ x ∈ before ++ after, x.1 ≠ c.task) ∧
    let s' := before.foldl runOne { s with ready := [] }
    s.runReady = after.foldl runOne (s'.runOne (c.task, .start)) ∧
      (WasKilled c.task s'.trace ∨
        s'.stepTask c.task .start = (body.step c .start).run c (s'.takeBody c.task none))

theorem run_spares {caller : Caller} (other : caller.task ≠ id) (act : Act) (s : Scheduler) :
    Spares id s (act.run caller s).2 := by
  induction act using Act.move_induct generalizing s with
  | moves act ih =>
    have moved := move_spares other act s
    rw [Act.run_eq]
    generalize next : act.move caller s = step at moved
    obtain ⟨act' | outcome, s'⟩ := step
    · exact moved.trans (ih caller s act' (congrArg Prod.fst next) s')
    · exact moved

theorem runOne_spares (s : Scheduler) {entry : TaskId × Input} (other : entry.1 ≠ id) :
    Spares id s (s.runOne entry) := by
  have chores : AnyChores (some entry.1) s (s.pick entry.1 entry.2).2 :=
    s.pick_chores entry.1 entry.2
  have picked := chores.spares fun same => other (Option.some.inj same)
  have released (s : Scheduler) (outcome : StepOutcome) :
      Spares id s (s.releaseOutcome outcome) := by
    rcases outcome with (_ | v) | _ | _ <;> exact .of_same ⟨rfl, rfl, rfl⟩ rfl rfl rfl rfl
  rw [runOne, stepTask_eq]
  generalize answer : s.pick entry.1 entry.2 = taken at picked
  obtain ⟨_ | ⟨caller, act⟩, s'⟩ := taken
  · exact picked
  · have its := Work.pick_caller (congrArg Prod.fst answer)
    exact picked.trans ((run_spares (its ▸ other) act s').trans (released _ _))

theorem runAll_spares {entries : List (TaskId × Input)} (others : ∀ x ∈ entries, x.1 ≠ id)
    (s : Scheduler) : Spares id s (entries.foldl runOne s) := by
  induction entries generalizing s with
  | nil => exact .refl s
  | cons entry entries ih =>
    exact (s.runOne_spares (others entry (List.mem_cons_self ..))).trans
      (ih (fun x hx => others x (List.mem_cons_of_mem _ hx)) _)

theorem stepTask_start {c : Caller} {t : Task} {body : Body} (there : s.tasks.get? c.task = some t)
    (mine : (⟨c.task, t.player, t.session⟩ : Caller) = c) (its : t.body = some body) :
    s.stepTask c.task .start = (body.step c .start).run c (s.takeBody c.task none) := by
  have picked : s.pick c.task .start =
      (some (c, body.step c .start), s.takeBody c.task none) := by
    simp only [pick, there, its, mine]
    rfl
  rw [stepTask_eq, picked]

theorem starts {c : Caller} {t : Task} {body : Body} (born : c.task ≤ s.lastTask)
    (there : s.tasks.get? c.task = some t)
    (mine : (⟨c.task, t.player, t.session⟩ : Caller) = c) (its : t.body = some body)
    (turn : (c.task, .start) ∈ s.ready) (once : (s.ready.map Prod.fst).Nodup) :
    s.Starts c body := by
  obtain ⟨before, after, split⟩ := List.append_of_mem turn
  have others : ∀ x ∈ before ++ after, x.1 ≠ c.task := by
    rw [split] at once
    have moved : ((c.task, Input.start) :: (before ++ after)).map Prod.fst |>.Nodup :=
      (List.perm_middle.map Prod.fst).nodup_iff.1 once
    intro x hx same
    exact (List.nodup_cons.1 moved).1 (List.mem_map.2 ⟨x, hx, same⟩)
  refine ⟨before, after, split, others, ?_, ?_⟩
  · rw [runReady, split, List.foldl_append, List.foldl_cons]
  · have spared := runAll_spares
      (fun x hx => others x (List.mem_append_left _ hx)) { s with ready := [] }
    by_cases killed : WasKilled c.task (before.foldl runOne { s with ready := [] }).trace
    · exact .inl killed
    · have same := (spared.untouched born killed).task
      exact .inr (stepTask_start (same.trans there) mine its)

end Scheduler

/-! ## All lines that are handed out -/

namespace Sessions

variable {r : Sessions} {entry : SessionId × String} {id : SessionId} {player : Option Obj}

theorem login_of_taken (handed : entry ∈ r.takeInput.1) :
    ∃ player, (entry.1, true, player) ∈ r.logins := by
  unfold takeInput at handed
  split at handed
  · cases handed
  · obtain ⟨x, mem, given⟩ := List.mem_filterMap.1 handed
    unfold nextLine? at given
    split at given
    · rename_i may
      obtain ⟨_, _, rfl⟩ := Option.map_eq_some_iff.1 given
      exact ⟨x.player, List.mem_map.2 ⟨x, mem, by rw [(Bool.and_eq_true_iff.1 may).1]⟩⟩
    · cases given

theorem InOrder.listens_of_login (order : r.InOrder) (login : (id, true, player) ∈ r.logins) :
    r.listens id = true := by
  obtain ⟨x, mem, its⟩ := List.mem_map.1 login
  simp only [Prod.mk.injEq] at its
  obtain ⟨rfl, registered, -⟩ := its
  exact order.listens (List.mem_filter.2 ⟨mem, registered⟩)

end Sessions

namespace Work
open Scheduler

variable {c : Config} {database : Database} {parser : CommandParser} {clock : Instant}
  {s : Scheduler} {w : Work} {session : SessionId} {line : String}

theorem Run.turns_once {ids forgone : List TaskId}
    (run : Run (idle (ofConfig c database parser clock)) ids forgone w) :
    ((w.batch ++ w.server.ready).map Prod.fst).Nodup := by
  obtain ⟨es, -, runs⟩ := run.enters
  exact (runs.keep Register.Step.settled (start_settled c database parser clock)).fair.once

/-- Every line that is handed out and not blank leads to one task, which has its turn in the round
that comes, or to one line that is sent back. -/
theorem startCommands_leads
    (happened : Happenings (idle (ofConfig c database parser clock)) (idle s))
    {before after : List (SessionId × String)}
    (handed : s.sessions.takeInput.1 = before ++ (session, line) :: after)
    (filled : (Text.trim line).isEmpty = false) :
    let s' := before.foldl startCommand { s with sessions := s.sessions.takeInput.2 }
    let c : Caller := ⟨s'.lastTask + 1, s'.commander session, some session⟩
    (∃ d, s.parser (Text.trim line) = .ok d ∧
      s'.Hires c (s'.prepare d).1 (s'.startCommand (session, line)) ∧
        s.startCommands.Starts c (s'.prepare d).1) ∨
    ∃ message, s.parser (Text.trim line) = .error message ∧
      s'.Refuses session ("!! " ++ message) (s'.startCommand (session, line)) := by
  intro s' c
  have taken : Happenings (idle s) (idle { s with sessions := s.sessions.takeInput.2 }) :=
    .single (.turn (.takeLines s []))
  have came : Happenings (idle s) (idle s') := taken.trans
    (Turns.foldl (fun s entry => (Turn.command s [] entry).turns) before _).happenings
  have order : s'.sessions.InOrder :=
    Happenings.inOrder (happened.trans came) (ofConfig_inOrder ..)
  have adds := startAll_adds before { s with sessions := s.sessions.takeInput.2 }
  have ends : s.startCommands = after.foldl startCommand (s'.startCommand (session, line)) := by
    change s.sessions.takeInput.1.foldl startCommand
      { s with sessions := s.sessions.takeInput.2 } = _
    rw [handed, List.foldl_append, List.foldl_cons]
  cases read : s.parser (Text.trim line) with
  | ok d =>
    have hires := s'.startCommand_hires session filled (adds.parser ▸ read)
    have later := startAll_adds after (s'.startCommand (session, line))
    rw [← ends] at later
    obtain ⟨ids, forgone, run⟩ :=
      Happenings.run (happened.trans (startCommands_turns s).happenings)
    have there : s.startCommands.tasks.get? c.task = some
        { player := c.player, session := c.session, description := (s'.prepare d).1.description,
          body := some (s'.prepare d).1, answerable := false } := by
      rw [later.older c.task hires.lastTask.ge, hires.tasks]
      exact (Named.get?_set ..).trans (if_pos rfl)
    have turn : (c.task, .start) ∈ s.startCommands.ready := by
      refine later.ready.subset ?_
      rw [hires.ready]
      exact List.mem_append_right _ (List.mem_singleton_self _)
    have born : c.task ≤ s.startCommands.lastTask := hires.lastTask.ge.trans later.later
    exact .inl ⟨d, rfl, hires, starts born there rfl rfl turn run.turns_once⟩
  | error message =>
    obtain ⟨player, login⟩ := Sessions.login_of_taken
      (handed ▸ List.mem_append_right before (List.mem_cons_self ..) :
        (session, line) ∈ s.sessions.takeInput.1)
    have same : s'.sessions.logins = s.sessions.logins :=
      adds.logins.trans s.sessions.takeInput_logins
    exact .inr ⟨message, rfl, startCommand_refuses filled (adds.parser ▸ read)
      (order.listens_of_login (same ▸ login))⟩

/-- Whatever is done to the sessions in whatever order: the lines of a session that were handed out
are the beginning of those that were pushed, and while it is registered all others wait or are in
the hand of the call under way; each call gives a line of a session at most, in the order of the
sessions, none while input is suspended and none of those that had asked to be disconnected; and a
call that nobody interferes with is one that is done in a single stroke. A server handles each line
that was handed out and is not blank in one of two ways: there is one task more, on behalf of
whoever is logged in on the session then, which is stepped in the round that comes unless it was
killed before its turn; or one line is sent to the session. -/
theorem lines_handed_out_and_heeded :
    (∀ (timeout : Nat) (turns : List Reception.Turn),
      let r := (Reception.start timeout).run turns
      (∀ id, Reception.linesOf id r.handed <+: Reception.linesOf id r.pushed) ∧
      (∀ x ∈ r.sessions.registered, Reception.linesOf x.id r.pushed =
        Reception.linesOf x.id r.handed ++ Reception.linesOf x.id r.inHand ++ x.input) ∧
      (∀ h ∈ r.handouts, h.Fair) ∧
      (r.taking = none → r.closing = none →
        ∀ order, order.Perm (r.sessions.registered.map Session.id) →
          (r.run (Reception.call order)).sessions = r.sessions.takeInput.2 ∧
          ∃ barred, (r.run (Reception.call order)).handouts = r.handouts ++
            [⟨r.sessions.inputSuspended, barred, Reception.inOrder r.sessions.takeInput.1⟩])) ∧
    ∀ (c : Config) (database : Database) (parser : CommandParser) (clock : Instant) (s : Scheduler),
      Happenings (idle (ofConfig c database parser clock)) (idle s) →
      ∀ before session line after,
        s.sessions.takeInput.1 = before ++ (session, line) :: after →
        (Text.trim line).isEmpty = false →
        let s' := before.foldl startCommand { s with sessions := s.sessions.takeInput.2 }
        let c : Caller := ⟨s'.lastTask + 1, s'.commander session, some session⟩
        (∃ d, s.parser (Text.trim line) = .ok d ∧
          s'.Hires c (s'.prepare d).1 (s'.startCommand (session, line)) ∧
            s.startCommands.Starts c (s'.prepare d).1) ∨
        ∃ message, s.parser (Text.trim line) = .error message ∧
          s'.Refuses session ("!! " ++ message) (s'.startCommand (session, line)) := by
  refine ⟨fun timeout turns => ?_, fun c database parser clock s happened before session line after
    handed filled => startCommands_leads happened handed filled⟩
  have sound := Reception.run_sound (Reception.start_sound timeout) turns
  exact ⟨sound.handed_prefix, fun x mem => sound.registered_books mem, sound.fair,
    fun free still order perm => Reception.run_call sound free still perm⟩

def lined (lines : List String) : Scheduler :=
  lines.foldl (fun s line =>
      let id := s.sessions.all.length + 1
      let s := { s with sessions := (Sessions.Visit.enter 0 "peer").carryOut s.sessions }
      { s with
        sessions := (Sessions.Visit.touch id (.pushInput 0 line)).carryOut s.sessions })
    (ofConfig {} (.placeholders 0 [] .absent) Command.read 0)

theorem lined_happenings (lines : List String) :
    Happenings (idle (ofConfig {} (.placeholders 0 [] .absent) Command.read 0))
      (idle (lined lines)) := by
  suffices from_any : ∀ s, Happenings (idle s) (idle (lines.foldl _ s)) from from_any _
  induction lines with
  | nil => exact fun s => .refl
  | cons line lines ih =>
    exact fun s => .trans (.single (.visit s [] none _))
      (.trans (.single (.visit _ [] none _)) (ih _))

def chat : List Reception.Turn :=
  [.hall .number, .hall (.enter 1 0 "peer"), .hall (.touch 1 (.pushInput 0 "one")),
    .hall (.touch 1 (.pushInput 0 "two")), .begin, .collect [1], .look,
    .hall (.touch 1 (.pushInput 0 "three")), .pop, .finish]

theorem lines_handed_out_and_heeded_twice :
    (let r := (Reception.start 0).run chat;
      (∃ x ∈ r.sessions.registered, ["one", "two", "three"] = ["one"] ++ [] ++ x.input) ∧
      ∃ barred, (r.run (Reception.call [1])).handouts =
        r.handouts ++ [⟨false, barred, [(1, "two")]⟩]) ∧
    (let s := lined ["max_background_threads()", "nonsense()"];
      (∃ body, s.startCommands.Starts ⟨1, .nothing, some 1⟩ body) ∧
      let s' := s.sessions.takeInput.1.dropLast.foldl startCommand
        { s with sessions := s.sessions.takeInput.2 }
      ∃ message, s'.Refuses 2 ("!! " ++ message) (s'.startCommand (2, "nonsense()"))) := by
  obtain ⟨handed_out, heeded⟩ := lines_handed_out_and_heeded
  constructor
  · intro r
    obtain ⟨-, books, -, stroke⟩ := handed_out 0 chat
    have ids : r.sessions.registered.map Session.id = [1] := by decide +kernel
    obtain ⟨x, there, its⟩ := List.map_eq_singleton_iff.1 ids
    have mem : x ∈ r.sessions.registered := there ▸ List.mem_singleton_self x
    obtain ⟨-, barred, called⟩ := stroke rfl rfl [1] (ids ▸ .refl _)
    have suspended : r.sessions.inputSuspended = false := by decide +kernel
    have lines : Reception.inOrder r.sessions.takeInput.1 = [(1, "two")] := by decide +kernel
    refine ⟨⟨x, mem, ?_⟩, barred, ?_⟩
    · have pushed : Reception.linesOf 1 r.pushed = ["one", "two", "three"] := by decide +kernel
      have handed : Reception.linesOf 1 r.handed = ["one"] := by decide +kernel
      have in_hand : Reception.linesOf 1 r.inHand = [] := by decide +kernel
      have books := books x mem
      rwa [its, pushed, handed, in_hand] at books
    · rwa [suspended, lines] at called
  · intro s
    have lines : s.sessions.takeInput.1 =
        [(1, "max_background_threads()"), (2, "nonsense()")] := by decide +kernel
    have filled : (Text.trim "max_background_threads()").isEmpty = false ∧
        (Text.trim "nonsense()").isEmpty = false := by decide +kernel
    have known : (s.parser (Text.trim "max_background_threads()")).isOk = true ∧
        (s.parser (Text.trim "nonsense()")).isOk = false := by decide +kernel
    refine ⟨?_, ?_⟩
    · have first := heeded {} _ _ 0 s (lined_happenings _) [] 1 _ [(2, "nonsense()")] lines filled.1
      rcases first with ⟨d, -, -, starts⟩ | ⟨message, read, -⟩
      · exact ⟨_, starts⟩
      · rw [read] at known
        cases known.1
    · have second := heeded {} _ _ 0 s (lined_happenings _) [(1, "max_background_threads()")] 2 _ []
        lines filled.2
      rw [lines]
      rcases second with ⟨d, read, -⟩ | ⟨message, -, refuses⟩
      · rw [read] at known
        cases known.2
      · exact ⟨message, refuses⟩

/-! ## A line that comes to nothing -/

/-- The tasks that were made for a session. -/
def madeFor (session : SessionId) (es : List Event) : List TaskId :=
  es.filterMap fun
    | .created id _ (some its) => if its = session then some id else none
    | _ => none

/-- The tasks that were stepped for the first time. -/
def begun (es : List Event) : List TaskId :=
  es.filterMap fun
    | .stepped id none => some id
    | _ => none

/-- A task that a line led to is killed by the task of another line before its turn: the line leads
neither to a step nor to a message. -/
theorem not_every_line_heeded :
    ¬ ∀ (c : Config) (database : Database) (parser : CommandParser) (clock : Instant)
        (s : Scheduler),
      Happenings (idle (ofConfig c database parser clock)) (idle s) →
      ∀ entry ∈ s.sessions.takeInput.1, (Text.trim entry.2).isEmpty = false →
        (∃ id ∈ madeFor entry.1 s.startCommands.runReady.trace,
          id ∈ begun s.startCommands.runReady.trace) ∨
        s.startCommands.runReady.linesTo entry.1 ≠ s.linesTo entry.1 := by
  intro heeded
  let s := lined ["kill_task(2)", "max_background_threads()"]
  have unheeded : (∀ id ∈ madeFor 2 s.startCommands.runReady.trace,
        id ∉ begun s.startCommands.runReady.trace) ∧
      s.startCommands.runReady.linesTo 2 = s.linesTo 2 := by decide +kernel
  rcases heeded {} _ _ 0 s (lined_happenings _) (2, "max_background_threads()")
    (by decide +kernel) (by decide +kernel) with ⟨id, made, began⟩ | told
  · exact unheeded.1 id made began
  · exact told unheeded.2

end Work
end MooCore
