import MooCore.Builtin.Task
/-!
# What a call may do without a wizard's rights

A step is humble if it does nothing that takes a wizard's rights, as long as what it is told of
wizards and of owners is true. Every function, called by a player who is no wizard, takes a humble
step, because it checks before it acts; the functions that list background threads end such a step
with an error.
-/

set_option autoImplicit false
namespace MooCore

/-- Who is a wizard, and who owns which task. -/
structure Standing where
  wizard : Obj → Bool
  owner : TaskId → Option Obj

/-- Whether an effect takes no wizard's rights: nobody becomes a wizard, no wizard's task is killed,
and the server and its limits are left alone. -/
def Effect.Allowed (standing : Standing) : Effect → Prop
  | .login _ player => standing.wizard player = false
  | .kill task => ∀ player, standing.owner task = some player → standing.wizard player = false
  | .setMaxThreads _ | .setThreading _ | .requestCheckpoint _ | .requestShutdown _ => False
  | _ => True

def Effect.isHarmless : Effect → Bool
  | .login .. | .kill _ | .setMaxThreads _ | .setThreading _ | .requestCheckpoint _
  | .requestShutdown _ => false
  | _ => true

def Effect.Truthful (standing : Standing) : (e : Effect) → e.Answer → Prop
  | .isWizard player, a => a = standing.wizard player
  | .owner task, a => a = standing.owner task
  | _, _ => True

namespace Act

/-- Only allowed things are done until the step comes to one of the given acts. -/
inductive Until (standing : Standing) (goal : Act → Prop) : Act → Prop where
  | here {act : Act} (reached : goal act) : Until standing goal act
  | effect (e : Effect) (next : e.Answer → Act) (allowed : e.Allowed standing)
      (going_on : ∀ a, e.Truthful standing a → Until standing goal (next a)) :
      Until standing goal (.effect e next)

/-- A step that takes no wizard's rights, now or after work in the background; by then tasks may
have come and gone. -/
inductive Humble (wizard : Obj → Bool) : (TaskId → Option Obj) → Act → Prop where
  | complete (owner : TaskId → Option Obj) (v : Value) : Humble wizard owner (.complete v)
  | abort (owner : TaskId → Option Obj) (message : String) : Humble wizard owner (.abort message)
  | effect (owner : TaskId → Option Obj) (e : Effect) (next : e.Answer → Act)
      (allowed : e.Allowed ⟨wizard, owner⟩)
      (going_on : ∀ a, e.Truthful ⟨wizard, owner⟩ a → Humble wizard owner (next a)) :
      Humble wizard owner (.effect e next)
  | background (owner : TaskId → Option Obj) (envelope : Background.Envelope)
      (callback : Background.Callback) (held : List Value) (next : Caller → Input → Act)
      (going_on : ∀ caller input owner', Humble wizard owner' (next caller input)) :
      Humble wizard owner (.background envelope callback held next)

def Fails (act : Act) : Prop := ∃ message, act = .abort message

variable {wizard : Obj → Bool} {owner : TaskId → Option Obj}

theorem Humble.next {e : Effect} {next : e.Answer → Act}
    (humble : (Act.effect e next).Humble wizard owner) :
    e.Allowed ⟨wizard, owner⟩ ∧
      ∀ a, e.Truthful ⟨wizard, owner⟩ a → (next a).Humble wizard owner := by
  cases humble with
  | effect _ _ _ allowed going_on => exact ⟨allowed, going_on⟩

theorem Humble.resumed {envelope : Background.Envelope} {callback : Background.Callback}
    {held : List Value} {next : Caller → Input → Act}
    (humble : (Act.background envelope callback held next).Humble wizard owner) :
    ∀ caller input owner', (next caller input).Humble wizard owner' := by
  cases humble with
  | background _ _ _ _ _ going_on => exact going_on

theorem Until.next {standing : Standing} {e : Effect} {next : e.Answer → Act}
    (fails : (Act.effect e next).Until standing Fails) :
    ∀ a, e.Truthful standing a → (next a).Until standing Fails := by
  cases fails with
  | here reached => exact nomatch reached
  | effect _ _ _ going_on => exact going_on

theorem Until.not_complete {standing : Standing} {v : Value} :
    ¬ (Act.complete v).Until standing Fails := by
  rintro ⟨⟨_, ⟨⟩⟩⟩

theorem Until.not_background {standing : Standing} {envelope : Background.Envelope}
    {callback : Background.Callback} {held : List Value} {next : Caller → Input → Act} :
    ¬ (Act.background envelope callback held next).Until standing Fails := by
  rintro ⟨⟨_, ⟨⟩⟩⟩

theorem Until.humble {standing : Standing} {act : Act}
    (steps : act.Until standing (Humble standing.wizard standing.owner)) :
    act.Humble standing.wizard standing.owner := by
  induction steps with
  | here reached => exact reached
  | effect e next allowed _ ih => exact .effect _ e next allowed ih

/-- A step that does nothing that only functions called by a wizard do, whatever it is told. -/
inductive Inert : Act → Prop where
  | complete (v : Value) : Inert (.complete v)
  | abort (message : String) : Inert (.abort message)
  | effect (e : Effect) (next : e.Answer → Act) (harmless : e.isHarmless = true)
      (going_on : ∀ a, Inert (next a)) : Inert (.effect e next)
  | background (envelope : Background.Envelope) (callback : Background.Callback)
      (held : List Value) (next : Caller → Input → Act)
      (going_on : ∀ caller input, Inert (next caller input)) :
      Inert (.background envelope callback held next)

theorem Inert.humble {act : Act} (inert : act.Inert) (wizard : Obj → Bool)
    (owner : TaskId → Option Obj) : act.Humble wizard owner := by
  induction inert generalizing owner with
  | complete v => exact .complete owner v
  | abort message => exact .abort owner message
  | effect e next harmless _ ih =>
    refine .effect owner e next ?_ fun a _ => ih a owner
    cases e <;> trivial
  | background envelope callback held next _ ih =>
    exact .background owner envelope callback held next fun caller input owner' =>
      ih caller input owner'

end Act

def Body.Inert (b : Body) : Prop := ∀ caller input, (b.step caller input).Inert

/-! ## Calls -/

namespace Builtin

/-- A part of a call does nothing: it comes to a result or to an error at once. -/
def Call.Still {α : Type} (c : Call α) : Prop := ∃ r, ∀ next, c next = next r

namespace Call.Still
variable {α β : Type} {c : Call α}

theorem pure (a : α) : Call.Still (Pure.pure a : Call α) := ⟨.ok a, fun _ => rfl⟩

theorem raise (code : ErrorCode) (message : Option String) :
    (Call.raise code message : Call α).Still := ⟨.error _, fun _ => rfl⟩

theorem bind {f : α → Call β} (first : c.Still) (second : ∀ a, (f a).Still) :
    Call.Still (c >>= f) := by
  obtain ⟨outcome, at_once⟩ := first
  cases outcome with
  | error e => exact ⟨.error e, fun next => at_once _⟩
  | ok a =>
    obtain ⟨r, then_at_once⟩ := second a
    exact ⟨r, fun next => (at_once _).trans (then_at_once next)⟩

end Call.Still

/-! ### Checks of arguments -/

section
variable (f : Frame) (i : Nat)

theorem arity_still (min max : Nat) : (f.arity min max).Still := by
  unfold Frame.arity
  dsimp only
  split
  · exact .pure _
  · exact .raise _ _

theorem stringArg_still : (f.stringArg i).Still := by
  unfold Frame.stringArg
  split
  · exact .pure _
  · exact .raise _ _

theorem intArg_still : (f.intArg i).Still := by
  unfold Frame.intArg
  split
  · exact .pure _
  · exact .raise _ _

theorem objArg_still : (f.objArg i).Still := by
  unfold Frame.objArg
  split
  · exact .pure _
  · exact .raise _ _

theorem stringArg?_still : (f.stringArg? i).Still := by
  unfold Frame.stringArg?
  split
  · exact (stringArg_still f i).bind fun _ => .pure _
  · exact .pure _

end

/-! ### What is allowed -/

def Call.Within {α : Type} (standing : Standing) (c : Call α) (out : Except Raised α → Prop) :
    Prop :=
  ∀ (goal : Act → Prop) (next : Except Raised α → Act),
    (∀ r, out r → (next r).Until standing goal) → (c next).Until standing goal

def orRaised {α : Type} (p : α → Prop) : Except Raised α → Prop
  | .ok a => p a
  | .error _ => True

namespace Call.Within
variable {α β : Type} {standing : Standing} {c : Call α}

theorem pure {p : α → Prop} {a : α} (its : p a) :
    Call.Within standing (Pure.pure a : Call α) (orRaised p) :=
  fun _ _ goes_on => goes_on _ its

theorem raise (p : α → Prop) (code : ErrorCode) (message : Option String) :
    Call.Within standing (Call.raise code message : Call α) (orRaised p) :=
  fun _ _ goes_on => goes_on _ trivial

theorem bind {f : α → Call β} {p : α → Prop} {q : β → Prop}
    (first : c.Within standing (orRaised p))
    (second : ∀ a, p a → (f a).Within standing (orRaised q)) :
    Call.Within standing (c >>= f) (orRaised q) := fun goal next goes_on =>
  first goal _ fun
    | .ok a, its => second a its goal next goes_on
    | .error _, _ => goes_on _ trivial

theorem mono {p q : α → Prop} (within : c.Within standing (orRaised p)) (less : ∀ a, p a → q a) :
    c.Within standing (orRaised q) := fun goal next goes_on =>
  within goal next fun
    | .ok a, its => goes_on _ (less a its)
    | .error _, _ => goes_on _ trivial

theorem ask (e : Effect) (allowed : e.Allowed standing) :
    (Call.ask e).Within standing (orRaised (e.Truthful standing)) := fun _ _ goes_on =>
  .effect e _ allowed fun a truthful => goes_on (.ok a) truthful

theorem make (s : Shape) : (Call.make s).Within standing (orRaised fun _ => True) :=
  (ask (.make (.shape s)) trivial).bind fun _ _ => pure trivial

end Call.Within

theorem Call.Still.within {α : Type} {c : Call α} {standing : Standing} (still : c.Still) :
    c.Within standing (orRaised fun _ => True) := by
  obtain ⟨outcome, at_once⟩ := still
  intro goal next goes_on
  rw [at_once]
  exact goes_on outcome (by cases outcome <;> trivial)

/-! ### Functions -/

/-- The functions that list the background threads. -/
def listsThreads : Builtin → Bool
  | threads | backgroundTasks => true
  | _ => false

section
variable {standing : Standing} {f : Frame}

theorem checkWizard_within (no_wizard : standing.wizard f.caller.player = false) :
    f.checkWizard.Within standing (orRaised fun _ => False) := by
  unfold Frame.checkWizard
  refine (Call.Within.ask (.isWizard f.caller.player) trivial).bind fun a truthful => ?_
  change a = standing.wizard f.caller.player at truthful
  rw [truthful, no_wizard]
  exact .raise _ _ _

theorem backgroundTestCall_within :
    (backgroundTestCall f).Within standing (orRaised fun _ => True) := by
  unfold backgroundTestCall
  refine (arity_still f 0 2).within.bind fun _ _ => (stringArg?_still f 0).within.bind fun _ _ => ?_
  extract_lets go_on
  have waits (seconds : Int64) : (go_on seconds).Within standing (orRaised fun _ => True) := by
    dsimp only [go_on]
    split
    · exact .raise _ _ _
    · exact (Call.Within.ask (.make _) trivial).bind fun _ _ => .pure trivial
  have five : Call.Within standing (pure 5 : Call Int64) (orRaised fun _ => True) := .pure trivial
  split
  · exact (intArg_still f 1).within.bind fun seconds _ => waits seconds
  · exact five.bind fun seconds _ => waits seconds

theorem stringHashCall_within :
    (stringHashCall f).Within standing (orRaised fun _ => True) :=
  (arity_still f 1 1).within.bind fun _ _ => (stringArg_still f 0).within.bind fun _ _ =>
    (Call.Within.ask (.make _) trivial).bind fun _ _ => .pure trivial

theorem connectionNameLookupCall_within :
    (connectionNameLookupCall f).Within standing (orRaised fun _ => True) := by
  unfold connectionNameLookupCall
  refine (arity_still f 0 0).within.bind fun _ _ => ?_
  split
  · exact .raise _ _ _
  · refine (Call.Within.ask (.acquire _) trivial).bind fun _ _ => ?_
    split
    · exact .pure trivial
    · exact .raise _ _ _

theorem threadsCall_within (no_wizard : standing.wizard f.caller.player = false) :
    (threadsCall f).Within standing (orRaised fun _ => False) :=
  (arity_still f 0 0).within.bind fun _ _ => (checkWizard_within no_wizard).bind nofun

theorem backgroundTasksCall_within (no_wizard : standing.wizard f.caller.player = false) :
    (backgroundTasksCall f).Within standing (orRaised fun _ => False) :=
  (arity_still f 0 0).within.bind fun _ _ => (checkWizard_within no_wizard).bind nofun

theorem maxBackgroundThreadsCall_within :
    (maxBackgroundThreadsCall f).Within standing (orRaised fun _ => True) :=
  (arity_still f 0 0).within.bind fun _ _ => (Call.Within.ask .maxThreads trivial).bind fun _ _ =>
    .make _

theorem newWaifCall_within : (newWaifCall f).Within standing (orRaised fun _ => True) :=
  (arity_still f 1 1).within.bind fun _ _ => (objArg_still f 0).within.bind fun _ _ =>
    (Call.Within.ask .newId trivial).bind fun _ _ => .make _

theorem createAnonymousCall_within :
    (createAnonymousCall f).Within standing (orRaised fun _ => True) :=
  (arity_still f 1 1).within.bind fun _ _ => (objArg_still f 0).within.bind fun _ _ =>
    (Call.Within.ask .newId trivial).bind fun _ _ => .make _

theorem finalizationStatsCall_within :
    (finalizationStatsCall f).Within standing (orRaised fun _ => True) :=
  (arity_still f 0 0).within.bind fun _ _ => (Call.Within.ask .queueStats trivial).bind fun _ _ =>
    .make _

theorem checked_within {α : Type} {go_on : Unit → Call α} {p : α → Prop}
    (no_wizard : standing.wizard f.caller.player = false) :
    (f.checkWizard >>= go_on).Within standing (orRaised p) :=
  (checkWizard_within no_wizard).bind nofun

theorem killTaskCall_within (no_wizard : standing.wizard f.caller.player = false) :
    (killTaskCall f).Within standing (orRaised fun _ => True) := by
  unfold killTaskCall
  refine (arity_still f 1 1).within.bind fun _ _ => (intArg_still f 0).within.bind fun task _ => ?_
  split
  · exact .raise _ _ _
  · dsimp only
    refine (Call.Within.ask (.owner _) trivial).bind fun owner truthful => ?_
    split
    · exact .raise _ _ _
    · rename_i player
      split
      · exact checked_within no_wizard
      · rename_i own
        rw [ne_eq, Decidable.not_not] at own
        refine (Call.Within.ask (.kill _) fun player' its => ?_).bind fun _ _ => .pure trivial
        have one : some player' = some player := its.symm.trans truthful.symm
        rw [Option.some.inj one, own]
        exact no_wizard

theorem connectCall_within (no_wizard : standing.wizard f.caller.player = false) :
    (connectCall f).Within standing (orRaised fun _ => True) := by
  unfold connectCall
  refine (arity_still f 1 1).within.bind fun _ _ =>
    (objArg_still f 0).within.bind fun player _ => ?_
  split
  · exact .raise _ _ _
  · split
    · exact .raise _ _ _
    · rename_i session _
      extract_lets go_on
      have logs_in (mortal : standing.wizard player = false) :
          (go_on ()).Within standing (orRaised fun _ => True) := by
        refine (Call.Within.ask (.login session player) mortal).bind fun done _ => ?_
        split
        · exact .pure trivial
        · exact .raise _ _ _
      split
      · refine (Call.Within.ask (.isWizard player) trivial).bind fun wizard truthful => ?_
        change wizard = standing.wizard player at truthful
        split
        · exact checked_within no_wizard
        · rename_i mortal
          exact logs_in (by simpa [truthful] using mortal)
      · rename_i same
        rw [ne_eq, Decidable.not_not] at same
        exact logs_in (same ▸ no_wizard)

/-- Every function, called by a player who is no wizard, does only what is allowed, and one that
lists the background threads raises an error. -/
theorem call_within (no_wizard : standing.wizard f.caller.player = false) :
    (call f).Within standing (orRaised fun _ => f.builtin.listsThreads = false) := by
  have free {c : Call Outcome} (within : c.Within standing (orRaised fun _ => True))
      {b : Builtin} (other : b.listsThreads = false) :
      c.Within standing (orRaised fun _ => b.listsThreads = false) :=
    within.mono fun _ _ => other
  have none {c : Call Outcome} (within : c.Within standing (orRaised fun _ => False))
      {b : Builtin} : c.Within standing (orRaised fun _ => b.listsThreads = false) :=
    within.mono fun _ never => never.elim
  unfold call
  cases f.builtin with
  | backgroundTest => exact free backgroundTestCall_within rfl
  | stringHash => exact free stringHashCall_within rfl
  | connectionNameLookup => exact free connectionNameLookupCall_within rfl
  | threads => exact none (threadsCall_within no_wizard)
  | backgroundTasks => exact none (backgroundTasksCall_within no_wizard)
  | setThreadMode =>
    exact none ((arity_still f 1 1).within.bind fun _ _ => checked_within no_wizard)
  | setMaxBackgroundThreads =>
    exact none ((arity_still f 1 1).within.bind fun _ _ => checked_within no_wizard)
  | maxBackgroundThreads => exact free maxBackgroundThreadsCall_within rfl
  | checkpoint => exact none ((arity_still f 0 0).within.bind fun _ _ => checked_within no_wizard)
  | shutdown => exact none ((arity_still f 0 1).within.bind fun _ _ => checked_within no_wizard)
  | killTask => exact free (killTaskCall_within no_wizard) rfl
  | connect => exact free (connectCall_within no_wizard) rfl
  | newWaif => exact free newWaifCall_within rfl
  | createAnonymous => exact free createAnonymousCall_within rfl
  | finalizationStats => exact free finalizationStatsCall_within rfl

/-! ### Tasks that call a function -/

theorem resumed_humble (b : Builtin) (wizard : Obj → Bool) (owner : TaskId → Option Obj)
    (caller : Caller) (input : Input) : (b.resumed caller input).Humble wizard owner := by
  cases input with
  | start => exact .abort owner _
  | resume v => exact .complete owner v

theorem respond_humble (b : Builtin) (wizard : Obj → Bool) (owner : TaskId → Option Obj)
    (outcome : Except Raised Outcome) : (b.respond outcome).Humble wizard owner := by
  rcases outcome with e | v | r
  · exact .abort owner _
  · exact .complete owner v
  · exact .background owner _ _ _ _ fun caller input owner' =>
      b.resumed_humble wizard owner' caller input

theorem body_humble (b : Builtin) (args : List Value) {wizard : Obj → Bool}
    {owner : TaskId → Option Obj} {caller : Caller} (no_wizard : wizard caller.player = false)
    (input : Input) : ((b.body args).step caller input).Humble wizard owner := by
  cases input with
  | start =>
    let standing : Standing := ⟨wizard, owner⟩
    have within : (call { builtin := b, caller, args }).Within standing _ := call_within no_wizard
    refine Act.Until.humble (within (Act.Humble wizard owner) _ fun outcome _ => ?_)
    refine .effect (.release args) _ trivial fun _ _ => .here ?_
    exact b.respond_humble wizard owner outcome
  | resume v => exact .complete owner v

theorem body_fails {b : Builtin} (lists : b.listsThreads = true) (args : List Value)
    {standing : Standing} {caller : Caller} (no_wizard : standing.wizard caller.player = false) :
    ((b.body args).step caller .start).Until standing Act.Fails := by
  have within : (call { builtin := b, caller, args }).Within standing _ := call_within no_wizard
  refine within Act.Fails _ fun outcome comes => ?_
  refine .effect (.release args) _ trivial fun _ _ => .here ?_
  cases outcome with
  | error e => exact ⟨_, rfl⟩
  | ok outcome => exact absurd (lists.symm.trans comes) nofun

end

end Builtin
end MooCore
