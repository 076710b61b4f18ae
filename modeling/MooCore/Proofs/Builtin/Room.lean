import MooCore.Proofs.Builtin.Effects
import MooCore.Proofs.Scheduler.Chores
/-!
# Calls leave room for a thread

The limit on background threads is set by one function, which raises an error for a limit of none.
So no call, whoever makes it and whatever it is given, sets a limit that leaves no room for a
thread.
-/

set_option autoImplicit false
namespace MooCore
open Background

/-- A limit that is set leaves room for a thread. -/
def Effect.LeavesRoom : Effect → Prop
  | .setMaxThreads n => 1 ≤ n
  | _ => True

theorem Effect.Ordinary.leavesRoom {e : Effect} (its : e.Ordinary) : e.LeavesRoom := by
  cases e <;> first | exact its | trivial

/-- A step all of whose effects are as given, now and after work in the background. -/
inductive Act.Does (p : Effect → Prop) : Act → Prop where
  | complete (v : Value) : Does p (.complete v)
  | abort (message : String) : Does p (.abort message)
  | effect (e : Effect) (next : e.Answer → Act) (its : p e) (going_on : ∀ a, Does p (next a)) :
      Does p (.effect e next)
  | background (envelope : Envelope) (callback : Callback) (held : List Value)
      (next : Caller → Input → Act) (going_on : ∀ caller input, Does p (next caller input)) :
      Does p (.background envelope callback held next)

def Body.Does (p : Effect → Prop) (b : Body) : Prop := ∀ caller input, (b.step caller input).Does p

/-- A body that sets no limit that leaves no room for a thread. -/
abbrev Body.LeavesRoom : Body → Prop := Body.Does Effect.LeavesRoom

theorem Database.placeholders_leavesRoom (objects : Nat) (wizards : List Obj)
    (behavior : FinalizerBehavior) :
    (placeholders objects wizards behavior).All Body.LeavesRoom := by
  have body (message : Option String) (v : Value) : (finalizerBody message v).LeavesRoom :=
    fun _ _ => .effect _ _ trivial fun _ => .effect _ _ trivial fun _ => by
      cases message with
      | none => exact .complete _
      | some message => exact .abort message
  intro v b its
  cases behavior with
  | absent => cases its
  | succeed => exact Option.some.inj its ▸ body none v
  | raise message => exact Option.some.inj its ▸ body (some message) v

namespace Builtin

theorem call_leavesRoom (f : Frame) (next : Except Raised Outcome → Act)
    (goes_on : ∀ r, (next r).Does Effect.LeavesRoom) : (call f next).Does Effect.LeavesRoom := by
  have carries (e : Effect) (next : e.Answer → Act) (its : e.Ordinary)
      (going_on : ∀ a, (next a).Does Effect.LeavesRoom) :
      (Act.effect e next).Does Effect.LeavesRoom := .effect e next its.leavesRoom going_on
  by_cases looks_up : f.builtin = .connectionNameLookup
  · have its : call f = connectionNameLookupCall f := by rw [call, looks_up]
    rw [its]
    refine (arity_still f 0 0).ordinary _ carries _ fun
      | .error e, _ => goes_on (.error e)
      | .ok (), _ => ?_
    dsimp only
    cases f.caller.session with
    | none => exact goes_on _
    | some session =>
      refine .effect (.acquire session) _ trivial fun granted => ?_
      cases granted with
      | false => exact goes_on _
      | true => exact goes_on _
  · exact call_ordinary looks_up _ carries next fun r _ => goes_on r

/-- Whatever function a task calls, and whatever with, a limit that it sets leaves room for a
thread. -/
theorem body_leavesRoom (b : Builtin) (args : List Value) : (b.body args).LeavesRoom := by
  intro caller input
  cases input with
  | resume v => exact .complete v
  | start =>
    refine call_leavesRoom _ _ fun outcome => .effect _ _ trivial fun _ => ?_
    rcases outcome with e | v | r
    · exact .abort _
    · exact .complete v
    · refine .background _ _ _ _ fun caller input => ?_
      cases input with
      | start => exact .abort _
      | resume v => exact .complete v

end Builtin

theorem Command.read_leavesRoom : CommandParser.All Body.LeavesRoom Command.read := by
  intro line d read vs
  unfold Command.read at read
  split at read
  · obtain rfl := Except.ok.inj read
    exact Builtin.body_leavesRoom _ vs
  · cases read

end MooCore
