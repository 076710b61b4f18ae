import MooCore.Proofs.Builtin.Effects
import MooCore.Proofs.Scheduler.Chores
/-!
# Holds that are taken for look-ups

A step that takes a hold on a session hands it over at once, with the request of a look-up. Every
function is called in such a step, and one of them looks up.
-/

set_option autoImplicit false
namespace MooCore
open Background

/-- A step that takes a hold only to hand it over with a look-up. It may have taken one already. -/
inductive Act.LooksUp : Option SessionId → Act → Prop
  | complete (v : Value) : LooksUp none (.complete v)
  | abort (message : String) : LooksUp none (.abort message)
  | effect (held : Option SessionId) (e : Effect) (next : e.Answer → Act)
      (other : ∀ session, e ≠ .acquire session) (going_on : ∀ a, LooksUp held (next a)) :
      LooksUp held (.effect e next)
  | acquire (session : SessionId) (next : Bool → Act) (granted : LooksUp (some session) (next true))
      (refused : LooksUp none (next false)) : LooksUp none (.effect (.acquire session) next)
  | background (envelope : Envelope) (callback : Callback) (held : List Value)
      (next : Caller → Input → Act) (careful : Request.Careful { envelope with callback })
      (going_on : ∀ caller input, LooksUp none (next caller input)) :
      LooksUp (held? envelope.extra) (.background envelope callback held next)

def Body.LooksUp (b : Body) : Prop := ∀ caller input, (b.step caller input).LooksUp none

theorem Database.placeholders_looksUp (objects : Nat) (wizards : List Obj)
    (behavior : FinalizerBehavior) : (placeholders objects wizards behavior).All Body.LooksUp := by
  have body (message : Option String) (v : Value) : (finalizerBody message v).LooksUp :=
    fun _ _ => .effect _ _ _ nofun fun _ => .effect _ _ _ nofun fun _ => by
      cases message with
      | none => exact .complete _
      | some message => exact .abort message
  intro v b its
  cases behavior with
  | absent => cases its
  | succeed => exact Option.some.inj its ▸ body none v
  | raise message => exact Option.some.inj its ▸ body (some message) v

namespace Builtin

def brings : Except Raised Outcome → Option SessionId
  | .ok (.background r) => held? r.extra
  | .ok (.value _) | .error _ => none

def Call.Frees {α : Type} (c : Call α) (p : α → Prop) : Prop :=
  ∀ next : Except Raised α → Act, (∀ r, orRaised p r → (next r).LooksUp none) →
    (c next).LooksUp none

theorem Call.Ordinary.frees {α : Type} {c : Call α} {p : α → Prop} (ordinary : c.Ordinary p) :
    c.Frees p :=
  ordinary (Act.LooksUp none) fun e next its going_on =>
    .effect none e next its.not_acquire going_on

section
variable {f : Frame}

theorem connectionNameLookupCall_looksUp (next : Except Raised Outcome → Act)
    (goes_on : ∀ r, orRaised Outcome.Careful r → (next r).LooksUp (brings r)) :
    (connectionNameLookupCall f next).LooksUp none := by
  have error (e : Raised) : (next (.error e)).LooksUp none := goes_on (.error e) trivial
  refine (arity_still f 0 0).ordinary.frees _ fun
    | .error e, _ => error e
    | .ok (), _ => ?_
  dsimp only
  cases f.caller.session with
  | none => exact error _
  | some session =>
    refine .acquire session _ ?_ (error _)
    exact goes_on (.ok (.background (lookup session))) (lookup_careful session)

theorem call_looksUp (next : Except Raised Outcome → Act)
    (goes_on : ∀ r, orRaised Outcome.Careful r → (next r).LooksUp (brings r)) :
    (call f next).LooksUp none := by
  by_cases looks_up : f.builtin = .connectionNameLookup
  · have its : call f = connectionNameLookupCall f := by rw [call, looks_up]
    rw [its]
    exact connectionNameLookupCall_looksUp next goes_on
  · refine (call_ordinary looks_up).frees next fun
      | .error e, _ => goes_on (.error e) trivial
      | .ok (.value v), _ => goes_on (.ok (.value v)) trivial
      | .ok (.background r), ⟨careful, free⟩ => ?_
    have goes := goes_on (.ok (.background r)) careful
    rwa [show brings (.ok (.background r)) = none from free] at goes

end

theorem body_looksUp (b : Builtin) (args : List Value) : (b.body args).LooksUp := by
  intro caller input
  cases input with
  | resume v => exact .complete v
  | start =>
    refine call_looksUp _ fun outcome careful => .effect _ _ _ nofun fun _ => ?_
    rcases outcome with e | v | r
    · exact .abort _
    · exact .complete v
    · refine .background _ _ _ _ careful fun caller input => ?_
      cases input with
      | start => exact .abort _
      | resume v => exact .complete v

end Builtin

theorem Command.read_looksUp : CommandParser.All Body.LooksUp Command.read := by
  intro line d read vs
  unfold Command.read at read
  split at read
  · obtain rfl := Except.ok.inj read
    exact Builtin.body_looksUp _ vs
  · cases read

end MooCore
