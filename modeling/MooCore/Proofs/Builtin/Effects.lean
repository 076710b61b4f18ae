import MooCore.Builtin.Task
import MooCore.Proofs.Background.Lending
import MooCore.Proofs.Builtin.Humble
/-!
# What functions do

Every function but the look-up has ordinary effects only: it takes no hold on a session, sends
nothing and sets no limit of no threads; and work that it asks for brings no session along.
-/

set_option autoImplicit false
namespace MooCore
open Background

def Effect.Ordinary : Effect → Prop
  | .acquire _ | .send .. | .push .. | .disconnect _ | .tryMake _ | .keep _ | .workspace _
  | .remark _ => False
  | .setMaxThreads n => 1 ≤ n
  | .requestCheckpoint reason => reason = .explicit
  | _ => True

theorem Effect.Ordinary.not_acquire {e : Effect} (its : e.Ordinary) :
    ∀ session, e ≠ .acquire session := by
  rintro session rfl
  exact its

namespace Builtin

def Outcome.Careful : Outcome → Prop
  | .value _ => True
  | .background r => r.Careful

def Outcome.Free : Outcome → Prop
  | .value _ => True
  | .background r => r.Careful ∧ held? r.extra = none

/-- A part of a call has ordinary effects only and comes to a result as given or to an error: what
carries over to a step from what comes after such an effect carries over to the part from what comes
after it. -/
def Call.Ordinary {α : Type} (c : Call α) (p : α → Prop) : Prop :=
  ∀ good : Act → Prop,
    (∀ (e : Effect) (next : e.Answer → Act), e.Ordinary → (∀ a, good (next a)) →
      good (.effect e next)) →
    ∀ next : Except Raised α → Act, (∀ r, orRaised p r → good (next r)) → good (c next)

namespace Call.Ordinary
variable {α β : Type} {c : Call α} {p : α → Prop} {q : β → Prop}

theorem pure {a : α} (its : p a) : Call.Ordinary (Pure.pure a : Call α) p :=
  fun _ _ _ goes_on => goes_on (.ok a) its

theorem raise (p : α → Prop) (code : ErrorCode) (message : Option String) :
    (Call.raise code message : Call α).Ordinary p := fun _ _ _ goes_on =>
  goes_on (.error _) trivial

theorem bind {f : α → Call β} (first : c.Ordinary p) (second : ∀ a, p a → (f a).Ordinary q) :
    Call.Ordinary (c >>= f) q := fun good carries next goes_on => first good carries _ fun
  | .ok a, its => second a its good carries next goes_on
  | .error e, _ => goes_on (.error e) trivial

theorem ask (e : Effect) (its : e.Ordinary) :
    (Call.ask e).Ordinary fun _ => True := fun _ carries _ goes_on =>
  carries e _ its fun a => goes_on (.ok a) trivial

theorem make (s : Shape) : (Call.make s).Ordinary Outcome.Free :=
  (ask (.make (.shape s)) trivial).bind fun _ _ => pure trivial

end Call.Ordinary

theorem Call.Still.ordinary {α : Type} {c : Call α} (still : c.Still) :
    c.Ordinary fun _ => True := by
  obtain ⟨outcome, at_once⟩ := still
  intro good carries next goes_on
  rw [at_once]
  exact goes_on outcome (by cases outcome <;> trivial)

/-! ### Functions -/

section
variable {f : Frame}

theorem checkWizard_ordinary : f.checkWizard.Ordinary fun _ => True := by
  unfold Frame.checkWizard
  refine (Call.Ordinary.ask (.isWizard f.caller.player) trivial).bind fun a _ => ?_
  split
  · exact .pure trivial
  · exact .raise _ _ _

theorem waiting_guardless (seconds : Nat) : Callback.Guardless (waiting seconds) := by
  intro handle message
  unfold waiting
  split
  · exact .finish _
  · refine .ask _ _ nofun fun active => ?_
    split
    · exact .finish _
    · exact .ask _ _ nofun fun _ => .ask _ _ nofun fun _ => .finish _

theorem hashing_guardless : Callback.Guardless hashing := by
  intro handle text
  unfold hashing
  split <;> exact .ask _ _ nofun fun _ => .ask _ _ nofun fun _ => .finish _

theorem backgroundTestCall_ordinary : (backgroundTestCall f).Ordinary Outcome.Free := by
  unfold backgroundTestCall
  refine (arity_still f 0 2).ordinary.bind fun _ _ =>
    (stringArg?_still f 0).ordinary.bind fun _ _ => ?_
  extract_lets go_on
  have waits (seconds : Int64) : (go_on seconds).Ordinary Outcome.Free := by
    dsimp only [go_on]
    split
    · exact .raise _ _ _
    · exact (Call.Ordinary.ask (.make _) trivial).bind fun _ _ =>
        .pure ⟨⟨waiting_guardless _, nofun⟩, rfl⟩
  have five : Call.Ordinary (pure 5 : Call Int64) fun _ => True := .pure trivial
  split
  · exact (intArg_still f 1).ordinary.bind fun seconds _ => waits seconds
  · exact five.bind fun seconds _ => waits seconds

theorem stringHashCall_ordinary : (stringHashCall f).Ordinary Outcome.Free :=
  (arity_still f 1 1).ordinary.bind fun _ _ => (stringArg_still f 0).ordinary.bind fun text _ =>
    (Call.Ordinary.ask (.make (.shape (.str text))) trivial).bind fun _ _ =>
      .pure ⟨⟨hashing_guardless, nofun⟩, rfl⟩

theorem killTaskCall_ordinary : (killTaskCall f).Ordinary Outcome.Free := by
  unfold killTaskCall
  refine (arity_still f 1 1).ordinary.bind fun _ _ =>
    (intArg_still f 0).ordinary.bind fun task _ => ?_
  have kill (task : TaskId) :
      Call.Ordinary (Call.ask (.kill task) >>= fun _ => pure (.value .none)) Outcome.Free :=
    (Call.Ordinary.ask (.kill task) trivial).bind fun _ _ => .pure trivial
  split
  · exact .raise _ _ _
  · dsimp only
    refine (Call.Ordinary.ask (.owner _) trivial).bind fun owner _ => ?_
    split
    · exact .raise _ _ _
    · split
      · exact checkWizard_ordinary.bind fun _ _ => kill _
      · exact kill _

theorem connectCall_ordinary : (connectCall f).Ordinary Outcome.Free := by
  unfold connectCall
  refine (arity_still f 1 1).ordinary.bind fun _ _ =>
    (objArg_still f 0).ordinary.bind fun player _ => ?_
  split
  · exact .raise _ _ _
  · split
    · exact .raise _ _ _
    · rename_i session _
      extract_lets go_on
      have logs_in : (go_on ()).Ordinary Outcome.Free := by
        refine (Call.Ordinary.ask (.login session player) trivial).bind fun done _ => ?_
        split
        · exact .pure trivial
        · exact .raise _ _ _
      split
      · refine (Call.Ordinary.ask (.isWizard player) trivial).bind fun wizard _ => ?_
        split
        · exact checkWizard_ordinary.bind fun _ _ => logs_in
        · exact logs_in
      · exact logs_in

theorem setMaxBackgroundThreadsCall_ordinary :
    (setMaxBackgroundThreadsCall f).Ordinary Outcome.Free := by
  refine (arity_still f 1 1).ordinary.bind fun _ _ => checkWizard_ordinary.bind fun _ _ =>
    (intArg_still f 0).ordinary.bind fun max _ => ?_
  split
  · exact .raise _ _ _
  · rename_i positive
    have some_threads : 1 ≤ max.toInt.toNat := by
      have above : 0 < max.toInt := by
        rw [Int64.not_le, Int64.lt_iff_toInt_lt] at positive
        exact positive
      omega
    exact (Call.Ordinary.ask (.setMaxThreads _) some_threads).bind fun _ _ => .make _

/-- Every function but one has ordinary effects only. -/
theorem call_ordinary (other : f.builtin ≠ .connectionNameLookup) :
    (call f).Ordinary Outcome.Free := by
  have checked {α : Type} {go_on : Call α} {p : α → Prop} (after : go_on.Ordinary p) :
      Call.Ordinary (f.checkWizard >>= fun _ => go_on) p :=
    checkWizard_ordinary.bind fun _ _ => after
  have listed : (Call.ask .waiters).Ordinary fun _ => True := .ask .waiters trivial
  unfold call
  split
  · exact backgroundTestCall_ordinary
  · exact stringHashCall_ordinary
  · contradiction
  · exact (arity_still f 0 0).ordinary.bind fun _ _ => checked (listed.bind fun _ _ => .make _)
  · exact (arity_still f 0 0).ordinary.bind fun _ _ => checked (listed.bind fun _ _ => .make _)
  · exact (arity_still f 1 1).ordinary.bind fun _ _ => checked
      ((Call.Ordinary.ask (.setThreading _) trivial).bind fun _ _ => .make _)
  · exact setMaxBackgroundThreadsCall_ordinary
  · exact (arity_still f 0 0).ordinary.bind fun _ _ =>
      (Call.Ordinary.ask .maxThreads trivial).bind fun _ _ => .make _
  · exact (arity_still f 0 0).ordinary.bind fun _ _ => checked
      ((Call.Ordinary.ask (.requestCheckpoint _) rfl).bind fun _ _ => .make _)
  · exact (arity_still f 0 1).ordinary.bind fun _ _ => checked
      ((stringArg?_still f 0).ordinary.bind fun words _ =>
        (Call.Ordinary.ask (.requestShutdown words) trivial).bind fun _ _ => .pure trivial)
  · exact killTaskCall_ordinary
  · exact connectCall_ordinary
  · exact (arity_still f 1 1).ordinary.bind fun _ _ => (objArg_still f 0).ordinary.bind fun _ _ =>
      (Call.Ordinary.ask .newId trivial).bind fun _ _ => .make _
  · exact (arity_still f 1 1).ordinary.bind fun _ _ => (objArg_still f 0).ordinary.bind fun _ _ =>
      (Call.Ordinary.ask .newId trivial).bind fun _ _ => .make _
  · exact (arity_still f 0 0).ordinary.bind fun _ _ =>
      (Call.Ordinary.ask .queueStats trivial).bind fun _ _ => .make _

end

end Builtin
end MooCore
