import MooCore.Builtin
import MooCore.Task.Body
/-!
# Calling a built-in function

A call has effects and ends with a result or raises an error. What it is given and by whom is in
its frame; the checks on that raise errors that name the function.
-/

set_option autoImplicit false
namespace MooCore.Builtin

/-- An error that a function raises, with a message or without. -/
structure Raised where
  code : ErrorCode
  message : Option String := none
deriving DecidableEq, Repr

def Raised.text (r : Raised) : String :=
  match r.message with
  | none => r.code.name
  | some message => r.code.name ++ ": " ++ message

/-- A result, or work in the background whose result it is. -/
inductive Outcome where
  | value (v : Value)
  | background (r : Background.Request)

def Call (α : Type) : Type := (Except Raised α → Act) → Act

namespace Call
variable {α β : Type}

def pure (a : α) : Call α := fun next => next (.ok a)

def bind (c : Call α) (f : α → Call β) : Call β := fun next =>
  c fun
    | .ok a => f a next
    | .error e => next (.error e)

instance : Monad Call where
  pure := Call.pure
  bind := Call.bind

def raise (code : ErrorCode) (message : Option String := none) : Call α := fun next =>
  next (.error { code, message })

def ask (e : Effect) : Call e.Answer := fun next => .effect e fun a => next (.ok a)

def make (s : Shape) : Call Outcome := do
  let v ← ask (.make (.shape s))
  return .value v

end Call

structure Frame where
  builtin : Builtin
  caller : Caller
  args : List Value

namespace Frame
open Text (natText)

def arity (f : Frame) (min max : Nat) : Call Unit :=
  let n := f.args.length
  if min ≤ n ∧ n ≤ max then return ()
  else Call.raise .args <| some <| String.join
    [f.builtin.title, " takes ", natText min, " to ", natText max, " arguments, got ", natText n]

def checkWizard (f : Frame) : Call Unit := do
  if ← Call.ask (.isWizard f.caller.player) then return ()
  else Call.raise .perm (some (f.builtin.title ++ " requires the caller to be a wizard"))

def arg (f : Frame) (i : Nat) : Value := f.args.getD i .none

def wrongType {α : Type} (f : Frame) (i : Nat) (wanted : String) : Call α :=
  Call.raise .type <| some <| String.join
    [f.builtin.title, " argument ", natText (i + 1), " must be ", wanted]

def stringArg (f : Frame) (i : Nat) : Call String :=
  match f.arg i with
  | .str _ s => return s
  | _ => f.wrongType i "a string"

def intArg (f : Frame) (i : Nat) : Call Int64 :=
  match f.arg i with
  | .int n => return n
  | _ => f.wrongType i "an integer"

def objArg (f : Frame) (i : Nat) : Call Obj :=
  match f.arg i with
  | .obj o => return o
  | _ => f.wrongType i "an object"

def has (f : Frame) (i : Nat) : Bool := i < f.args.length

def stringArg? (f : Frame) (i : Nat) : Call (Option String) :=
  if f.has i then do
    let s ← f.stringArg i
    return some s
  else return none

end Frame
end MooCore.Builtin
