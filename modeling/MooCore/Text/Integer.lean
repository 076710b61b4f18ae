/-!
# Decimal integers

Writing natural numbers and integers in decimal, and reading them back within bounds. A reader says
why it refused: nothing to read, a character that is no digit, or a value past a bound. Digits are
taken from the left, so the first fault met is the one reported.
-/

set_option autoImplicit false
namespace MooCore.Text

/-- Why a text is not an integer. -/
inductive IntegerFault where
  | empty
  | invalidDigit
  | tooLarge
  | tooSmall
deriving DecidableEq, Repr

def IntegerFault.message : IntegerFault → String
  | .empty => "cannot parse integer from empty string"
  | .invalidDigit => "invalid digit found in string"
  | .tooLarge => "number too large to fit in target type"
  | .tooSmall => "number too small to fit in target type"

def digit? (c : Char) : Option Nat :=
  if 48 ≤ c.toNat ∧ c.toNat ≤ 57 then some (c.toNat - 48) else none

def digitChar (d : Nat) : Char := Char.ofNat (48 + d)

def digits (n : Nat) : List Char :=
  if n < 10 then [digitChar n] else digits (n / 10) ++ [digitChar (n % 10)]
termination_by n
decreasing_by omega

def natText (n : Nat) : String := String.ofList (digits n)

/-- The digits of the magnitude, after a minus sign for a negative number. -/
def integerChars : Int → List Char
  | .ofNat n => digits n
  | .negSucc n => '-' :: digits (n + 1)

def intText (i : Int) : String := String.ofList (integerChars i)

/-- Reads digits on top of `acc`. A character that is no digit is reported before the overflow
that its place would cause; an overflow at an earlier place is reported first. -/
def readDigits (limit : Nat) (tooBig : IntegerFault) : Nat → List Char → Except IntegerFault Nat
  | acc, [] => .ok acc
  | acc, c :: cs =>
    match digit? c with
    | none => .error .invalidDigit
    | some d => if acc * 10 + d ≤ limit then readDigits limit tooBig (acc * 10 + d) cs else .error tooBig

def readMagnitude (limit : Nat) (tooBig : IntegerFault) : List Char → Except IntegerFault Nat
  | [] => .error .invalidDigit
  | cs => readDigits limit tooBig 0 cs

/-- A natural number up to `limit`, with an optional plus sign. -/
def readNat (limit : Nat) : List Char → Except IntegerFault Nat
  | [] => .error .empty
  | '+' :: cs => readMagnitude limit .tooLarge cs
  | cs => readMagnitude limit .tooLarge cs

/-- An integer of 64 bits with an optional sign. -/
def readInt64 : List Char → Except IntegerFault Int64
  | [] => .error .empty
  | '-' :: cs => do
    let n ← readMagnitude 0x8000000000000000 .tooSmall cs
    pure (Int64.ofInt (-(n : Int)))
  | '+' :: cs => do
    let n ← readMagnitude 0x7fffffffffffffff .tooLarge cs
    pure (Int64.ofInt n)
  | cs => do
    let n ← readMagnitude 0x7fffffffffffffff .tooLarge cs
    pure (Int64.ofInt n)

def wordLimit : Nat := 0xffffffffffffffff

end MooCore.Text
