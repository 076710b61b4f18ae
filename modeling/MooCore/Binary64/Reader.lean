import MooCore.Binary64
import MooCore.Text.Integer
/-!
# Reading a floating point number

A sign may come first. Then stands one of the words `inf`, `infinity` and `nan` in any mixture of
cases, or a decimal: digits with at most one point among them and at least one digit in all, and
perhaps an exponent. The number read is the one nearest to the decimal.
-/

set_option autoImplicit false
namespace MooCore.Binary64
open Text (digit?)

/-- Why a text is not a number. -/
inductive Fault where
  | empty
  | invalid
deriving DecidableEq, Repr

def Fault.message : Fault → String
  | .empty => "cannot parse float from empty string"
  | .invalid => "invalid float literal"

/-- The digits at the front, their value on top of `acc`, their count, and the rest. -/
def takeDigits (acc count : Nat) : List Char → Nat × Nat × List Char
  | [] => (acc, count, [])
  | c :: cs =>
    match digit? c with
    | some d => takeDigits (acc * 10 + d) (count + 1) cs
    | none => (acc, count, c :: cs)

/-- An unsigned decimal: whole digits, fraction digits and a power of ten. -/
structure Decimal where
  mantissa : Nat
  exponent : Int

/-- Whether a minus sign stands first, and what follows the sign. -/
def takeSign : List Char → Bool × List Char
  | '-' :: cs => (true, cs)
  | '+' :: cs => (false, cs)
  | cs => (false, cs)

/-- What follows the mantissa: nothing, or an exponent with at least one digit. -/
def readExponent : List Char → Option Int
  | [] => some 0
  | e :: cs =>
    if e = 'e' ∨ e = 'E' then
      let (neg, ds) := takeSign cs
      let (n, count, rest) := takeDigits 0 0 ds
      if count = 0 ∨ rest ≠ [] then none else some (if neg then -(n : Int) else n)
    else none

def readDecimal (cs : List Char) : Option Decimal :=
  let (whole, wholeCount, rest) := takeDigits 0 0 cs
  let (mantissa, fracCount, tail) := match rest with
    | '.' :: r => takeDigits whole 0 r
    | r => (whole, 0, r)
  if wholeCount + fracCount = 0 then none
  else (readExponent tail).map fun e => { mantissa, exponent := e - fracCount }

/-- The nearest number. Decimals that are too long on either side of the point for any finite
number are settled by their length, before any power of ten is formed. -/
def ofDecimal (neg : Bool) (d : Decimal) : Binary64 :=
  let length : Int := (Text.digits d.mantissa).length
  if d.mantissa = 0 then zero neg
  else if d.exponent + length > 400 then infinity neg
  else if d.exponent + length < -400 then zero neg
  else if 0 ≤ d.exponent then ofRatio neg (d.mantissa * Nat.pow 10 d.exponent.toNat) 1
  else ofRatio neg d.mantissa (Nat.pow 10 (-d.exponent).toNat)

def lower (c : Char) : Char := c.toLower

def readUnsigned (neg : Bool) (cs : List Char) : Option Binary64 :=
  let word := cs.map lower
  if word = ['i', 'n', 'f'] ∨ word = ['i', 'n', 'f', 'i', 'n', 'i', 't', 'y'] then
    some (infinity neg)
  else if word = ['n', 'a', 'n'] then some (nan neg)
  else (readDecimal cs).map (ofDecimal neg)

def read : List Char → Except Fault Binary64
  | [] => .error .empty
  | cs =>
    let (neg, body) := takeSign cs
    match readUnsigned neg body with
    | some x => .ok x
    | none => .error .invalid

end MooCore.Binary64
