/-!
# Binary floating point numbers of 64 bits

A number is its bit pattern: a sign, eleven bits of exponent and fifty-two of fraction. Equality is
the arithmetic one, so the two zeros are equal and a number that is not a number equals nothing.
-/

set_option autoImplicit false
namespace MooCore

structure Binary64 where
  bits : UInt64
deriving DecidableEq, Repr

namespace Binary64

def negative (x : Binary64) : Bool := x.bits >>> 63 == 1

def exponentBits (x : Binary64) : Nat := ((x.bits >>> 52) &&& 0x7ff).toNat

def fractionBits (x : Binary64) : Nat := (x.bits &&& 0xfffffffffffff).toNat

def isNaN (x : Binary64) : Bool := x.exponentBits == 0x7ff && x.fractionBits != 0

def isInfinite (x : Binary64) : Bool := x.exponentBits == 0x7ff && x.fractionBits == 0

def isZero (x : Binary64) : Bool := x.exponentBits == 0 && x.fractionBits == 0

def equal (x y : Binary64) : Bool :=
  !x.isNaN && !y.isNaN && (x.bits == y.bits || (x.isZero && y.isZero))

def ofParts (neg : Bool) (magnitude : Nat) : Binary64 :=
  ⟨UInt64.ofNat ((if neg then 1 <<< 63 else 0) + magnitude)⟩

def zero (neg : Bool) : Binary64 := ofParts neg 0
def infinity (neg : Bool) : Binary64 := ofParts neg (0x7ff <<< 52)
def nan (neg : Bool) : Binary64 := ofParts neg (0xfff <<< 51)

/-- A finite magnitude is `significand * 2 ^ scale / 2 ^ 1074`. -/
def significand (x : Binary64) : Nat :=
  if x.exponentBits = 0 then x.fractionBits else (1 <<< 52) + x.fractionBits

def scale (x : Binary64) : Nat := x.exponentBits - 1

/-- Rounds a quotient to the nearest whole number, a half to the even one. -/
def roundHalfEven (num den : Nat) : Nat :=
  let q := num / den
  let r := num % den
  if 2 * r < den then q
  else if den < 2 * r then q + 1
  else if q % 2 = 0 then q else q + 1

/-- The number nearest to `num / den`, for a positive `den`; past the largest finite number,
infinity. A tie goes to the even significand. -/
def ofRatio (neg : Bool) (num den : Nat) : Binary64 :=
  let units := (num <<< 1074) / den
  let shift := if units = 0 then 0 else units.log2 - 52
  let sig := roundHalfEven (num <<< 1074) (den <<< shift)
  let magnitude := if shift = 0 then sig else (shift <<< 52) + sig
  if 0x7ff <<< 52 ≤ magnitude then infinity neg else ofParts neg magnitude

end Binary64
end MooCore
