import MooCore.Binary64
import MooCore.Text.Integer
/-!
# Writing a floating point number

The fewest decimal digits that read back as the number, and among those the nearest; of two
equally near, the larger. Magnitudes from one ten-thousandth up to below 10^16 are written
positionally with at least one digit after the point, all others with an exponent.
-/

set_option autoImplicit false
namespace MooCore.Binary64
open Text (digits)

/-- The interval of values that round to a positive finite number, in units of half the smallest
positive number, and whether its ends belong to it. -/
structure Span where
  low : Nat
  mid : Nat
  high : Nat
  closed : Bool

def span (x : Binary64) : Span :=
  let sig := x.significand
  let step := 1 <<< x.scale
  let below := if x.fractionBits = 0 ∧ 1 < x.exponentBits then step / 2 else step
  { low := 2 * sig * step - below, mid := 2 * sig * step, high := 2 * sig * step + step
    closed := sig % 2 == 0 }

def Span.holds (s : Span) (num den : Nat) : Bool :=
  if s.closed then s.low * den ≤ num && num ≤ s.high * den
  else s.low * den < num && num < s.high * den

/-- The least `k` with the number below `10 ^ k`, counted so that it may be negative: the
place of the leading digit. `half` is the unit of the span. -/
def leadingPlace (mid half : Nat) : Int :=
  if half ≤ mid then (digits (mid / half)).length
  else
    let inverse := (half + mid - 1) / mid
    let k := (digits inverse).length
    if mid * Nat.pow 10 (k - 1) < half then 1 - (k : Int) else 2 - (k : Int)

/-- The grid of decimals with a digit at place `unit` and none below: the neighbour of the number
on it that rounds to the number and is nearest, if there is one. -/
def onGrid (s : Span) (half : Nat) (unit : Int) : Option Nat :=
  let up := if 0 ≤ unit then Nat.pow 10 unit.toNat * half else half
  let down := if 0 ≤ unit then 1 else Nat.pow 10 (-unit).toNat
  let q := s.mid * down / up
  let r := s.mid * down % up
  let fits (n : Nat) : Bool := s.holds (n * up) down
  if r = 0 then some q
  else if fits q && fits (q + 1) then some (if 2 * r < up then q else q + 1)
  else if fits (q + 1) then some (q + 1)
  else if fits q then some q
  else none

def search (s : Span) (half : Nat) (place : Int) : Nat → Nat → Nat × Int
  | _, 0 => (0, 0)
  | count, fuel + 1 =>
    match onGrid s half (place - count) with
    | some n => (n, place - count)
    | none => search s half place (count + 1) fuel

def dropZeros (n : Nat) (e : Int) : Nat → Nat × Int
  | 0 => (n, e)
  | fuel + 1 => if n % 10 = 0 ∧ n ≠ 0 then dropZeros (n / 10) (e + 1) fuel else (n, e)

/-- The shortest decimal `n * 10 ^ e` that reads back as a positive finite number. -/
def shortest (x : Binary64) : Nat × Int :=
  let half := 1 <<< 1075
  let s := x.span
  let (n, e) := search s half (leadingPlace s.mid half) 1 20
  dropZeros n e 20

def zeros (n : Nat) : List Char := List.replicate n '0'

/-- Positional notation with at least one digit after the point. -/
def positional (ds : List Char) (e : Int) : List Char :=
  if 0 ≤ e then ds ++ zeros e.toNat ++ ['.', '0']
  else
    let places := (-e).toNat
    if places < ds.length then
      ds.take (ds.length - places) ++ '.' :: ds.drop (ds.length - places)
    else '0' :: '.' :: zeros (places - ds.length) ++ ds

/-- One digit, a point and the others if there are others, and the exponent. -/
def scientific (ds : List Char) (e : Int) : List Char :=
  let exponent := Text.integerChars (e + (ds.length - 1 : Nat))
  match ds with
  | [] => []
  | [d] => d :: 'e' :: exponent
  | d :: rest => d :: '.' :: rest ++ 'e' :: exponent

def unsignedChars (x : Binary64) : List Char :=
  if x.isZero then ['0', '.', '0']
  else
    let (n, e) := x.shortest
    let ds := digits n
    let place := e + ds.length
    if -4 < place ∧ place ≤ 16 then positional ds e else scientific ds e

def chars (x : Binary64) : List Char :=
  if x.isNaN then ['N', 'a', 'N']
  else
    let body := if x.isInfinite then ['i', 'n', 'f'] else x.unsignedChars
    if x.negative then '-' :: body else body

def text (x : Binary64) : String := String.ofList x.chars

end MooCore.Binary64
