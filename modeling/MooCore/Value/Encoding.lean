import MooCore.Value
import MooCore.Binary64.Shortest
import MooCore.Text.Integer
/-!
# The written form of values

A value is a run of lines: one with the number of its kind, then its contents. Texts take one line,
in which line feeds and backslashes are escaped. Containers give their length and then their
members one after another. Numbers of anonymous objects and waifs are written as signed integers.
-/

set_option autoImplicit false
namespace MooCore

/-- The kinds of written values. -/
inductive Kind where
  | int | obj | str | err | list | none | float | map | anon | waif
deriving DecidableEq, Repr

namespace Kind

def number : Kind → Nat
  | int => 0
  | obj => 1
  | str => 2
  | err => 3
  | list => 4
  | none => 6
  | float => 9
  | map => 10
  | anon => 12
  | waif => 13

def ofNumber? : Int → Option Kind
  | 0 => some int
  | 1 => some obj
  | 2 => some str
  | 3 => some err
  | 4 => some list
  | 6 => some none
  | 9 => some float
  | 10 => some map
  | 12 => some anon
  | 13 => some waif
  | _ => Option.none

theorem ofNumber_number (k : Kind) : ofNumber? k.number = some k := by cases k <;> rfl

end Kind

/-- An identity number as it is written: the signed integer of the same bits. -/
def signedId (id : UInt64) : Int := id.toInt64.toInt

namespace Shape
open Text (integerChars digits)

def escapeLine (c : Char) : List Char :=
  if c = '\\' then ['\\', '\\'] else if c = '\n' then ['\\', 'n'] else [c]

def kindLine (k : Kind) : List Char := digits k.number

mutual

def lines : Shape → List (List Char)
  | none => [kindLine .none]
  | int n => [kindLine .int, integerChars n.toInt]
  | float x => [kindLine .float, x.chars]
  | obj o => [kindLine .obj, integerChars o.number.toInt]
  | err e => [kindLine .err, digits e.number]
  | str s => [kindLine .str, s.toList.flatMap escapeLine]
  | list xs => kindLine .list :: digits xs.length :: linesAll xs
  | map kvs => kindLine .map :: digits kvs.length :: linesPairs kvs
  | anon id parent =>
    [kindLine .anon, integerChars (signedId id), integerChars parent.number.toInt]
  | waif id cls owner ps =>
    kindLine .waif :: integerChars (signedId id) :: integerChars cls.number.toInt ::
      integerChars owner.number.toInt :: digits ps.length :: linesAll ps

def linesAll : List Shape → List (List Char)
  | [] => []
  | x :: xs => x.lines ++ linesAll xs

def linesPairs : List (Shape × Shape) → List (List Char)
  | [] => []
  | (k, v) :: kvs => k.lines ++ v.lines ++ linesPairs kvs

end

end Shape

def textOfLines (ls : List (List Char)) : String :=
  String.ofList (ls.flatMap fun l => l ++ ['\n'])

def Value.encode (v : Value) : String := textOfLines v.shape.lines

end MooCore
