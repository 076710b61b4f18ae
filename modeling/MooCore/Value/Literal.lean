import MooCore.Value
import MooCore.Binary64.Shortest
import MooCore.Text.Integer
/-!
# Literal forms

How a value is shown to a connection. Texts are quoted, with the quote and the backslash escaped
and everything else as it is; lists stand in braces, maps in brackets with arrows. Anonymous
objects and waifs have no literal form of their own and are described instead.
-/

set_option autoImplicit false
namespace MooCore

def Obj.chars (o : Obj) : List Char := '#' :: Text.integerChars o.number.toInt

def Obj.text (o : Obj) : String := String.ofList o.chars

namespace Shape
open Text (integerChars digits)

def escape (c : Char) : List Char := if c = '"' ∨ c = '\\' then ['\\', c] else [c]

def quote (cs : List Char) : List Char := '"' :: cs.flatMap escape ++ ['"']

def anonChars (id : UInt64) (parent : Obj) : List Char :=
  "*anonymous ".toList ++ digits id.toNat ++ " (parent ".toList ++ parent.chars ++ ")*".toList

def waifChars (cls owner : Obj) : List Char :=
  "[[class = ".toList ++ cls.chars ++ ", owner = ".toList ++ owner.chars ++ "]]".toList

def commaSeparated : List (List Char) → List Char
  | [] => []
  | [x] => x
  | x :: xs => x ++ ',' :: ' ' :: commaSeparated xs

mutual

def chars : Shape → List Char
  | none => ['N', 'o', 'n', 'e']
  | int n => integerChars n.toInt
  | float x => x.chars
  | obj o => o.chars
  | err e => e.name.toList
  | str s => quote s.toList
  | list xs => '\x7b' :: commaSeparated (charsAll xs) ++ ['\x7d']
  | map kvs => '[' :: commaSeparated (charsPairs kvs) ++ [']']
  | anon id parent => anonChars id parent
  | waif _ cls owner _ => waifChars cls owner

def charsAll : List Shape → List (List Char)
  | [] => []
  | x :: xs => x.chars :: charsAll xs

def charsPairs : List (Shape × Shape) → List (List Char)
  | [] => []
  | (k, v) :: kvs => (k.chars ++ " -> ".toList ++ v.chars) :: charsPairs kvs

end

def literal (s : Shape) : String := String.ofList s.chars

end Shape

def Value.literal (v : Value) : String := v.shape.literal

end MooCore
