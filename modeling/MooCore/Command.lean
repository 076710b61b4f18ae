import MooCore.Builtin
import MooCore.Binary64.Reader
import MooCore.Text.Blank
import MooCore.Value.Literal
/-!
# The command language

A command is the name of a built-in function and its arguments, in parentheses or after a blank.
Arguments stand apart by blanks and commas. A text in quotes may hold anything, with a backslash
before quotes and backslashes; a word is taken for an object, a number, an error or a truth value
if it looks like one, and for a text otherwise.
-/

set_option autoImplicit false
namespace MooCore

/-- A call as it was read. -/
structure Command where
  builtin : Builtin
  args : List Shape

namespace Command

/-- Why a line is not a command. -/
inductive Fault where
  | notACommand (line : String)
  | unbalanced (line : String)
  | unterminated
  | badObject (word : String)
  | unknown (name : String)
deriving DecidableEq, Repr

def Fault.message : Fault → String
  | notACommand line => "Not a command: " ++ line
  | unbalanced line => "Unbalanced parentheses in: " ++ line
  | unterminated => "Unterminated string"
  | badObject word => "Bad object number: " ++ word
  | unknown name => "Unknown built-in function: " ++ name

def isNameChar (c : Char) : Bool := c.isAlphanum || c == '_'

def isSeparator (c : Char) : Bool := Text.isBlank c || c == ','

/-- What a word that is no object number stands for. -/
def wordShape (word : List Char) : Shape :=
  match Text.readInt64 word with
  | .ok n => .int n
  | .error _ =>
    match Binary64.read word with
    | .ok x => .float x
    | .error _ =>
      match ErrorCode.ofName? word with
      | some e => .err e
      | none =>
        match String.ofList word with
        | "true" => .int 1
        | "false" => .int 0
        | "nothing" => .obj .nothing
        | s => .str s

def readWord : List Char → Except Fault Shape
  | '#' :: id =>
    match Text.readInt64 id with
    | .ok n => .ok (.obj ⟨n⟩)
    | .error _ => .error (.badObject (String.ofList ('#' :: id)))
  | word => .ok (wordShape word)

/-- Where in the arguments a reader is; what it has of a word or text comes last character
first. -/
inductive Position where
  | between
  | word (read : List Char)
  | text (read : List Char)
  | escaped (read : List Char)

/-- Reads arguments, going on from a position. -/
def readArgs : Position → List Char → Except Fault (List Shape)
  | .between, [] => .ok []
  | .between, c :: cs =>
    if isSeparator c then readArgs .between cs
    else if c = '"' then readArgs (.text []) cs
    else readArgs (.word [c]) cs
  | .word read, [] => (readWord read.reverse).map fun x => [x]
  | .word read, c :: cs =>
    if isSeparator c then do
      let x ← readWord read.reverse
      let xs ← readArgs .between cs
      .ok (x :: xs)
    else readArgs (.word (c :: read)) cs
  | .text _, [] | .escaped _, [] => .error .unterminated
  | .text read, c :: cs =>
    if c = '"' then (readArgs .between cs).map (.str (String.ofList read.reverse) :: ·)
    else if c = '\\' then readArgs (.escaped read) cs
    else readArgs (.text (c :: read)) cs
  | .escaped read, c :: cs => readArgs (.text (c :: read)) cs

/-- What stands between the parentheses, if there is an opening one. -/
def inside (line rest : List Char) : Except Fault (List Char) :=
  match rest with
  | '(' :: inner =>
    match inner.reverse with
    | ')' :: front => .ok front.reverse
    | _ => .error (.unbalanced (String.ofList line))
  | _ => .ok rest

def parse (line : String) : Except Fault Command := do
  let line := Text.trimBlanks line.toList
  let name := line.takeWhile isNameChar
  if name.isEmpty then throw (.notACommand (String.ofList line))
  let inner ← inside line (Text.trimBlanks (line.dropWhile isNameChar))
  let args ← readArgs .between inner
  match Builtin.ofName? (String.ofList name) with
  | some builtin => return { builtin, args }
  | none => throw (.unknown (String.ofList name))

end Command
end MooCore
