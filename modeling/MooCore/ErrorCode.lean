/-!
# Error values

The nineteen errors a program can raise and handle, with the names, numbers and messages under
which they are read and shown.
-/

set_option autoImplicit false
namespace MooCore

inductive ErrorCode where
  | none
  | type
  | div
  | perm
  | propnf
  | verbnf
  | varnf
  | invind
  | recmove
  | maxrec
  | range
  | args
  | nacc
  | invarg
  | quota
  | float
  | file
  | exec
  | intrpt
deriving DecidableEq, Repr

namespace ErrorCode

def all : List ErrorCode :=
  [none, type, div, perm, propnf, verbnf, varnf, invind, recmove, maxrec, range, args, nacc,
    invarg, quota, float, file, exec, intrpt]

def number : ErrorCode → Nat
  | none => 0
  | type => 1
  | div => 2
  | perm => 3
  | propnf => 4
  | verbnf => 5
  | varnf => 6
  | invind => 7
  | recmove => 8
  | maxrec => 9
  | range => 10
  | args => 11
  | nacc => 12
  | invarg => 13
  | quota => 14
  | float => 15
  | file => 16
  | exec => 17
  | intrpt => 18

def ofNumber? (n : Nat) : Option ErrorCode := all[n]?

def name : ErrorCode → String
  | none => "E_NONE"
  | type => "E_TYPE"
  | div => "E_DIV"
  | perm => "E_PERM"
  | propnf => "E_PROPNF"
  | verbnf => "E_VERBNF"
  | varnf => "E_VARNF"
  | invind => "E_INVIND"
  | recmove => "E_RECMOVE"
  | maxrec => "E_MAXREC"
  | range => "E_RANGE"
  | args => "E_ARGS"
  | nacc => "E_NACC"
  | invarg => "E_INVARG"
  | quota => "E_QUOTA"
  | float => "E_FLOAT"
  | file => "E_FILE"
  | exec => "E_EXEC"
  | intrpt => "E_INTRPT"

def message : ErrorCode → String
  | none => "No error"
  | type => "Type mismatch"
  | div => "Division by zero"
  | perm => "Permission denied"
  | propnf => "Property not found"
  | verbnf => "Verb not found"
  | varnf => "Variable not found"
  | invind => "Invalid indirection"
  | recmove => "Recursive move"
  | maxrec => "Too many verb calls"
  | range => "Range error"
  | args => "Incorrect number of arguments"
  | nacc => "Move refused by destination"
  | invarg => "Invalid argument"
  | quota => "Resource limit exceeded"
  | float => "Floating-point arithmetic error"
  | file => "File system error"
  | exec => "Exec error"
  | intrpt => "Interrupted"

/-- The upper-case form of a character, as far as it can be ASCII: beside the ASCII letters, the
dotless i, the long and the sharp s, and the Latin ligatures have upper-case forms in ASCII. -/
def upper (c : Char) : List Char :=
  match c.toNat with
  | 0xdf => ['S', 'S']
  | 0x131 => ['I']
  | 0x17f => ['S']
  | 0xfb00 => ['F', 'F']
  | 0xfb01 => ['F', 'I']
  | 0xfb02 => ['F', 'L']
  | 0xfb03 => ['F', 'F', 'I']
  | 0xfb04 => ['F', 'F', 'L']
  | 0xfb05 => ['S', 'T']
  | 0xfb06 => ['S', 'T']
  | _ => [c.toUpper]

def ofName? (cs : List Char) : Option ErrorCode :=
  let word := cs.flatMap upper
  all.find? fun e => e.name.toList == word

end ErrorCode
end MooCore
