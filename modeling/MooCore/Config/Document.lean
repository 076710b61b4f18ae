import MooCore.Binary64.Reader
import MooCore.Config.Token
import MooCore.Named
/-!
# Documents

The text of a configuration file as a tree of objects, lists and scalars. A text is cut into tokens
first; the tokens are then put together with a stack of the lists and objects that are still open.
-/

set_option autoImplicit false
namespace MooCore.Config

inductive Document where
  | null
  | bool (b : Bool)
  | int (n : Int)
  /-- a number with a fraction or an exponent -/
  | real (text : String)
  | str (s : String)
  | list (elements : List Document)
  | object (fields : List (String × Document))
deriving Inhabited

namespace Document

/-! ## Words -/

def isWhole : List Char → Bool
  | [] => false
  | ['0'] => true
  | c :: cs => c ≠ '0' && (c :: cs).all Char.isDigit

def dropExponent : List Char → Option (List Char)
  | [] => some []
  | c :: cs =>
    if c ≠ 'e' ∧ c ≠ 'E' then none
    else
      let ds := match cs with
        | '+' :: ds | '-' :: ds => ds
        | ds => ds
      if !ds.isEmpty && ds.all Char.isDigit then some [] else none

/-- Whether a text goes on as a number does after its whole part. -/
def isRealTail : List Char → Bool
  | '.' :: cs =>
    !(cs.takeWhile Char.isDigit).isEmpty && (dropExponent (cs.dropWhile Char.isDigit)).isSome
  | cs => (dropExponent cs).isSome

def readNumber (neg : Bool) (cs : List Char) : Option Document :=
  let whole := cs.takeWhile Char.isDigit
  let tail := cs.dropWhile Char.isDigit
  if !isWhole whole then none
  else if tail.isEmpty then
    let n : Int := (whole.foldl (fun n c => n * 10 + (c.toNat - 48)) 0 : Nat)
    some (.int (if neg then -n else n))
  else if isRealTail tail then some (.real (String.ofList cs))
  else none

def isBeyond (cs : List Char) : Bool :=
  match Binary64.read cs with
  | .ok x => x.isInfinite
  | .error _ => false

/-- What a word stands for. A number that is too large for a number is a text. -/
def ofWord? (cs : List Char) : Option Document :=
  match String.ofList cs with
  | "null" => some .null
  | "true" => some (.bool true)
  | "false" => some (.bool false)
  | s => do
    let d ← match cs with
      | '-' :: rest => readNumber true rest
      | _ => readNumber false cs
    some (if isBeyond cs then .str s else d)

/-! ## Putting tokens together -/

/-- A list or an object that is still open; the elements of a list come last first. A key that is
given again takes its new value. -/
inductive Frame where
  | list (done : List Document)
  | object (done : Named String Document) (key : Option String)

/-- What may come next. -/
inductive Next where
  | value
  | firstValue
  | firstKey
  | key
  | colon (start : Place)
  | comma

inductive Progress where
  | reading (stack : List Frame) (next : Next)
  | finished (d : Document)

def complete (d : Document) : List Frame → Option Progress
  | [] => some (.finished d)
  | .list done :: stack => some (.reading (.list (d :: done) :: stack) .comma)
  | .object done (some key) :: stack =>
    some (.reading (.object (done.set key d) none :: stack) .comma)
  | .object _ none :: _ => none

def close (mark : Char) : List Frame → Option Progress
  | .list done :: stack => if mark = ']' then complete (.list done.reverse) stack else none
  | .object done none :: stack =>
    if mark = '\x7d' then complete (.object done) stack else none
  | _ => none

def maxDepth : Nat := 128

def startValue (stack : List Frame) : Token → Option Progress
  | .quoted s _ => complete (.str s) stack
  | .word cs => do complete (← ofWord? cs) stack
  | .mark c _ =>
    if stack.length = maxDepth then none
    else if c = '[' then some (.reading (.list [] :: stack) .firstValue)
    else if c = '\x7b' then some (.reading (.object [] none :: stack) .firstKey)
    else none

def startKey : List Frame → Token → Option Progress
  | .object done none :: stack, .quoted key start =>
    some (.reading (.object done (some key) :: stack) (.colon start))
  | _, _ => none

/-- Whether what starts at one place is a key for a colon at another: there is no line break between
them, and no more than 1024 bytes. -/
def isKeyFor (start colon : Place) : Bool :=
  start.line = colon.line && colon.index ≤ start.index + 1024

def afterComma : List Frame → Option Progress
  | .list done :: stack => some (.reading (.list done :: stack) .value)
  | .object done none :: stack => some (.reading (.object done none :: stack) .key)
  | _ => none

def advance : Progress → Token → Option Progress
  | .finished _, _ => none
  | .reading stack .value, t => startValue stack t
  | .reading stack .firstValue, .mark ']' _ => close ']' stack
  | .reading stack .firstValue, t => startValue stack t
  | .reading stack .firstKey, .mark '\x7d' _ => close '\x7d' stack
  | .reading stack .firstKey, t => startKey stack t
  | .reading stack .key, t => startKey stack t
  | .reading stack (.colon start), .mark ':' place =>
    if isKeyFor start place then some (.reading stack .value) else none
  | .reading _ (.colon _), _ => none
  | .reading stack .comma, .mark ',' _ => afterComma stack
  | .reading stack .comma, .mark c _ => close c stack
  | .reading _ .comma, _ => none

def parse? (s : String) : Option Document := do
  match ← Token.ofText? s with
  | [] => some (.object [])
  | ts =>
    match ← ts.foldlM advance (.reading [] .value) with
    | .finished d => some d
    | .reading .. => none

end Document
end MooCore.Config
