/-!
# The marks, words and quoted texts of a document

A document is written in the braces, brackets and quotes of JSON and read by the rules of YAML. Some
characters may not stand in it at all; a line break inside quotes is folded; tabs may not indent
it; and every token knows where it stands, since a key has to be short and on one line with its
colon.
-/

set_option autoImplicit false
namespace MooCore.Config

/-- A place in a text: bytes and line breaks before it. -/
structure Place where
  index : Nat := 0
  line : Nat := 0
deriving DecidableEq, Repr

inductive Token where
  | mark (c : Char) (place : Place)
  | quoted (s : String) (start : Place)
  | word (cs : List Char)

namespace Token

/-! ## Characters -/

def isAllowed (c : Char) : Bool :=
  c ∈ ['\t', '\n', '\r', '\x85'] || (0x20 ≤ c.toNat && c.toNat < 0x7f)
    || (0xa0 ≤ c.toNat && c.toNat ≠ 0xfffe && c.toNat ≠ 0xffff)

def isBreak (c : Char) : Bool := c ∈ ['\n', '\r', '\x85', '\u2028', '\u2029']

def isBlank (c : Char) : Bool := c = ' ' || c = '\t'

def isSpace (c : Char) : Bool := isBlank c || isBreak c

def isMark (c : Char) : Bool := c ∈ ['\x7b', '\x7d', '[', ']', ':', ',']

def isWordChar (c : Char) : Bool := c.isAlphanum || c ∈ ['+', '-', '.']

end Token

def Place.after (p : Place) (c : Char) : Place where
  index := p.index + c.utf8Size
  line := if Token.isBreak c then p.line + 1 else p.line

namespace Token

/-! ## Quoted texts -/

/-- Blanks and line breaks inside quotes, read so far: blanks alone, last first, or a first break
and the further ones, last first. -/
inductive Gap where
  | blanks (read : List Char)
  | breaks (first : Char) (more : List Char)

/-- A break as it is kept: the two separators stay, every other one is a line feed. -/
def keptBreak (c : Char) : Char := if c = '\u2028' ∨ c = '\u2029' then c else '\n'

def Gap.blank (c : Char) : Gap → Gap
  | blanks read => blanks (c :: read)
  | breaks first more => breaks first more

def Gap.break (c : Char) : Gap → Gap
  | blanks _ => breaks (keptBreak c) []
  | breaks first more => breaks first (keptBreak c :: more)

/-- What a gap stands for: a single line feed is folded to a space, and of several the first one is
dropped. -/
def Gap.folded : Gap → List Char
  | blanks read => read.reverse
  | breaks '\n' [] => [' ']
  | breaks '\n' more => more.reverse
  | breaks first more => first :: more.reverse

/-- Whether a line of a quoted text starts with the sign for the start or the end of a document. -/
def isDocumentSign : List Char → Bool
  | '-' :: '-' :: '-' :: cs | '.' :: '.' :: '.' :: cs => cs.head?.any isSpace
  | _ => false

def hexDigit? (c : Char) : Option Nat :=
  if c.isDigit then some (c.toNat - 48)
  else if 'a' ≤ c ∧ c ≤ 'f' then some (c.toNat - 87)
  else if 'A' ≤ c ∧ c ≤ 'F' then some (c.toNat - 55)
  else none

def coded? (ds : List Char) : Option Char := do
  let code ← ds.foldlM (fun n d => (hexDigit? d).map (n * 16 + ·)) 0
  if Nat.isValidChar code then some (Char.ofNat code) else none

def escaped? (c : Char) : Option Char :=
  match c with
  | '"' | '\\' | '/' => some c
  | 'b' => some '\x08'
  | 'f' => some '\x0c'
  | 'n' => some '\n'
  | 'r' => some '\r'
  | 't' => some '\t'
  | _ => none

/-- The text that stands for what is written between quotes. -/
def unquote : Gap → List Char → Option (List Char)
  | gap, [] => some gap.folded
  | gap, '\r' :: '\n' :: cs =>
    if isDocumentSign cs then none else unquote (gap.break '\n') cs
  | gap, '\\' :: 'u' :: d₁ :: d₂ :: d₃ :: d₄ :: cs => do
    let c ← coded? [d₁, d₂, d₃, d₄]
    let rest ← unquote (.blanks []) cs
    some (gap.folded ++ c :: rest)
  | gap, '\\' :: c :: cs => do
    let c ← escaped? c
    let rest ← unquote (.blanks []) cs
    some (gap.folded ++ c :: rest)
  | gap, c :: cs =>
    if isBlank c then unquote (gap.blank c) cs
    else if isBreak c then
      if isDocumentSign cs then none else unquote (gap.break c) cs
    else do
      let rest ← unquote (.blanks []) cs
      some (gap.folded ++ c :: rest)

/-! ## Cutting a text -/

/-- Where in the text a reader is; what it has of a word or quoted text comes last character
first. -/
inductive Position where
  | between
  | word (read : List Char)
  | quoted (start : Place) (read : List Char) (escaped : Bool)

/-- Cuts the rest of a text; the tokens before it are given last first. -/
def cut : List Token → Place → Position → List Char → Option (List Token)
  | done, _, .between, [] => some done.reverse
  | done, _, .word read, [] => some (.word read.reverse :: done).reverse
  | _, _, .quoted .., [] => none
  | done, place, .between, c :: cs =>
    let next := place.after c
    if isSpace c then cut done next .between cs
    else if isMark c then cut (.mark c place :: done) next .between cs
    else if c = '"' then cut done next (.quoted place [] false) cs
    else if isWordChar c then cut done next (.word [c]) cs
    else none
  | done, place, .word read, c :: cs =>
    let next := place.after c
    if isWordChar c then cut done next (.word (c :: read)) cs
    else if isSpace c then cut (.word read.reverse :: done) next .between cs
    else if isMark c then cut (.mark c place :: .word read.reverse :: done) next .between cs
    else none
  | done, place, .quoted start read escaped, c :: cs =>
    let next := place.after c
    if escaped then cut done next (.quoted start (c :: read) false) cs
    else if c = '"' then
      match unquote (.blanks []) read.reverse with
      | none => none
      | some s => cut (.quoted (String.ofList s) start :: done) next .between cs
    else cut done next (.quoted start (c :: read) (c = '\\')) cs

/-- Whether the white space around a text is free of tabs that indent: all in front of it, and all
after it that follow a line break. -/
def marginsHold (cs : List Char) : Bool :=
  !(cs.takeWhile isSpace).contains '\t' &&
    !((cs.reverse.takeWhile isSpace).reverse.dropWhile (!isBreak ·)).contains '\t'

/-- Cuts a text into tokens. A mark of the byte order may stand before it. -/
def ofText? (s : String) : Option (List Token) :=
  let cs := match s.toList with
    | '\ufeff' :: cs => cs
    | cs => cs
  if cs.all isAllowed && marginsHold cs then cut [] {} .between cs else none

end Token
end MooCore.Config
