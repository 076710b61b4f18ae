import MooCore.Value.Encoding
import MooCore.Binary64.Reader
import MooCore.Text.Blank
import MooCore.Text.Quoted
import MooCore.Text.Source
/-!
# Reading values

Values are read head by head. A head is a complete scalar or text, or the announcement of a
container; the containers still open wait on a stack, innermost first, until their members have
come. Every head takes at least one line, so reading ends whatever lengths are announced.
-/

set_option autoImplicit false
namespace MooCore
open Text

/-- Why input could not be read, with the line at which that showed. -/
inductive DecodingError where
  | invalidUtf8
  | endOfInput (line : Nat)
  | badInteger (line : Nat) (text : String) (fault : IntegerFault)
  | badFloat (line : Nat) (text : String) (fault : Binary64.Fault)
  | unknownError (line : Nat) (number : Int64)
  | badEscape (line : Nat) (next : Option Char)
  | negativeLength (line : Nat) (length : Int64)
  | badPendingCount (line : Nat) (header : String)
  | badFlag (line : Nat) (flag : Int64)
  | badObjectCount (line : Nat) (header : String)
  | unknownKind (line : Nat) (code : Int64)
  | notFinalizable (line : Nat)
deriving DecidableEq, Repr, Inhabited

namespace DecodingError

/-- The part of the message after the line number, for what could not be parsed. -/
def parseFault? : DecodingError → Option (Nat × String)
  | badInteger line s f =>
    some (line, "expected integer, got " ++ quoted s ++ ": " ++ f.message)
  | badFloat line s f => some (line, "expected float, got " ++ quoted s ++ ": " ++ f.message)
  | unknownError line n => some (line, "unknown error code " ++ intText n.toInt)
  | badEscape line (some c) => some (line, "bad escape \\Some(" ++ quotedChar c ++ ")")
  | badEscape line none => some (line, "bad escape \\None")
  | negativeLength line n => some (line, "negative length " ++ intText n.toInt)
  | badPendingCount line s =>
    some (line, "expected pending finalization count, got " ++ quoted s)
  | badFlag line n => some (line, "bad finalized flag " ++ intText n.toInt)
  | badObjectCount line s => some (line, "expected an object count, got " ++ quoted s)
  | _ => none

def message (e : DecodingError) : String :=
  match e with
  | invalidUtf8 => "I/O error: stream did not contain valid UTF-8"
  | endOfInput line => "unexpected end of input at line " ++ natText line
  | unknownKind line code =>
    "unknown type code " ++ intText code.toInt ++ " at line " ++ natText line
  | notFinalizable line =>
    "value at line " ++ natText line ++ " cannot be pending finalization"
  | _ =>
    match e.parseFault? with
    | some (line, what) => "could not parse line " ++ natText line ++ ": " ++ what
    | none => ""

end DecodingError

/-- A reader moves on in its source whether it succeeds or fails. -/
abbrev Reader (α : Type) := ExceptT DecodingError (StateM Source) α

namespace Reader

def line : Reader Nat := fun src => (.ok src.line, src)

def failAt {α : Type} (e : Nat → DecodingError) : Reader α := fun src => (.error (e src.line), src)

def readLine : Reader String := fun src =>
  match src.readLine with
  | (.ok s, src) => (.ok s, src)
  | (.error .invalidUtf8, src) => (.error .invalidUtf8, src)
  | (.error (.endOfInput n), src) => (.error (.endOfInput n), src)

def readInteger : Reader Int64 := do
  let l ← readLine
  match readInt64 (trimBlanks l.toList) with
  | .ok n => pure n
  | .error f => failAt (.badInteger · l f)

def readFloat : Reader Binary64 := do
  let l ← readLine
  match Binary64.read (trimBlanks l.toList) with
  | .ok x => pure x
  | .error f => failAt (.badFloat · l f)

/-- Undoes the escapes of a written text; a fault is the character after the backslash. -/
def unescape : List Char → Except (Option Char) (List Char)
  | [] => .ok []
  | '\\' :: 'n' :: cs => (unescape cs).map ('\n' :: ·)
  | '\\' :: '\\' :: cs => (unescape cs).map ('\\' :: ·)
  | '\\' :: cs => .error cs.head?
  | c :: cs => (unescape cs).map (c :: ·)

def readText : Reader String := do
  let l ← readLine
  match unescape l.toList with
  | .ok cs => pure (String.ofList cs)
  | .error next => failAt (.badEscape · next)

def readError : Reader ErrorCode := do
  let n ← readInteger
  match (if 0 ≤ n.toInt then ErrorCode.ofNumber? n.toInt.toNat else none) with
  | some e => pure e
  | none => failAt (.unknownError · n)

def readLength : Reader Nat := do
  let n ← readInteger
  if 0 ≤ n.toInt then pure n.toInt.toNat else failAt (.negativeLength · n)

def readObj : Reader Obj := do return ⟨← readInteger⟩

def readId : Reader UInt64 := do return (← readInteger).toUInt64

/-- What the lines of one head say. -/
inductive Head where
  | value (s : Shape)
  | list (length : Nat)
  | map (length : Nat)
  | waif (id : UInt64) (cls owner : Obj) (length : Nat)

def readBody (code : Int64) : Reader Head :=
  match Kind.ofNumber? code.toInt with
  | some .none => pure (.value .none)
  | some .int => do return .value (.int (← readInteger))
  | some .obj => do return .value (.obj (← readObj))
  | some .float => do return .value (.float (← readFloat))
  | some .err => do return .value (.err (← readError))
  | some .str => do return .value (.str (← readText))
  | some .list => do return .list (← readLength)
  | some .map => do return .map (← readLength)
  | some .anon => do
    let id ← readId
    return .value (.anon id (← readObj))
  | some .waif => do
    let id ← readId
    let cls ← readObj
    let owner ← readObj
    return .waif id cls owner (← readLength)
  | none => failAt (.unknownKind · code)

def readHead : Reader Head := do readBody (← readInteger)

/-- A container under way: how many members are to come after the current one, and those that
have come, last first. -/
inductive Frame where
  | list (left : Nat) (done : List Shape)
  | map (left : Nat) (done : List (Shape × Shape)) (key : Option Shape)
  | waif (id : UInt64) (cls owner : Obj) (left : Nat) (done : List Shape)

/-- Puts a complete value where it belongs: it may complete the innermost container, and that one
the next. Without an open container it is the result. -/
def settle (v : Shape) : List Frame → Shape ⊕ List Frame
  | [] => .inl v
  | .list 0 done :: fs => settle (.list (v :: done).reverse) fs
  | .list (n + 1) done :: fs => .inr (.list n (v :: done) :: fs)
  | .map n done none :: fs => .inr (.map n done (some v) :: fs)
  | .map 0 done (some k) :: fs => settle (.map ((k, v) :: done).reverse) fs
  | .map (n + 1) done (some k) :: fs => .inr (.map n ((k, v) :: done) none :: fs)
  | .waif id cls owner 0 done :: fs => settle (.waif id cls owner (v :: done).reverse) fs
  | .waif id cls owner (n + 1) done :: fs => .inr (.waif id cls owner n (v :: done) :: fs)

/-- Takes up a head: a container with members is opened, anything else is complete. -/
def place (fs : List Frame) : Head → Shape ⊕ List Frame
  | .value v => settle v fs
  | .list 0 => settle (.list []) fs
  | .list (n + 1) => .inr (.list n [] :: fs)
  | .map 0 => settle (.map []) fs
  | .map (n + 1) => .inr (.map n [] none :: fs)
  | .waif id cls owner 0 => settle (.waif id cls owner []) fs
  | .waif id cls owner (n + 1) => .inr (.waif id cls owner n [] :: fs)

/-! ## Progress -/

def Shrinks {α : Type} (r : Reader α) : Prop := ∀ src, (r src).2.rest.length ≤ src.rest.length

theorem shrinks_pure {α : Type} (a : α) : Shrinks (pure a : Reader α) := fun _ => Nat.le_refl _

theorem shrinks_failAt {α : Type} (e : Nat → DecodingError) : Shrinks (failAt e : Reader α) :=
  fun _ => Nat.le_refl _

theorem run_bind {α β : Type} (r : Reader α) (f : α → Reader β) (src : Source) :
    (r >>= f) src = match r src with
      | (.ok a, src) => f a src
      | (.error e, src) => (.error e, src) := by
  show (match r src with | (a, mid) => ExceptT.bindCont f a mid) = _
  rcases r src with ⟨e | a, mid⟩ <;> rfl

theorem Shrinks.bind {α β : Type} {r : Reader α} {f : α → Reader β} (hr : Shrinks r)
    (hf : ∀ a, Shrinks (f a)) : Shrinks (r >>= f) := by
  intro src
  have first := hr src
  rw [run_bind]
  rcases h : r src with ⟨e | a, mid⟩
  · simpa [h] using first
  · rw [h] at first
    exact Nat.le_trans (hf a mid) first

theorem shrinks_readLine : Shrinks readLine := by
  intro src
  have le := src.readLine_rest_le
  unfold readLine
  split <;> rename_i h <;> simpa [h] using le

theorem shrinks_readInteger : Shrinks readInteger :=
  .bind shrinks_readLine fun l => by split <;> first | exact shrinks_pure _ | exact shrinks_failAt _

theorem shrinks_readFloat : Shrinks readFloat :=
  .bind shrinks_readLine fun l => by split <;> first | exact shrinks_pure _ | exact shrinks_failAt _

theorem shrinks_readText : Shrinks readText :=
  .bind shrinks_readLine fun l => by split <;> first | exact shrinks_pure _ | exact shrinks_failAt _

theorem shrinks_readError : Shrinks readError :=
  .bind shrinks_readInteger fun n => by
    split <;> first | exact shrinks_pure _ | exact shrinks_failAt _

theorem shrinks_readLength : Shrinks readLength :=
  .bind shrinks_readInteger fun n => by
    split <;> first | exact shrinks_pure _ | exact shrinks_failAt _

theorem shrinks_readObj : Shrinks readObj := .bind shrinks_readInteger fun _ => shrinks_pure _

theorem shrinks_readId : Shrinks readId := .bind shrinks_readInteger fun _ => shrinks_pure _

theorem shrinks_readBody (code : Int64) : Shrinks (readBody code) := by
  unfold readBody
  split
  · exact shrinks_pure _
  · exact .bind shrinks_readInteger fun _ => shrinks_pure _
  · exact .bind shrinks_readObj fun _ => shrinks_pure _
  · exact .bind shrinks_readFloat fun _ => shrinks_pure _
  · exact .bind shrinks_readError fun _ => shrinks_pure _
  · exact .bind shrinks_readText fun _ => shrinks_pure _
  · exact .bind shrinks_readLength fun _ => shrinks_pure _
  · exact .bind shrinks_readLength fun _ => shrinks_pure _
  · exact .bind shrinks_readId fun _ => .bind shrinks_readObj fun _ => shrinks_pure _
  · exact .bind shrinks_readId fun _ => .bind shrinks_readObj fun _ => .bind shrinks_readObj fun _ =>
      .bind shrinks_readLength fun _ => shrinks_pure _
  · exact shrinks_failAt _

theorem readLine_lt {src rest : Source} {s : String} (h : readLine src = (.ok s, rest)) :
    rest.rest.length < src.rest.length := by
  unfold readLine at h
  split at h <;> rename_i e <;> cases h
  have lt := Source.readLine_rest_lt (by rw [e])
  rwa [e] at lt

theorem readInteger_lt {src rest : Source} {n : Int64} (h : readInteger src = (.ok n, rest)) :
    rest.rest.length < src.rest.length := by
  unfold readInteger at h
  rw [run_bind] at h
  split at h
  · rename_i l mid e
    have lt := readLine_lt e
    have le : rest.rest.length ≤ mid.rest.length := by
      cases e : readInt64 (trimBlanks l.toList) <;> simp only [e] at h <;> cases h
      exact Nat.le_refl _
    omega
  · cases h

theorem readHead_lt {src rest : Source} {head : Head} (h : readHead src = (.ok head, rest)) :
    rest.rest.length < src.rest.length := by
  unfold readHead at h
  rw [run_bind] at h
  split at h
  · rename_i n mid e
    have lt := readInteger_lt e
    have le := shrinks_readBody n mid
    rw [h] at le
    exact Nat.lt_of_le_of_lt le lt
  · cases h

/-! ## Values -/

/-- A value that could not be completed: why, and the containers that were open. -/
structure Unfinished where
  error : DecodingError
  frames : List Frame

def resume (frames : List Frame) (src : Source) : Except Unfinished Shape × Source :=
  match taken : readHead src with
  | (.error error, rest) => (.error { error, frames }, rest)
  | (.ok head, rest) =>
    have := readHead_lt taken
    match place frames head with
    | .inl v => (.ok v, rest)
    | .inr frames => resume frames rest
termination_by src.rest.length

def readShape (src : Source) : Except Unfinished Shape × Source := resume [] src

end Reader
end MooCore
