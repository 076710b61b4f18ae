/-!
# Reading line by line

A source is the bytes not read yet and a count of the lines asked for so far. A line ends with a
line feed, which is dropped together with one carriage return before it; the last line may lack
its line feed. Asking at the end counts as a line; a line that is not UTF-8 does not.
-/

set_option autoImplicit false
namespace MooCore.Text

structure Source where
  rest : List UInt8
  line : Nat := 0
deriving Repr, Inhabited

/-- Why no line could be read. -/
inductive LineFault where
  | invalidUtf8
  | endOfInput (line : Nat)
deriving DecidableEq, Repr

namespace Source

def ofBytes (bytes : List UInt8) : Source := { rest := bytes }

def ofText (s : String) : Source := ofBytes s.toUTF8.toList

/-- The bytes up to and including the first line feed, and the rest. -/
def splitLine : List UInt8 → List UInt8 × List UInt8
  | [] => ([], [])
  | b :: bs =>
    if b = 10 then ([b], bs)
    else let (line, rest) := splitLine bs; (b :: line, rest)

/-- Drops a line feed at the end, and one carriage return before it. -/
def chomp (cs : List Char) : List Char :=
  match cs.reverse with
  | '\n' :: '\r' :: front => front.reverse
  | '\n' :: front => front.reverse
  | _ => cs

def decodeUtf8 (bytes : List UInt8) : Option String := String.fromUTF8? ⟨bytes.toArray⟩

def readLine (src : Source) : Except LineFault String × Source :=
  match src.rest with
  | [] => (.error (.endOfInput (src.line + 1)), { src with line := src.line + 1 })
  | b :: bs =>
    let (line, rest) := splitLine (b :: bs)
    match decodeUtf8 line with
    | none => (.error .invalidUtf8, { src with rest })
    | some s => (.ok (String.ofList (chomp s.toList)), { rest, line := src.line + 1 })

theorem splitLine_append (bs : List UInt8) : (splitLine bs).1 ++ (splitLine bs).2 = bs := by
  induction bs with
  | nil => rfl
  | cons b bs ih =>
    by_cases h : b = 10 <;> simp [splitLine, h, ih]

theorem splitLine_rest_lt (b : UInt8) (bs : List UInt8) :
    (splitLine (b :: bs)).2.length < (b :: bs).length := by
  have whole := congrArg List.length (splitLine_append (b :: bs))
  by_cases h : b = 10 <;> simp [splitLine, h] at whole ⊢
  omega

theorem readLine_rest_le (src : Source) : src.readLine.2.rest.length ≤ src.rest.length := by
  unfold readLine
  cases h : src.rest with
  | nil => simp
  | cons b bs =>
    have lt := splitLine_rest_lt b bs
    simp only []
    split <;> simp_all <;> omega

theorem readLine_rest_lt {src : Source} {s : String} (h : src.readLine.1 = .ok s) :
    src.readLine.2.rest.length < src.rest.length := by
  unfold readLine at h ⊢
  cases e : src.rest with
  | nil => simp [e] at h
  | cons b bs =>
    have lt := splitLine_rest_lt b bs
    simp only [e] at h ⊢
    split at h <;> simp_all

end Source
end MooCore.Text
