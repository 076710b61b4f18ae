/-!
# Affixes

Taking a known beginning or end off a text.
-/

set_option autoImplicit false
namespace MooCore.Text

def dropPrefix? : List Char → List Char → Option (List Char)
  | [], cs => some cs
  | _ :: _, [] => none
  | p :: ps, c :: cs => if p = c then dropPrefix? ps cs else none

def dropSuffix? (tail cs : List Char) : Option (List Char) :=
  (dropPrefix? tail.reverse cs.reverse).map List.reverse

theorem dropPrefix?_append (ps cs : List Char) : dropPrefix? ps (ps ++ cs) = some cs := by
  induction ps with
  | nil => rfl
  | cons p ps ih => simp [dropPrefix?, ih]

theorem dropSuffix?_append (tail cs : List Char) : dropSuffix? tail (cs ++ tail) = some cs := by
  simp [dropSuffix?, dropPrefix?_append]

end MooCore.Text
