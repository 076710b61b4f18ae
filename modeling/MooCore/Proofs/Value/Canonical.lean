import MooCore.Proofs.Value.Faithful
/-!
# Contents with one pattern for what is not a number

A value that is made of pairs and has no text that ends in a carriage return comes back with its
contents. Only what is not a number is told from nothing else by its text, so that all its patterns
count as one; keys are told apart by that no less than before, since such a number equals nothing.
-/

set_option autoImplicit false
namespace MooCore

open Text

theorem Binary64.equal_canonical (x y : Binary64) : x.canonical.equal y.canonical = x.equal y := by
  have nan : (Binary64.nan false).isNaN = true := by decide
  unfold canonical
  by_cases hx : x.isNaN = true
  · rw [if_pos hx]
    simp [equal, nan, hx]
  · rw [if_neg hx]
    by_cases hy : y.isNaN = true
    · rw [if_pos hy]
      simp [equal, nan, hy]
    · rw [if_neg hy]

namespace Shape

mutual

/-- The contents, as far as their text tells them. -/
def canonical : Shape → Shape
  | none => none
  | int n => int n
  | float x => float x.canonical
  | obj o => obj o
  | err e => err e
  | str s => str s
  | list xs => list (canonicalAll xs)
  | map kvs => map (canonicalPairs kvs)
  | anon id parent => anon id parent
  | waif id cls owner ps => waif id cls owner (canonicalAll ps)

def canonicalAll : List Shape → List Shape
  | [] => []
  | x :: xs => x.canonical :: canonicalAll xs

def canonicalPairs : List (Shape × Shape) → List (Shape × Shape)
  | [] => []
  | (k, v) :: kvs => (k.canonical, v.canonical) :: canonicalPairs kvs

end

mutual

/-- No text in the value ends in a carriage return. -/
def EndsPlainly : Shape → Prop
  | none | int _ | float _ | obj _ | err _ | anon _ _ => True
  | str s => s.toList.getLast? ≠ some '\r'
  | list xs => EndPlainlyAll xs
  | map kvs => EndPlainlyPairs kvs
  | waif _ _ _ ps => EndPlainlyAll ps

def EndPlainlyAll : List Shape → Prop
  | [] => True
  | x :: xs => x.EndsPlainly ∧ EndPlainlyAll xs

def EndPlainlyPairs : List (Shape × Shape) → Prop
  | [] => True
  | (k, v) :: kvs => k.EndsPlainly ∧ v.EndsPlainly ∧ EndPlainlyPairs kvs

end

mutual

theorem echo_of_endsPlainly (s : Shape) (h : s.EndsPlainly) : s.echo = s.canonical := by
  cases s with
  | none | int _ | float _ | obj _ | err _ | anon _ _ => rfl
  | str s =>
    have kept : dropReturn s.toList = s.toList := (dropReturn_eq_iff _).2 h
    rw [echo, canonical, kept, String.ofList_toList]
  | list xs => exact congrArg list (echoAll_of_endPlainly xs h)
  | map kvs => exact congrArg map (echoPairs_of_endPlainly kvs h)
  | waif id cls owner ps => exact congrArg (waif id cls owner) (echoAll_of_endPlainly ps h)

theorem echoAll_of_endPlainly (xs : List Shape) (h : EndPlainlyAll xs) :
    echoAll xs = canonicalAll xs := by
  cases xs with
  | nil => rfl
  | cons x xs =>
    exact congrArg₂ List.cons (echo_of_endsPlainly x h.1) (echoAll_of_endPlainly xs h.2)

theorem echoPairs_of_endPlainly (kvs : List (Shape × Shape)) (h : EndPlainlyPairs kvs) :
    echoPairs kvs = canonicalPairs kvs := by
  cases kvs with
  | nil => rfl
  | cons kv kvs =>
    exact congrArg₂ List.cons
      (congrArg₂ Prod.mk (echo_of_endsPlainly _ h.1) (echo_of_endsPlainly _ h.2.1))
      (echoPairs_of_endPlainly kvs h.2.2)

end

/-! ## Keys are told apart as before -/

mutual

theorem same_canonical (s t : Shape) : s.canonical.same t.canonical = s.same t := by
  cases s with
  | float x =>
    cases t with
    | float y => exact x.equal_canonical y
    | _ => rfl
  | list xs =>
    cases t with
    | list ys => exact sameAll_canonical xs ys
    | _ => rfl
  | map kvs =>
    cases t with
    | map lws => exact samePairs_canonical kvs lws
    | _ => rfl
  | _ => cases t <;> rfl

theorem sameAll_canonical (xs ys : List Shape) :
    sameAll (canonicalAll xs) (canonicalAll ys) = sameAll xs ys := by
  cases xs with
  | nil => cases ys <;> rfl
  | cons x xs =>
    cases ys with
    | nil => rfl
    | cons y ys =>
      simp only [canonicalAll, sameAll]
      rw [same_canonical x y, sameAll_canonical xs ys]

theorem samePairs_canonical (kvs lws : List (Shape × Shape)) :
    samePairs (canonicalPairs kvs) (canonicalPairs lws) = samePairs kvs lws := by
  cases kvs with
  | nil => cases lws <;> rfl
  | cons kv kvs =>
    cases lws with
    | nil => rfl
    | cons lw lws =>
      simp only [canonicalPairs, samePairs]
      rw [same_canonical kv.1 lw.1, same_canonical kv.2 lw.2, samePairs_canonical kvs lws]

end

theorem insertPair_canonical (kvs : List (Shape × Shape)) (k v : Shape) :
    insertPair (canonicalPairs kvs) k.canonical v.canonical =
      canonicalPairs (insertPair kvs k v) := by
  induction kvs with
  | nil => rfl
  | cons lw kvs ih =>
    simp only [canonicalPairs, insertPair, same_canonical]
    split
    · rfl
    · rw [ih, canonicalPairs]

theorem insertPairs_canonical (kept kvs : List (Shape × Shape)) :
    insertPairs (canonicalPairs kept) (canonicalPairs kvs) =
      canonicalPairs (insertPairs kept kvs) := by
  induction kvs generalizing kept with
  | nil => rfl
  | cons kv kvs ih =>
    simp only [canonicalPairs, insertPairs]
    rw [insertPair_canonical, ih]

mutual

theorem merged_canonical (s : Shape) : s.canonical.merged = s.merged.canonical := by
  cases s with
  | none | int _ | float _ | obj _ | err _ | str _ | anon _ _ => rfl
  | list xs => exact congrArg list (mergedAll_canonical xs)
  | map kvs =>
    have pairs := insertPairs_canonical [] (mergedPairs kvs)
    rw [← mergedPairs_canonical kvs] at pairs
    exact congrArg map pairs
  | waif id cls owner ps => exact congrArg (waif id cls owner) (mergedAll_canonical ps)

theorem mergedAll_canonical (xs : List Shape) :
    mergedAll (canonicalAll xs) = canonicalAll (mergedAll xs) := by
  cases xs with
  | nil => rfl
  | cons x xs => exact congrArg₂ List.cons (merged_canonical x) (mergedAll_canonical xs)

theorem mergedPairs_canonical (kvs : List (Shape × Shape)) :
    mergedPairs (canonicalPairs kvs) = canonicalPairs (mergedPairs kvs) := by
  cases kvs with
  | nil => rfl
  | cons kv kvs =>
    exact congrArg₂ List.cons (congrArg₂ Prod.mk (merged_canonical _) (merged_canonical _))
      (mergedPairs_canonical kvs)

end

end Shape

theorem Value.echo_shape {v : Value} (made : v.Made) (plain : v.shape.EndsPlainly) :
    v.shape.echo = v.shape.canonical ∧ v.shape.canonical.merged = v.shape.canonical := by
  refine ⟨v.shape.echo_of_endsPlainly plain, ?_⟩
  rw [Shape.merged_canonical, v.merged_shape made]

end MooCore
