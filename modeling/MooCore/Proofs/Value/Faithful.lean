import MooCore.Proofs.Value.Merging
import MooCore.Proofs.Value.RoundTrip
import MooCore.Finalization
/-!
# Values that come back as they were

A value that is written and read is the value that was written, as far as its contents go, exactly
if no text in it ends in a carriage return, which is taken for a part of the line end, and no number
in it is one of the many patterns for what is not a number.
-/

set_option autoImplicit false
namespace MooCore

open Text

/-! ## Values as the program makes them -/

namespace Value

mutual

/-- Every map in the value was put together from pairs. -/
def Made : Value → Prop
  | none | int _ | float _ | obj _ | err _ | str .. | anon .. => True
  | list _ xs => MadeAll xs
  | map _ kvs => (∃ given, kvs = (Heap.insertPairs [] given).1) ∧ MadePairs kvs
  | waif _ _ _ _ _ ps => MadeAll ps

def MadeAll : List Value → Prop
  | [] => True
  | v :: vs => v.Made ∧ MadeAll vs

def MadePairs : List (Value × Value) → Prop
  | [] => True
  | (k, v) :: kvs => k.Made ∧ v.Made ∧ MadePairs kvs

end

end Value

namespace Heap

def Distinct (kvs : List (Value × Value)) : Prop :=
  kvs.Pairwise fun a b => a.1.equal b.1 = false

theorem insertPair_distinct {kvs : List (Value × Value)} (h : Distinct kvs) (k v : Value) :
    Distinct (insertPair kvs k v).1 := by
  induction kvs with
  | nil => exact List.pairwise_singleton _ _
  | cons lw kvs ih =>
    obtain ⟨first, rest⟩ := List.pairwise_cons.1 h
    unfold insertPair
    split
    · exact List.pairwise_cons.2 ⟨first, rest⟩
    · rename_i differ
      refine List.pairwise_cons.2 ⟨fun b mem => ?_, ih rest⟩
      rcases insertPair_keys mem with old | new
      · obtain ⟨b', mem', key⟩ := List.mem_map.1 old
        rw [← key]
        exact first b' mem'
      · rw [new]
        exact Bool.eq_false_iff.2 differ

theorem insertPairs_distinct {kept : List (Value × Value)} (h : Distinct kept)
    (kvs : List (Value × Value)) : Distinct (insertPairs kept kvs).1 := by
  induction kvs generalizing kept with
  | nil => exact h
  | cons kv kvs ih => exact ih (insertPair_distinct h kv.1 kv.2)

end Heap

/-! ## Merging what is merged -/

namespace Shape

theorem insertPair_new {kvs : List (Shape × Shape)} {k : Shape} (v : Shape)
    (differ : ∀ kv ∈ kvs, kv.1.same k = false) : insertPair kvs k v = kvs ++ [(k, v)] := by
  induction kvs with
  | nil => rfl
  | cons lw kvs ih =>
    have first := differ lw (List.mem_cons_self ..)
    rw [insertPair, first, if_neg (by simp), ih fun kv mem => differ kv (List.mem_cons_of_mem _ mem),
      List.cons_append]

theorem insertPairs_new {kept kvs : List (Shape × Shape)}
    (differ : (kept ++ kvs).Pairwise fun a b => a.1.same b.1 = false) :
    insertPairs kept kvs = kept ++ kvs := by
  induction kvs generalizing kept with
  | nil => rw [List.append_nil, insertPairs]
  | cons kv kvs ih =>
    have old : ∀ a ∈ kept, a.1.same kv.1 = false := fun a mem =>
      (List.pairwise_append.1 differ).2.2 a mem kv (List.mem_cons_self ..)
    have again : kept ++ kv :: kvs = kept ++ [kv] ++ kvs := by simp
    rw [again] at differ ⊢
    rw [insertPairs, insertPair_new kv.2 old]
    exact ih differ

theorem insertPair_length (kvs : List (Shape × Shape)) (k v : Shape) :
    (insertPair kvs k v).length ≤ kvs.length + 1 ∧
      ((insertPair kvs k v).length = kvs.length + 1 → insertPair kvs k v = kvs ++ [(k, v)]) := by
  induction kvs with
  | nil => exact ⟨Nat.le_refl _, fun _ => rfl⟩
  | cons lw kvs ih =>
    unfold insertPair
    split
    · exact ⟨by simp, fun long => by simp at long⟩
    · refine ⟨Nat.succ_le_succ ih.1, fun long => ?_⟩
      rw [ih.2 (Nat.succ.inj long), List.cons_append]

theorem insertPairs_length (kept kvs : List (Shape × Shape)) :
    (insertPairs kept kvs).length ≤ kept.length + kvs.length ∧
      ((insertPairs kept kvs).length = kept.length + kvs.length →
        insertPairs kept kvs = kept ++ kvs) := by
  induction kvs generalizing kept with
  | nil => exact ⟨Nat.le_refl _, fun _ => by rw [List.append_nil, insertPairs]⟩
  | cons kv kvs ih =>
    obtain ⟨le, same⟩ := insertPair_length kept kv.1 kv.2
    obtain ⟨le', same'⟩ := ih (insertPair kept kv.1 kv.2)
    rw [insertPairs, List.length_cons]
    refine ⟨by omega, fun long => ?_⟩
    rw [same' (by omega), same (by omega), List.append_assoc]
    rfl

theorem mergedPairs_length (kvs : List (Shape × Shape)) :
    (mergedPairs kvs).length = kvs.length := by
  induction kvs with
  | nil => rfl
  | cons kv kvs ih => rw [mergedPairs, List.length_cons, List.length_cons, ih]

theorem echoPairs_length (kvs : List (Shape × Shape)) : (echoPairs kvs).length = kvs.length := by
  induction kvs with
  | nil => rfl
  | cons kv kvs ih => rw [echoPairs, List.length_cons, List.length_cons, ih]

end Shape

namespace Value

theorem pairShapes_eq_map (kvs : List (Value × Value)) :
    pairShapes kvs = kvs.map fun kv => (kv.1.shape, kv.2.shape) := by
  induction kvs with
  | nil => rfl
  | cons kv kvs ih => rw [pairShapes, ih, List.map_cons]

theorem pairShapes_pairwise {kvs : List (Value × Value)} (h : Heap.Distinct kvs) :
    (pairShapes kvs).Pairwise fun a b => a.1.same b.1 = false := by
  rw [pairShapes_eq_map, List.pairwise_map]
  refine h.imp fun {a b} differ => ?_
  rw [Bool.eq_false_iff] at differ ⊢
  exact fun same => differ (equal_of_same a.1 b.1 same)

mutual

theorem merged_shape (v : Value) (made : v.Made) : v.shape.merged = v.shape := by
  cases v with
  | none | int _ | float _ | obj _ | err _ | str _ _ | anon _ _ _ _ => rfl
  | list c xs => exact congrArg Shape.list (merged_shapes xs made)
  | map c kvs =>
    have distinct : Heap.Distinct kvs := by
      obtain ⟨given, e⟩ := made.1
      rw [e]
      exact Heap.insertPairs_distinct List.Pairwise.nil given
    have merged : Shape.insertPairs [] (pairShapes kvs) = [] ++ pairShapes kvs :=
      Shape.insertPairs_new (pairShapes_pairwise distinct)
    refine congrArg Shape.map ?_
    rw [merged_pairShapes kvs made.2]
    exact merged
  | waif c s id cls owner ps => exact congrArg (Shape.waif id cls owner) (merged_shapes ps made)

theorem merged_shapes (vs : List Value) (made : MadeAll vs) :
    Shape.mergedAll (shapes vs) = shapes vs := by
  cases vs with
  | nil => rfl
  | cons v vs => exact congrArg₂ List.cons (merged_shape v made.1) (merged_shapes vs made.2)

theorem merged_pairShapes (kvs : List (Value × Value)) (made : MadePairs kvs) :
    Shape.mergedPairs (pairShapes kvs) = pairShapes kvs := by
  cases kvs with
  | nil => rfl
  | cons kv kvs =>
    exact congrArg₂ List.cons (congrArg₂ Prod.mk (merged_shape _ made.1) (merged_shape _ made.2.1))
      (merged_pairShapes kvs made.2.2)

end

end Value

/-! ## What is kept -/

namespace Shape

mutual

/-- Nothing in the value changes when it is written and read: no text ends in a carriage return, and
what is not a number has the one pattern that is read for it. -/
def Faithful : Shape → Prop
  | none | int _ | obj _ | err _ | anon _ _ => True
  | float x => x.canonical = x
  | str s => s.toList.getLast? ≠ some '\r'
  | list xs => FaithfulAll xs
  | map kvs => FaithfulPairs kvs
  | waif _ _ _ ps => FaithfulAll ps

def FaithfulAll : List Shape → Prop
  | [] => True
  | x :: xs => x.Faithful ∧ FaithfulAll xs

def FaithfulPairs : List (Shape × Shape) → Prop
  | [] => True
  | (k, v) :: kvs => k.Faithful ∧ v.Faithful ∧ FaithfulPairs kvs

end

theorem dropReturn_eq_iff (cs : List Char) : dropReturn cs = cs ↔ cs.getLast? ≠ some '\r' := by
  rw [List.getLast?_eq_head?_reverse]
  unfold dropReturn
  split
  · rename_i front e
    have whole : cs = front.reverse ++ ['\r'] := by
      rw [← List.reverse_reverse cs, e, List.reverse_cons]
    rw [e]
    refine ⟨fun same => ?_, fun ne => absurd rfl ne⟩
    have length := congrArg List.length (same.trans whole)
    simp at length
  · rename_i other
    refine ⟨fun _ some => ?_, fun _ => rfl⟩
    obtain ⟨front, e⟩ := List.head?_eq_some_iff.1 some
    exact other front e

mutual

theorem echo_of_faithful (s : Shape) (h : s.Faithful) : s.echo = s := by
  cases s with
  | none | int _ | obj _ | err _ | anon _ _ => rfl
  | float x => exact congrArg float h
  | str s =>
    have kept : dropReturn s.toList = s.toList := (dropReturn_eq_iff _).2 h
    rw [echo, kept, String.ofList_toList]
  | list xs => exact congrArg list (echoAll_of_faithful xs h)
  | map kvs => exact congrArg map (echoPairs_of_faithful kvs h)
  | waif id cls owner ps => exact congrArg (waif id cls owner) (echoAll_of_faithful ps h)

theorem echoAll_of_faithful (xs : List Shape) (h : FaithfulAll xs) : echoAll xs = xs := by
  cases xs with
  | nil => rfl
  | cons x xs => exact congrArg₂ List.cons (echo_of_faithful x h.1) (echoAll_of_faithful xs h.2)

theorem echoPairs_of_faithful (kvs : List (Shape × Shape)) (h : FaithfulPairs kvs) :
    echoPairs kvs = kvs := by
  cases kvs with
  | nil => rfl
  | cons kv kvs =>
    exact congrArg₂ List.cons
      (congrArg₂ Prod.mk (echo_of_faithful _ h.1) (echo_of_faithful _ h.2.1))
      (echoPairs_of_faithful kvs h.2.2)

end

mutual

theorem faithful_of_merged_echo (s : Shape) (h : s.echo.merged = s) : s.Faithful := by
  cases s with
  | none | int _ | obj _ | err _ | anon _ _ => trivial
  | float x => exact float.inj h
  | str s =>
    refine (dropReturn_eq_iff _).1 ?_
    have same : String.ofList (dropReturn s.toList) = s := str.inj h
    conv_rhs => rw [← same]
    rw [String.toList_ofList]
  | list xs => exact faithfulAll_of_merged_echo xs (list.inj h)
  | map kvs =>
    have same : insertPairs [] (mergedPairs (echoPairs kvs)) = kvs := map.inj h
    have kept := (insertPairs_length [] (mergedPairs (echoPairs kvs))).2 (by
      rw [same, mergedPairs_length, echoPairs_length, List.length_nil, Nat.zero_add])
    rw [kept] at same
    exact faithfulPairs_of_merged_echo kvs same
  | waif id cls owner ps => exact faithfulAll_of_merged_echo ps (waif.inj h).2.2.2

theorem faithfulAll_of_merged_echo (xs : List Shape) (h : mergedAll (echoAll xs) = xs) :
    FaithfulAll xs := by
  cases xs with
  | nil => trivial
  | cons x xs =>
    obtain ⟨first, rest⟩ := List.cons.inj h
    exact ⟨faithful_of_merged_echo x first, faithfulAll_of_merged_echo xs rest⟩

theorem faithfulPairs_of_merged_echo (kvs : List (Shape × Shape))
    (h : mergedPairs (echoPairs kvs) = kvs) : FaithfulPairs kvs := by
  cases kvs with
  | nil => trivial
  | cons kv kvs =>
    obtain ⟨first, rest⟩ := List.cons.inj h
    obtain ⟨key, value⟩ := Prod.mk.inj first
    exact ⟨faithful_of_merged_echo _ key, faithful_of_merged_echo _ value,
      faithfulPairs_of_merged_echo kvs rest⟩

end

end Shape

/-! ## Reading what was written -/

namespace Intake

/-- A value that was written is read, whatever comes behind it, and up to its last line. What is
read is the echo, with keys merged that have become the same. -/
theorem readValue_echo (sink : Option SinkId) (h : Heap) {v : Value} (fits : v.shape.Fits)
    (more : List UInt8) (n : Nat) :
    ∃ v' h', readValue sink ⟨⟨v.encode.toUTF8.toList ++ more, n⟩, h⟩ =
        (.ok v', ⟨⟨more, n + v.shape.lines.length⟩, h'⟩) ∧
      v'.shape = v.shape.echo.merged := by
  refine ⟨(h.build sink v.shape.echo).1, (h.build sink v.shape.echo).2, ?_,
    Heap.build_shape sink h v.shape.echo⟩
  rw [readValue, Value.encode, bytes_textOfLines, Reader.readShape_lines fits more n]

/-- A value as the program makes it, written and read: reading succeeds and takes up just what was
written, and the contents are the same exactly if they are faithful. -/
theorem readValue_encode_iff (sink : Option SinkId) (h : Heap) {v : Value} (made : v.Made)
    (fits : v.shape.Fits) (more : List UInt8) (n : Nat) :
    ∃ v' h', readValue sink ⟨⟨v.encode.toUTF8.toList ++ more, n⟩, h⟩ =
        (.ok v', ⟨⟨more, n + v.shape.lines.length⟩, h'⟩) ∧
      (v'.shape = v.shape ↔ v.shape.Faithful) := by
  obtain ⟨v', h', read, shape⟩ := readValue_echo sink h fits more n
  refine ⟨v', h', read, ?_⟩
  rw [shape]
  refine ⟨v.shape.faithful_of_merged_echo, fun faithful => ?_⟩
  rw [v.shape.echo_of_faithful faithful, v.merged_shape made]

/-- A waif that holds the lesser zero, an error and a negative number, under a text with both
escapes. -/
def escapedPairs : List (Value × Value) :=
  [(.str 0 "a\n\\b", .waif 2 none 0xffffffffffffffff ⟨-1⟩ ⟨7⟩
    [.list 1 [.float ⟨0x8000000000000000⟩, .err .range], .int (-5)])]

def escaped : Value := .map 3 (Heap.insertPairs [] escapedPairs).1

theorem escaped_comes_back :
    escaped.Made ∧ escaped.shape.Fits ∧
      ∃ v' h', readValue none ⟨⟨escaped.encode.toUTF8.toList ++ [], 0⟩, {}⟩ =
        (.ok v', ⟨⟨[], 0 + escaped.shape.lines.length⟩, h'⟩) ∧ v'.shape = escaped.shape := by
  have made : escaped.Made := ⟨⟨escapedPairs, rfl⟩, trivial, ⟨⟨trivial, trivial, trivial⟩, trivial, trivial⟩, trivial⟩
  have fits : escaped.shape.Fits := by
    simp [escaped, escapedPairs, Heap.insertPairs, Heap.insertPair, Value.shape, Value.pairShapes,
      Value.shapes, Shape.Fits, Shape.FitsPairs, Shape.FitsAll, Shape.lengthLimit]
  have text : "a\n\\b".toList.getLast? ≠ some '\r' := by decide
  have zero : Binary64.canonical ⟨0x8000000000000000⟩ = ⟨0x8000000000000000⟩ := by decide
  have faithful : escaped.shape.Faithful :=
    ⟨text, ⟨⟨zero, trivial, trivial⟩, trivial, trivial⟩, trivial⟩
  obtain ⟨v', h', read, same⟩ := readValue_encode_iff none {} made fits [] 0
  exact ⟨made, fits, v', h', read, same.2 faithful⟩

/-- A carriage return at the end of a text does not come back. -/
theorem lastReturn_lost :
    ∃ v' i', readValue none ⟨.ofText (Value.str 0 "a\r").encode, {}⟩ = (.ok v', i') ∧
      v'.shape = .str "a" := by
  obtain ⟨v', h', read, shape⟩ := readValue_echo none {} (v := .str 0 "a\r") trivial [] 0
  rw [List.append_nil] at read
  exact ⟨v', _, read, shape⟩

end Intake

end MooCore
