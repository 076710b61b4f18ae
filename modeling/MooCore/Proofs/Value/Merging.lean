import MooCore.Proofs.Heap.Release
import MooCore.Heap.Build
/-!
# The shape of a value that was built

A value is built of fresh cells, so which keys of a map are the same is seen from their shapes
alone: anonymous objects and waifs are all different, and everything else is compared by content.
What is built from a shape has the same shape, with repeated keys merged.
-/

set_option autoImplicit false
namespace MooCore

/-! ## Cells -/

namespace Value

mutual

/-- The cells of a value and of everything inside it. -/
def cells : Value → List CellId
  | none | int _ | float _ | obj _ | err _ => []
  | str c _ | anon c .. => [c]
  | list c xs => c :: cellsAll xs
  | map c kvs => c :: cellsPairs kvs
  | waif c _ _ _ _ ps => c :: cellsAll ps

def cellsAll : List Value → List CellId
  | [] => []
  | v :: vs => v.cells ++ cellsAll vs

def cellsPairs : List (Value × Value) → List CellId
  | [] => []
  | (k, v) :: kvs => k.cells ++ v.cells ++ cellsPairs kvs

end

def Apart (v w : Value) : Prop := ∀ c ∈ v.cells, c ∉ w.cells

end Value

/-! ## Sameness by content -/

namespace Shape

mutual

/-- Whether two values of these shapes, with no cell in common, are equal. -/
def same : Shape → Shape → Bool
  | none, none => true
  | int m, int n => m == n
  | float x, float y => x.equal y
  | obj o, obj p => o == p
  | err e, err f => e == f
  | str s, str t => s == t
  | list xs, list ys => sameAll xs ys
  | map kvs, map lws => samePairs kvs lws
  | _, _ => false

def sameAll : List Shape → List Shape → Bool
  | [], [] => true
  | x :: xs, y :: ys => same x y && sameAll xs ys
  | _, _ => false

def samePairs : List (Shape × Shape) → List (Shape × Shape) → Bool
  | [], [] => true
  | (k, v) :: kvs, (l, w) :: lws => same k l && same v w && samePairs kvs lws
  | _, _ => false

end

def insertPair : List (Shape × Shape) → Shape → Shape → List (Shape × Shape)
  | [], k, v => [(k, v)]
  | (l, w) :: kvs, k, v => if l.same k then (l, v) :: kvs else (l, w) :: insertPair kvs k v

def insertPairs : List (Shape × Shape) → List (Shape × Shape) → List (Shape × Shape)
  | kept, [] => kept
  | kept, (k, v) :: kvs => insertPairs (insertPair kept k v) kvs

mutual

/-- A shape with repeated keys merged: the first place and the last value are kept. -/
def merged : Shape → Shape
  | list xs => list (mergedAll xs)
  | map kvs => map (insertPairs [] (mergedPairs kvs))
  | waif id cls owner ps => waif id cls owner (mergedAll ps)
  | s => s

def mergedAll : List Shape → List Shape
  | [] => []
  | x :: xs => x.merged :: mergedAll xs

def mergedPairs : List (Shape × Shape) → List (Shape × Shape)
  | [] => []
  | (k, v) :: kvs => (k.merged, v.merged) :: mergedPairs kvs

end

end Shape

namespace Value

mutual

theorem equal_of_same (v w : Value) (h : v.shape.same w.shape = true) : v.equal w = true := by
  cases v with
  | list c xs =>
    cases w with
    | list d ys =>
      rw [equal, equalAll_of_same xs ys h, Bool.or_true]
    | _ => cases h
  | map c kvs =>
    cases w with
    | map d lws =>
      rw [equal, equalPairs_of_same kvs lws h, Bool.or_true]
    | _ => cases h
  | _ => cases w <;> first | exact h | cases h

theorem equalAll_of_same (vs ws : List Value) (h : Shape.sameAll (shapes vs) (shapes ws) = true) :
    equalAll vs ws = true := by
  cases vs with
  | nil =>
    cases ws with
    | nil => rfl
    | cons w ws => cases h
  | cons v vs =>
    cases ws with
    | nil => cases h
    | cons w ws =>
      simp only [shapes, Shape.sameAll, Bool.and_eq_true] at h
      rw [equalAll, equal_of_same v w h.1, equalAll_of_same vs ws h.2, Bool.and_true]

theorem equalPairs_of_same (kvs lws : List (Value × Value))
    (h : Shape.samePairs (pairShapes kvs) (pairShapes lws) = true) : equalPairs kvs lws = true := by
  cases kvs with
  | nil =>
    cases lws with
    | nil => rfl
    | cons lw lws => cases h
  | cons kv kvs =>
    cases lws with
    | nil => cases h
    | cons lw lws =>
      simp only [pairShapes, Shape.samePairs, Bool.and_eq_true] at h
      rw [equalPairs, equal_of_same _ _ h.1.1, equal_of_same _ _ h.1.2,
        equalPairs_of_same kvs lws h.2, Bool.and_true, Bool.and_true]

end

mutual

/-- Values with no cell in common are equal by content or not at all. -/
theorem equal_of_apart (v w : Value) (apart : v.Apart w) : v.equal w = v.shape.same w.shape := by
  cases v with
  | list c xs =>
    cases w with
    | list d ys =>
      have other : (c == d) = false := beq_false_of_ne fun e =>
        apart c (List.mem_cons_self ..) (e ▸ List.mem_cons_self ..)
      rw [equal, other, Bool.false_or]
      exact equalAll_of_apart xs ys fun c hc hd =>
        apart c (List.mem_cons_of_mem _ hc) (List.mem_cons_of_mem _ hd)
    | _ => rfl
  | map c kvs =>
    cases w with
    | map d lws =>
      have other : (c == d) = false := beq_false_of_ne fun e =>
        apart c (List.mem_cons_self ..) (e ▸ List.mem_cons_self ..)
      rw [equal, other, Bool.false_or]
      exact equalPairs_of_apart kvs lws fun c hc hd =>
        apart c (List.mem_cons_of_mem _ hc) (List.mem_cons_of_mem _ hd)
    | _ => rfl
  | anon c =>
    cases w with
    | anon d =>
      exact beq_false_of_ne fun e => apart c (List.mem_cons_self ..) (e ▸ List.mem_cons_self ..)
    | _ => rfl
  | waif c =>
    cases w with
    | waif d =>
      exact beq_false_of_ne fun e => apart c (List.mem_cons_self ..) (e ▸ List.mem_cons_self ..)
    | _ => rfl
  | _ => cases w <;> rfl

theorem equalAll_of_apart (vs ws : List Value)
    (apart : ∀ c ∈ cellsAll vs, c ∉ cellsAll ws) :
    equalAll vs ws = Shape.sameAll (shapes vs) (shapes ws) := by
  cases vs with
  | nil => cases ws <;> rfl
  | cons v vs =>
    cases ws with
    | nil => rfl
    | cons w ws =>
      simp only [cellsAll, List.mem_append, not_or] at apart
      simp only [equalAll, shapes, Shape.sameAll]
      rw [equal_of_apart v w fun c hc => (apart c (Or.inl hc)).1,
        equalAll_of_apart vs ws fun c hc => (apart c (Or.inr hc)).2]

theorem equalPairs_of_apart (kvs lws : List (Value × Value))
    (apart : ∀ c ∈ cellsPairs kvs, c ∉ cellsPairs lws) :
    equalPairs kvs lws = Shape.samePairs (pairShapes kvs) (pairShapes lws) := by
  cases kvs with
  | nil => cases lws <;> rfl
  | cons kv kvs =>
    cases lws with
    | nil => rfl
    | cons lw lws =>
      simp only [cellsPairs, List.mem_append, not_or] at apart
      simp only [equalPairs, pairShapes, Shape.samePairs]
      rw [equal_of_apart _ _ fun c hc => (apart c (Or.inl (Or.inl hc))).1.1,
        equal_of_apart _ _ fun c hc => (apart c (Or.inl (Or.inr hc))).1.2,
        equalPairs_of_apart kvs lws fun c hc => (apart c (Or.inr hc)).2]

end

end Value
/-! ## Maps -/

namespace Heap
open Value

theorem mem_cellsPairs {c : CellId} {kvs : List (Value × Value)} :
    c ∈ cellsPairs kvs ↔ ∃ kv ∈ kvs, c ∈ kv.1.cells ∨ c ∈ kv.2.cells := by
  induction kvs with
  | nil => simp [cellsPairs]
  | cons kv kvs ih => simp [cellsPairs, ih, or_assoc]

theorem insertPair_keys {kvs : List (Value × Value)} {k v : Value} {kv : Value × Value}
    (h : kv ∈ (insertPair kvs k v).1) : kv.1 ∈ kvs.map Prod.fst ∨ kv.1 = k := by
  induction kvs with
  | nil =>
    obtain rfl := List.mem_singleton.1 h
    exact Or.inr rfl
  | cons lw kvs ih =>
    unfold insertPair at h
    split at h
    · rcases List.mem_cons.1 h with rfl | old
      · exact Or.inl (List.mem_cons_self ..)
      · exact Or.inl (List.mem_cons_of_mem _ (List.mem_map_of_mem old))
    · rcases List.mem_cons.1 h with rfl | old
      · exact Or.inl (List.mem_cons_self ..)
      · exact (ih old).imp_left (List.mem_cons_of_mem _)

theorem insertPair_cells {kvs : List (Value × Value)} {k v : Value} {c : CellId}
    (h : c ∈ cellsPairs (insertPair kvs k v).1) :
    c ∈ cellsPairs kvs ∨ c ∈ k.cells ∨ c ∈ v.cells := by
  induction kvs with
  | nil => simpa [insertPair, cellsPairs] using h
  | cons lw kvs ih =>
    obtain ⟨l, w⟩ := lw
    unfold insertPair at h
    split at h
    · simp only [cellsPairs, List.mem_append] at h ⊢
      tauto
    · simp only [cellsPairs, List.mem_append] at h ⊢
      rcases h with own | rest
      · exact Or.inl (Or.inl own)
      · exact (ih rest).imp_left Or.inr

theorem insertPairs_cells {kept kvs : List (Value × Value)} {c : CellId}
    (h : c ∈ cellsPairs (insertPairs kept kvs).1) : c ∈ cellsPairs kept ∨ c ∈ cellsPairs kvs := by
  induction kvs generalizing kept with
  | nil => exact Or.inl h
  | cons kv kvs ih =>
    obtain ⟨k, v⟩ := kv
    simp only [cellsPairs, List.mem_append]
    rcases ih h with old | new
    · exact (insertPair_cells old).imp_right Or.inl
    · exact Or.inr (Or.inr new)

theorem insertPair_shapes {kvs : List (Value × Value)} {k : Value} (v : Value)
    (apart : ∀ kv ∈ kvs, kv.1.Apart k) :
    pairShapes (insertPair kvs k v).1 = Shape.insertPair (pairShapes kvs) k.shape v.shape := by
  induction kvs with
  | nil => rfl
  | cons lw kvs ih =>
    obtain ⟨l, w⟩ := lw
    have equal := equal_of_apart l k (apart (l, w) (List.mem_cons_self ..))
    have rest := ih fun kv mem => apart kv (List.mem_cons_of_mem _ mem)
    simp only [insertPair, pairShapes, Shape.insertPair, equal]
    split
    · rfl
    · simp only [pairShapes, rest]

theorem insertPairs_shapes {kept kvs : List (Value × Value)}
    (old : ∀ a ∈ kept, ∀ b ∈ kvs, a.1.Apart b.1) (new : kvs.Pairwise fun a b => a.1.Apart b.1) :
    pairShapes (insertPairs kept kvs).1 = Shape.insertPairs (pairShapes kept) (pairShapes kvs) := by
  induction kvs generalizing kept with
  | nil => rfl
  | cons kv kvs ih =>
    obtain ⟨k, v⟩ := kv
    obtain ⟨first, rest⟩ := List.pairwise_cons.1 new
    have one := insertPair_shapes v fun a mem => old a mem (k, v) (List.mem_cons_self ..)
    have apart : ∀ a ∈ (insertPair kept k v).1, ∀ b ∈ kvs, a.1.Apart b.1 := by
      intro a mem b hb
      rcases insertPair_keys mem with before | same
      · obtain ⟨a', mem', key⟩ := List.mem_map.1 before
        rw [← key]
        exact old a' mem' b (List.mem_cons_of_mem _ hb)
      · rw [same]
        exact first b hb
    simp only [insertPairs, pairShapes, Shape.insertPairs]
    rw [ih apart rest, one]

/-! ## Building -/

def Between (h h' : Heap) (cs : List CellId) : Prop :=
  h.cells.size ≤ h'.cells.size ∧ ∀ c ∈ cs, h.cells.size ≤ c ∧ c < h'.cells.size

variable {h h' h'' : Heap} {cs ds : List CellId}

theorem Between.nil (h : Heap) : Between h h [] := ⟨Nat.le_refl _, by simp⟩

theorem Between.append (first : Between h h' cs) (second : Between h' h'' ds) :
    Between h h'' (cs ++ ds) := by
  refine ⟨first.1.trans second.1, fun c mem => ?_⟩
  rcases List.mem_append.1 mem with mem | mem
  · exact ⟨(first.2 c mem).1, (first.2 c mem).2.trans_le second.1⟩
  · exact ⟨first.1.trans (second.2 c mem).1, (second.2 c mem).2⟩

theorem Between.alloc (parts : Between h h' cs) (make : CellId → Value)
    (taken : (make h'.cells.size).cells = h'.cells.size :: cs) :
    Between h (h'.alloc make).2 (h'.alloc make).1.cells := by
  change _ ≤ _ ∧ ∀ c ∈ (make h'.cells.size).cells, _
  rw [taken, size_alloc]
  refine ⟨parts.1.trans (Nat.le_succ _), fun c mem => ?_⟩
  rcases List.mem_cons.1 mem with rfl | mem
  · exact ⟨parts.1, Nat.lt_succ_self _⟩
  · exact ⟨(parts.2 c mem).1, (parts.2 c mem).2.trans (Nat.lt_succ_self _)⟩

theorem Between.newMap {kvs : List (Value × Value)} (parts : Between h h' (cellsPairs kvs)) :
    Between h (h'.newMap kvs).2 (h'.newMap kvs).1.cells := by
  have released : Later (fun _ => True) h' (h'.releaseAll (insertPairs [] kvs).2) :=
    releaseAll_later _ _
  have kept : Between h (h'.releaseAll (insertPairs [] kvs).2) (cellsPairs (insertPairs [] kvs).1) := by
    refine ⟨parts.1.trans released.grown, fun c mem => ?_⟩
    have inside := parts.2 c ((insertPairs_cells mem).resolve_left (by simp [cellsPairs]))
    exact ⟨inside.1, inside.2.trans_le released.grown⟩
  exact kept.alloc (fun c => .map c (insertPairs [] kvs).1) rfl

mutual

theorem build_between (sink : Option SinkId) (h : Heap) (s : Shape) :
    Between h (h.build sink s).2 (h.build sink s).1.cells := by
  cases s with
  | none | int _ | float _ | obj _ | err _ => exact Between.nil h
  | str s => exact (Between.nil h).alloc _ rfl
  | list xs => exact (buildAll_between sink h xs).alloc _ rfl
  | map kvs => exact (buildPairs_between sink h kvs).newMap
  | anon id parent => exact (Between.nil h).alloc _ rfl
  | waif id cls owner ps => exact (buildAll_between sink h ps).alloc _ rfl

theorem buildAll_between (sink : Option SinkId) (h : Heap) (xs : List Shape) :
    Between h (h.buildAll sink xs).2 (cellsAll (h.buildAll sink xs).1) := by
  cases xs with
  | nil => exact Between.nil h
  | cons x xs => exact (build_between sink h x).append (buildAll_between sink _ xs)

theorem buildPairs_between (sink : Option SinkId) (h : Heap) (kvs : List (Shape × Shape)) :
    Between h (h.buildPairs sink kvs).2 (cellsPairs (h.buildPairs sink kvs).1) := by
  cases kvs with
  | nil => exact Between.nil h
  | cons kv kvs =>
    exact ((build_between sink h kv.1).append (build_between sink _ kv.2)).append
      (buildPairs_between sink _ kvs)

end

theorem buildPairs_apart (sink : Option SinkId) (h : Heap) (kvs : List (Shape × Shape)) :
    (h.buildPairs sink kvs).1.Pairwise fun a b => a.1.Apart b.1 := by
  induction kvs generalizing h with
  | nil => exact List.Pairwise.nil
  | cons kv kvs ih =>
    refine List.pairwise_cons.2 ⟨fun b mem c hc hd => ?_, ih _⟩
    have key := (build_between sink h kv.1).2 c hc
    have value := (build_between sink (h.build sink kv.1).2 kv.2).1
    have later := (buildPairs_between sink _ kvs).2 c (mem_cellsPairs.2 ⟨b, mem, Or.inl hd⟩)
    exact absurd (value.trans later.1) (Nat.not_le.2 key.2)

mutual

theorem build_shape (sink : Option SinkId) (h : Heap) (s : Shape) :
    (h.build sink s).1.shape = s.merged := by
  cases s with
  | none | int _ | float _ | obj _ | err _ | str _ | anon _ _ => rfl
  | list xs => exact congrArg Shape.list (buildAll_shapes sink h xs)
  | map kvs =>
    have parts : pairShapes (insertPairs [] (h.buildPairs sink kvs).1).1 =
        Shape.insertPairs [] (pairShapes (h.buildPairs sink kvs).1) :=
      insertPairs_shapes (by simp) (buildPairs_apart sink h kvs)
    rw [buildPairs_shapes sink h kvs] at parts
    exact congrArg Shape.map parts
  | waif id cls owner ps => exact congrArg (Shape.waif id cls owner) (buildAll_shapes sink h ps)

theorem buildAll_shapes (sink : Option SinkId) (h : Heap) (xs : List Shape) :
    shapes (h.buildAll sink xs).1 = Shape.mergedAll xs := by
  cases xs with
  | nil => rfl
  | cons x xs =>
    exact congrArg₂ List.cons (build_shape sink h x) (buildAll_shapes sink _ xs)

theorem buildPairs_shapes (sink : Option SinkId) (h : Heap) (kvs : List (Shape × Shape)) :
    pairShapes (h.buildPairs sink kvs).1 = Shape.mergedPairs kvs := by
  cases kvs with
  | nil => rfl
  | cons kv kvs =>
    exact congrArg₂ List.cons
      (congrArg₂ Prod.mk (build_shape sink h kv.1) (build_shape sink _ kv.2))
      (buildPairs_shapes sink _ kvs)

end

theorem plain_errorMap_shape (h : Heap) (e : ErrorCode) (message : String) :
    (h.plain (.errorMap e message)).1.shape = .errorMap e message :=
  build_shape none h (.errorMap e message)

end Heap
end MooCore
