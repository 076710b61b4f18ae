import MooCore.Proofs.Value.Containment
import MooCore.Proofs.Value.Maps
/-!
# Shares and copies

A share of a value is another reference to its cell, a copy is built of cells of its own. A share is
equal to the value whatever is inside, since the cell is looked at first; only a number that is none,
which has no cell, is not. A copy is equal to the value by what is inside alone, so exactly if there
is neither a number that is none nor anything known by its cell, at any depth.
-/

set_option autoImplicit false
namespace MooCore

theorem Binary64.equal_self (x : Binary64) : x.equal x = !x.isNaN := by simp [equal]

namespace Value

/-- Whether the value is a number that is none. -/
def isNaN : Value → Bool
  | float x => x.isNaN
  | _ => false

/-- References to one and the same value: to one cell, or, without a cell, of one content. -/
def ShareOf (u v : Value) : Prop := u.cell? = v.cell? ∧ (u.cell? = Option.none → u = v)

/-- The value is what it is by its contents: nothing in it is a number that is none, an anonymous
object or a waif. -/
def Firm (v : Value) : Prop :=
  ∀ u : Value, u.Within v → u.isNaN = false ∧ u.isFinalizable = false

variable {u v w : Value}

/-! ## Shares -/

theorem equal_self_iff (v : Value) : v.equal v = true ↔ v.isNaN = false := by
  cases v with
  | float x => simp [equal, isNaN, Binary64.equal_self]
  | none | int | obj | err | str | list | map | anon | waif => simp [equal, isNaN]

theorem Coherent.eq_of_shareOf {p : Value → Prop} (coherent : Coherent p) (hu : p u) (hv : p v)
    (share : u.ShareOf v) : u = v := by
  obtain ⟨cells, plain⟩ := share
  cases at_c : u.cell? with
  | none => exact plain at_c
  | some c => exact coherent.once hu hv at_c (cells.symm.trans at_c)

/-! ## What is firm -/

theorem firm_iff (v : Value) :
    v.Firm ↔ v.isNaN = false ∧ v.isFinalizable = false ∧ ∀ u ∈ v.children, u.Firm := by
  constructor
  · intro firm
    obtain ⟨number, plain⟩ := firm v .refl
    exact ⟨number, plain, fun u inner w within => firm w (.tail within inner)⟩
  · rintro ⟨number, plain, inner⟩ u within
    rcases within.cases with rfl | inside
    · exact ⟨number, plain⟩
    · obtain ⟨w, below, child⟩ := Relation.TransGen.tail'_iff.1 inside
      exact inner w child u below

theorem sameAll_self_iff (vs : List Value) :
    Shape.sameAll (shapes vs) (shapes vs) = true ↔ ∀ v ∈ vs, v.shape.same v.shape = true := by
  induction vs with
  | nil => simp [shapes, Shape.sameAll]
  | cons v vs ih => simp [shapes, Shape.sameAll, ih]

theorem samePairs_self_iff (kvs : List (Value × Value)) :
    Shape.samePairs (pairShapes kvs) (pairShapes kvs) = true ↔
      ∀ v ∈ members kvs, v.shape.same v.shape = true := by
  induction kvs with
  | nil => simp [pairShapes, Shape.samePairs]
  | cons kv kvs ih =>
    obtain ⟨k, v⟩ := kv
    simp [pairShapes, Shape.samePairs, ih, and_assoc]

theorem same_self_iff (v : Value) : v.shape.same v.shape = true ↔ v.Firm := by
  induction v using children_induction with
  | step v ih =>
    rw [firm_iff]
    cases v with
    | list c xs =>
      have inner : (∀ u ∈ xs, u.shape.same u.shape = true) ↔ ∀ u ∈ xs, u.Firm := forall₂_congr ih
      simpa [shape, Shape.same, isNaN, isFinalizable, finalizableId?, children] using
        (sameAll_self_iff xs).trans inner
    | map c kvs =>
      have inner : (∀ u ∈ members kvs, u.shape.same u.shape = true) ↔ ∀ u ∈ members kvs, u.Firm :=
        forall₂_congr ih
      -- What is inside a map is what its pairs refer to, by definition.
      have parts := (samePairs_self_iff kvs).trans inner
      exact parts.trans ⟨fun firm => ⟨rfl, rfl, firm⟩, fun firm => firm.2.2⟩
    | float x =>
      simp [shape, Shape.same, Binary64.equal_self, isNaN, isFinalizable, finalizableId?, children]
    | none | int | obj | err | str | anon | waif =>
      simp [shape, Shape.same, isNaN, isFinalizable, finalizableId?, children]

instance (v : Value) : Decidable v.Firm := decidable_of_iff _ v.same_self_iff

/-! ## Copies -/

theorem Firm.equal (firm : v.Firm) (same : v.shape = w.shape) : v.equal w = true := by
  refine equal_of_same v w ?_
  rw [← same]
  exact v.same_self_iff.2 firm

theorem equal_copy_iff (apart : v.Apart w) (same : v.shape = w.shape) :
    v.equal w = true ↔ v.Firm := by
  rw [equal_of_apart v w apart, ← same]
  exact v.same_self_iff

end Value

theorem Heap.build_apart (sink sink' : Option SinkId) {h h' : Heap} (s s' : Shape)
    (later : (h.build sink s).2.cells.size ≤ h'.cells.size) :
    (h.build sink s).1.Apart (h'.build sink' s').1 := by
  intro c first second
  have before : c < (h.build sink s).2.cells.size := ((build_between sink h s).2 c first).2
  have after : h'.cells.size ≤ c := ((build_between sink' h' s').2 c second).1
  exact absurd (later.trans after) (Nat.not_le.2 before)

namespace Value

/-- Equality is symmetric, whatever the values are. Among values that exist together it is
transitive, and shares are equal unless they are a number that is none; what is held after any
operations, and what is inside, exists together. A firm value is equal to all that has its contents,
and no other value is equal to what has its contents in cells of its own. So of two values that are
built of the same contents, one after the other, the first is equal to the second exactly if it is
firm. -/
theorem equality_laws :
    (∀ u v : Value, u.equal v = v.equal u) ∧
    (∀ p, Coherent p →
      (∀ u v w, p u → p v → p w → u.equal v = true → v.equal w = true → u.equal w = true) ∧
      ∀ u v, p u → p v → u.ShareOf v → (u.equal v = true ↔ u.isNaN = false)) ∧
    (∀ ops, let w := Workspace.start.run ops
      Coherent (· ∈ w.owned ++ w.heap.inside)) ∧
    (∀ v w : Value, v.shape = w.shape →
      (v.Firm → v.equal w = true) ∧ (v.Apart w → v.equal w = true → v.Firm)) ∧
    ∀ (s : Shape) (sink sink' : Option SinkId) (h h' : Heap),
      (h.build sink s).2.cells.size ≤ h'.cells.size →
      ((h.build sink s).1.equal (h'.build sink' s).1 = true ↔ (h.build sink s).1.Firm) := by
  refine ⟨equal_symm, fun p coherent => ⟨?_, ?_⟩, Workspace.run_coherent, ?_, ?_⟩
  · intro u v w hu hv hw uv vw
    exact equal_trans coherent hu hv hw uv vw
  · intro u v hu hv share
    rw [← coherent.eq_of_shareOf hu hv share]
    exact u.equal_self_iff
  · intro v w same
    exact ⟨fun firm => firm.equal same, fun apart => (equal_copy_iff apart same).1⟩
  · intro s sink sink' h h' later
    have same : (h.build sink s).1.shape = (h'.build sink' s).1.shape :=
      (Heap.build_shape sink h s).trans (Heap.build_shape sink' h' s).symm
    exact equal_copy_iff (Heap.build_apart sink sink' s s later) same

end Value

namespace Workspace
open Value (Coherent)

def oddOne : Shape := .list [.float (.nan false)]

def firmOne : Shape :=
  .map [(.str "k", .list [.float (.zero false), .float (.zero true), .err .perm])]

def mixed (cell : CellId) (negative : Bool) : Value :=
  .list cell [.list 0 [.float (.nan false)], .float (.zero negative)]

def mixing : List Op :=
  let beside (negative : Bool) : Recipe := .list [.named "odd", .shape (.float (.zero negative))]
  [.make "odd" (.shape oddOne) false, .share "odd" "same", .make "plus" (beside false) false,
    .make "minus" (beside true) false, .make "again" (beside false) false]

theorem equality_laws_mixed :
    let w := start.run mixing
    let built (s : Shape) := w.heap.build none s
    Coherent (· ∈ w.owned ++ w.heap.inside) ∧
      (∀ v ∈ [mixed 1 false, mixed 2 true, mixed 3 false], v ∈ w.owned ++ w.heap.inside) ∧
      (mixed 1 false).equal (mixed 3 false) = true ∧
      (∃ u v, w.slots.get? "odd" = some u ∧ w.slots.get? "same" = some v ∧ u.ShareOf v ∧
        u.equal v = true) ∧
      (built firmOne).1.Firm ∧
      (built firmOne).1.equal ((built firmOne).2.build none firmOne).1 = true ∧
      (built oddOne).1.equal ((built oddOne).2.build none oddOne).1 = false ∧
      (mixed 1 false).equal (built (mixed 1 false).shape).1 = false := by
  intro w built
  obtain ⟨-, together, held, contents, copies⟩ := Value.equality_laws
  obtain ⟨trans, shares⟩ := together _ (held mixing)
  have all : w.owned ++ w.heap.inside =
      [.list 0 [.float (.nan false)], .list 0 [.float (.nan false)], mixed 1 false, mixed 2 true,
        mixed 3 false, .float (.nan false), .list 0 [.float (.nan false)], .float (.zero false),
        .list 0 [.float (.nan false)], .float (.zero true), .list 0 [.float (.nan false)],
        .float (.zero false)] := rfl
  have mem : ∀ v ∈ [mixed 1 false, mixed 2 true, mixed 3 false],
      v ∈ w.owned ++ w.heap.inside := by
    rw [all]
    simp
  have odd : .list 0 [.float (.nan false)] ∈ w.owned ++ w.heap.inside := by
    rw [all]
    exact List.mem_cons_self
  have firm : (built firmOne).1.Firm := by decide
  have apart : (mixed 1 false).Apart (built (mixed 1 false).shape).1 := by
    unfold Value.Apart
    decide
  refine ⟨held mixing, mem, ?_, ⟨_, _, rfl, rfl, ⟨rfl, nofun⟩, ?_⟩, firm, ?_, ?_, ?_⟩
  · exact trans (mixed 1 false) (mixed 2 true) (mixed 3 false) (mem _ (by simp)) (mem _ (by simp))
      (mem _ (by simp)) rfl rfl
  · exact (shares _ _ odd odd ⟨rfl, nofun⟩).2 rfl
  · exact (contents (built firmOne).1 _ rfl).1 firm
  · have again := copies oddOne none none w.heap (built oddOne).2 (Nat.le_refl _)
    exact Bool.eq_false_iff.2 fun equal => absurd (again.1 equal) (by decide)
  · have copy := (contents (mixed 1 false) (built (mixed 1 false).shape).1 rfl).2 apart
    exact Bool.eq_false_iff.2 fun equal => absurd (copy equal) (by decide)

end Workspace
end MooCore
