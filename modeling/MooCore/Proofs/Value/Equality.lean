import MooCore.Proofs.Heap.Balance
import MooCore.Value.Equality
/-!
# Equality is symmetric and transitive

Equality mixes contents and identity: lists and maps are equal if they are one cell or have equal
contents, and a number that is none is equal to nothing. It is symmetric for all values. It is
transitive for values that stand in one heap, where a cell holds one value; a number that is none
takes away reflexivity only.
-/

set_option autoImplicit false
namespace MooCore

namespace Binary64

theorem equal_symm (x y : Binary64) : x.equal y = y.equal x := by
  simp only [equal, Bool.and_comm x.isZero, Bool.beq_comm (a := x.bits)]
  rw [Bool.and_comm (!x.isNaN)]

theorem equal_trans {x y z : Binary64} (h : x.equal y = true) (h' : y.equal z = true) :
    x.equal z = true := by
  have same {x y : Binary64} (bits : x.bits = y.bits) : x = y := by
    cases x
    cases y
    exact congrArg mk bits
  simp only [equal, Bool.and_eq_true, Bool.or_eq_true, beq_iff_eq] at *
  obtain ⟨⟨hx, hy⟩, xy | ⟨zx, zy⟩⟩ := h
  · rw [same xy]
    exact h'
  · obtain ⟨⟨-, hz⟩, yz | ⟨-, zz⟩⟩ := h'
    · rw [← same yz]
      exact ⟨⟨hx, hy⟩, .inr ⟨zx, zy⟩⟩
    · exact ⟨⟨hx, hz⟩, .inr ⟨zx, zz⟩⟩

end Binary64

namespace Value

mutual

theorem equal_symm (v w : Value) : v.equal w = w.equal v := by
  cases v with
  | list c xs =>
    cases w with
    | list d ys => rw [equal, equal, equalAll_symm xs ys, Bool.beq_comm]
    | _ => rfl
  | map c kvs =>
    cases w with
    | map d lws => rw [equal, equal, equalPairs_symm kvs lws, Bool.beq_comm]
    | _ => rfl
  | float x =>
    cases w with
    | float y => exact x.equal_symm y
    | _ => rfl
  | _ => cases w <;> first | rfl | exact Bool.beq_comm

theorem equalAll_symm (vs ws : List Value) : equalAll vs ws = equalAll ws vs := by
  cases vs with
  | nil => cases ws <;> rfl
  | cons v vs =>
    cases ws with
    | nil => rfl
    | cons w ws => rw [equalAll, equalAll, equal_symm v w, equalAll_symm vs ws]

theorem equalPairs_symm (kvs lws : List (Value × Value)) :
    equalPairs kvs lws = equalPairs lws kvs := by
  match kvs, lws with
  | [], [] => rfl
  | [], _ :: _ => rfl
  | _ :: _, [] => rfl
  | (k, v) :: kvs, (l, w) :: lws =>
    rw [equalPairs, equalPairs, equal_symm k l, equal_symm v w, equalPairs_symm kvs lws]

end

/-! ## Values of one heap -/

/-- Values that exist together: what is inside one of them is one of them, and a cell that two of
them stand in holds one value. -/
structure Coherent (p : Value → Prop) : Prop where
  inside : ∀ {v}, p v → ∀ u ∈ v.children, p u
  once : ∀ {u v}, p u → p v → ∀ {c}, u.cell? = some c → v.cell? = some c → u = v

theorem Coherent.pairs {p : Value → Prop} (coherent : Coherent p) {c : CellId}
    {kvs : List (Value × Value)} (h : p (map c kvs)) : ∀ kv ∈ kvs, p kv.1 ∧ p kv.2 := by
  intro kv mem
  have inner : ∀ u ∈ [kv.1, kv.2], p u := fun u member =>
    coherent.inside h u (List.mem_flatMap.2 ⟨kv, mem, member⟩)
  exact ⟨inner _ (by simp), inner _ (by simp)⟩

section Transitive
variable {p : Value → Prop}

mutual

theorem equal_trans (coherent : Coherent p) {u v w : Value} (hu : p u) (hv : p v) (hw : p w)
    (uv : u.equal v = true) (vw : v.equal w = true) : u.equal w = true := by
  cases u with
  | list c xs =>
    cases v with
    | list d ys =>
      cases w with
      | list e zs =>
        simp only [equal, Bool.or_eq_true, beq_iff_eq] at uv vw
        obtain rfl | uv := uv
        · rw [coherent.once hu hv rfl rfl]
          simpa [equal] using vw
        obtain rfl | vw := vw
        · rw [← coherent.once hv hw rfl rfl]
          simpa [equal] using Or.inr uv
        have inner : equalAll xs zs = true := equalAll_trans coherent (coherent.inside hu)
          (coherent.inside hv) (coherent.inside hw) uv vw
        rw [equal, inner, Bool.or_true]
      | _ => cases vw
    | _ => cases uv
  | map c kvs =>
    cases v with
    | map d lws =>
      cases w with
      | map e mxs =>
        simp only [equal, Bool.or_eq_true, beq_iff_eq] at uv vw
        obtain rfl | uv := uv
        · rw [coherent.once hu hv rfl rfl]
          simpa [equal] using vw
        obtain rfl | vw := vw
        · rw [← coherent.once hv hw rfl rfl]
          simpa [equal] using Or.inr uv
        have inner : equalPairs kvs mxs = true := equalPairs_trans coherent (coherent.pairs hu)
          (coherent.pairs hv) (coherent.pairs hw) uv vw
        rw [equal, inner, Bool.or_true]
      | _ => cases vw
    | _ => cases uv
  | float x =>
    cases v with
    | float y =>
      cases w with
      | float z => exact Binary64.equal_trans uv vw
      | _ => cases vw
    | _ => cases uv
  | none =>
    cases v with
    | none => exact vw
    | _ => cases uv
  | int | obj | err | str | anon | waif =>
    -- These are compared by one number or text, not by what is inside.
    cases v <;> try cases uv
    cases w <;> try cases vw
    simp only [equal, beq_iff_eq] at uv vw ⊢
    exact uv.trans vw

theorem equalAll_trans (coherent : Coherent p) {us vs ws : List Value} (hu : ∀ u ∈ us, p u)
    (hv : ∀ v ∈ vs, p v) (hw : ∀ w ∈ ws, p w) (uv : equalAll us vs = true)
    (vw : equalAll vs ws = true) : equalAll us ws = true := by
  match us, vs, ws with
  | [], [], ws => exact vw
  | [], _ :: _, _ => cases uv
  | _ :: _, [], _ => cases uv
  | _ :: _, _ :: _, [] => cases vw
  | u :: us, v :: vs, w :: ws =>
    simp only [equalAll, Bool.and_eq_true] at uv vw ⊢
    rw [List.forall_mem_cons] at hu hv hw
    exact ⟨equal_trans coherent hu.1 hv.1 hw.1 uv.1 vw.1,
      equalAll_trans coherent hu.2 hv.2 hw.2 uv.2 vw.2⟩

theorem equalPairs_trans (coherent : Coherent p) {kvs lws mxs : List (Value × Value)}
    (hk : ∀ kv ∈ kvs, p kv.1 ∧ p kv.2) (hl : ∀ lw ∈ lws, p lw.1 ∧ p lw.2)
    (hm : ∀ mx ∈ mxs, p mx.1 ∧ p mx.2) (uv : equalPairs kvs lws = true)
    (vw : equalPairs lws mxs = true) : equalPairs kvs mxs = true := by
  match kvs, lws, mxs with
  | [], [], mxs => exact vw
  | [], _ :: _, _ => cases uv
  | _ :: _, [], _ => cases uv
  | _ :: _, _ :: _, [] => cases vw
  | (k, u) :: kvs, (l, v) :: lws, (m, w) :: mxs =>
    simp only [equalPairs, Bool.and_eq_true] at uv vw ⊢
    rw [List.forall_mem_cons] at hk hl hm
    exact ⟨⟨equal_trans coherent hk.1.1 hl.1.1 hm.1.1 uv.1.1 vw.1.1,
      equal_trans coherent hk.1.2 hl.1.2 hm.1.2 uv.1.2 vw.1.2⟩,
      equalPairs_trans coherent hk.2 hl.2 hm.2 uv.2 vw.2⟩

end

end Transitive
end Value

theorem Heap.Counted.coherent {many : Prop} {h : Heap} {own pin : List Value}
    (counted : Counted many h own pin) : Value.Coherent (· ∈ own ++ h.inside) where
  inside := by
    intro v mem u child
    have composite : ∃ c, v.cell? = some c := by
      cases v with
      | none | int | float | obj | err => cases child
      | str | list | map | anon | waif => exact ⟨_, rfl⟩
    obtain ⟨c, at_c⟩ := composite
    obtain ⟨cell, found, rfl⟩ := counted.present v (List.mem_append_left _ mem) c at_c
    exact List.mem_append_right _ (mem_inside_of_child found child)
  once := by
    intro u v hu hv c cu cv
    obtain ⟨cell, found, rfl⟩ := counted.present u (List.mem_append_left _ hu) c cu
    obtain ⟨cell', found', rfl⟩ := counted.present v (List.mem_append_left _ hv) c cv
    cases found.symm.trans found'
    rfl

end MooCore
