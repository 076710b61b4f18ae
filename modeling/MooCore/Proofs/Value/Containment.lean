import MooCore.Proofs.Heap.Cells
/-!
# Containment

A list, map or waif contains values, and what these contain. How deep a value is, is how many
anonymous objects and waifs there are on the longest chain from it downwards.
-/

set_option autoImplicit false
namespace MooCore.Value

/-- The value is directly inside the other. -/
def In (u v : Value) : Prop := u ∈ v.children

/-- The value is inside the other, at any depth. -/
def Inside (u v : Value) : Prop := Relation.TransGen In u v

def Within (u v : Value) : Prop := Relation.ReflTransGen In u v

def Chain (us : List Value) : Prop := us.IsChain fun v u => u.In v

mutual

def depth : Value → Nat
  | none | int _ | float _ | obj _ | err _ | str .. => 0
  | list _ xs => deepest xs
  | map _ kvs => deepestPairs kvs
  | anon .. => 1
  | waif _ _ _ _ _ ps => deepest ps + 1

def deepest : List Value → Nat
  | [] => 0
  | v :: vs => max v.depth (deepest vs)

def deepestPairs : List (Value × Value) → Nat
  | [] => 0
  | (k, v) :: kvs => max k.depth (max v.depth (deepestPairs kvs))

end

variable {u v w : Value} {us vs : List Value}

theorem Inside.within (inside : u.Inside v) : u.Within v := inside.to_reflTransGen

theorem Within.cases (within : u.Within v) : u = v ∨ u.Inside v := by
  rcases Relation.reflTransGen_iff_eq_or_transGen.1 within with same | inside
  · exact Or.inl same.symm
  · exact Or.inr inside

theorem deepestPairs_eq (kvs : List (Value × Value)) :
    deepestPairs kvs = deepest (kvs.flatMap fun (k, v) => [k, v]) := by
  induction kvs with
  | nil => rfl
  | cons kv kvs ih =>
    simp only [deepestPairs, ih, List.flatMap_cons, List.cons_append, List.nil_append, deepest]

theorem depth_eq (v : Value) :
    v.depth = deepest v.children + if v.isFinalizable = true then 1 else 0 := by
  cases v with
  | map c kvs => exact deepestPairs_eq kvs
  | list | none | int | float | obj | err | str | anon | waif => rfl

theorem depth_le_deepest (hv : v ∈ vs) : v.depth ≤ deepest vs := by
  induction vs with
  | nil => cases hv
  | cons u vs ih =>
    rw [deepest]
    rcases List.mem_cons.1 hv with rfl | hv
    · exact le_max_left _ _
    · exact (ih hv).trans (le_max_right _ _)

theorem deepest_le {n : Nat} (each : ∀ v ∈ vs, v.depth ≤ n) : deepest vs ≤ n := by
  induction vs with
  | nil => exact Nat.zero_le n
  | cons v vs ih =>
    exact max_le (each v (by simp)) (ih fun u hu => each u (List.mem_cons_of_mem _ hu))

theorem exists_deepest (some_value : vs ≠ []) : ∃ v ∈ vs, v.depth = deepest vs := by
  induction vs with
  | nil => exact absurd rfl some_value
  | cons v vs ih =>
    rw [deepest]
    rcases le_total (deepest vs) v.depth with below | above
    · exact ⟨v, by simp, (max_eq_left below).symm⟩
    · by_cases last : vs = []
      · subst last
        exact ⟨v, by simp, (max_eq_left (Nat.zero_le _)).symm⟩
      · obtain ⟨u, hu, deep⟩ := ih last
        exact ⟨u, List.mem_cons_of_mem _ hu, deep.trans (max_eq_right above).symm⟩

theorem In.depth_add_le (inner : u.In v) :
    u.depth + (if v.isFinalizable = true then 1 else 0) ≤ v.depth := by
  rw [depth_eq v]
  exact Nat.add_le_add_right (depth_le_deepest inner) _

theorem Within.depth_le (within : u.Within v) : u.depth ≤ v.depth := by
  induction within with
  | refl => exact Nat.le_refl _
  | tail _ inner ih => exact ih.trans (le_of_add_le_left inner.depth_add_le)

theorem Inside.depth_lt (inside : u.Inside v) (kind : v.isFinalizable = true) :
    u.depth < v.depth := by
  obtain ⟨w, within, inner⟩ := Relation.TransGen.tail'_iff.1 inside
  have one := inner.depth_add_le
  rw [if_pos kind] at one
  exact Nat.lt_of_le_of_lt (Within.depth_le within) one

theorem depth_pos (kind : v.isFinalizable = true) : 0 < v.depth := by
  rw [depth_eq, if_pos kind]
  exact Nat.succ_pos _

theorem Chain.count_le (chain : Chain (v :: us)) :
    (v :: us).countP Value.isFinalizable ≤ v.depth := by
  induction us generalizing v with
  | nil =>
    rw [depth_eq, List.countP_singleton]
    exact Nat.le_add_left _ _
  | cons u us ih =>
    obtain ⟨inner, rest⟩ := List.isChain_cons_cons.1 chain
    rw [List.countP_cons]
    exact (Nat.add_le_add_right (ih rest) _).trans (In.depth_add_le inner)

theorem exists_chain (v : Value) :
    ∃ us, Chain (v :: us) ∧ (∀ u ∈ us, u.Within v) ∧
      (v :: us).countP Value.isFinalizable = v.depth := by
  induction v using Value.children_induction with
  | step v ih =>
    by_cases leaf : v.children = []
    · refine ⟨[], List.isChain_singleton _, List.forall_mem_nil _, ?_⟩
      rw [depth_eq, leaf, List.countP_singleton]
      exact (Nat.zero_add _).symm
    · -- The chain goes on in the deepest child.
      obtain ⟨u, inner, deep⟩ := exists_deepest leaf
      obtain ⟨us, chain, within, count⟩ := ih u inner
      refine ⟨u :: us, List.isChain_cons_cons.2 ⟨inner, chain⟩, fun w hw => ?_, ?_⟩
      · have below : u.Within v := .single inner
        rcases List.mem_cons.1 hw with rfl | hw
        · exact below
        · exact (within w hw).trans below
      · rw [List.countP_cons, count, depth_eq v, deep]

end MooCore.Value
