import Mathlib
import MooCore.Named
/-!
# Tables of names

What is found in a table after it was changed, and what stays in it. Where no name occurs twice, a
table is read by its members.
-/

set_option autoImplicit false
namespace MooCore.Named

theorem find?_of_nodup {α β : Type} [DecidableEq β] {f : α → β} {l : List α}
    (distinct : (l.map f).Nodup) {a : α} (ha : a ∈ l) :
    l.find? (fun x => f x = f a) = some a := by
  induction l with
  | nil => cases ha
  | cons b l ih =>
    rw [List.map_cons, List.nodup_cons] at distinct
    rcases List.mem_cons.1 ha with rfl | ha
    · rw [List.find?_cons_of_pos (by simp)]
    · have ne : f b ≠ f a := fun same => distinct.1 (same ▸ List.mem_map_of_mem ha)
      rw [List.find?_cons_of_neg (by simpa using ne)]
      exact ih distinct.2 ha

section
variable {κ α : Type} [DecidableEq κ] {xs : Named κ α} {k : κ} {a : α}

theorem mem_of_get? (found : xs.get? k = some a) : (k, a) ∈ xs := by
  obtain ⟨x, hx, rfl⟩ := Option.map_eq_some_iff.1 found
  have same : x.1 = k := by simpa using List.find?_some hx
  exact same ▸ List.mem_of_find?_eq_some hx

theorem get?_of_mem (distinct : (xs.map Prod.fst).Nodup) (mem : (k, a) ∈ xs) :
    xs.get? k = some a := by
  rw [get?, find?_of_nodup distinct mem, Option.map_some]

theorem get?_eq_none : xs.get? k = none ↔ k ∉ xs.map Prod.fst := by
  rw [get?, Option.map_eq_none_iff, List.find?_eq_none]
  constructor
  · rintro none_there used
    obtain ⟨x, hx, rfl⟩ := List.mem_map.1 used
    exact none_there x hx (by simp)
  · intro unused x hx same
    simp only [decide_eq_true_eq] at same
    exact unused (same ▸ List.mem_map_of_mem hx)

theorem set_of_unused (unused : k ∉ xs.map Prod.fst) : xs.set k a = xs ++ [(k, a)] := by
  induction xs with
  | nil => rfl
  | cons x xs ih =>
    rw [List.map_cons, List.mem_cons, not_or] at unused
    rw [set, if_neg fun same => unused.1 same.symm, ih unused.2, List.cons_append]

theorem mem_set {x : κ × α} (hx : x ∈ xs.set k a) : x ∈ xs ∨ x = (k, a) := by
  induction xs with
  | nil => exact Or.inr (List.mem_singleton.1 hx)
  | cons y xs ih =>
    rw [set] at hx
    split at hx
    · rcases List.mem_cons.1 hx with new | old
      · exact Or.inr new
      · exact Or.inl (List.mem_cons_of_mem _ old)
    · rcases List.mem_cons.1 hx with rfl | hx
      · exact Or.inl (List.mem_cons_self ..)
      · exact (ih hx).imp_left (List.mem_cons_of_mem _)

theorem set_keys {n : κ} : n ∈ (xs.set k a).map Prod.fst ↔ n ∈ xs.map Prod.fst ∨ n = k := by
  induction xs with
  | nil => simp [set]
  | cons y xs ih =>
    rw [set]
    split
    · rename_i same
      simp only [List.map_cons, List.mem_cons, same]
      exact ⟨fun either => either.symm.imp_left Or.inr, fun either => by tauto⟩
    · simp only [List.map_cons, List.mem_cons, ih, or_assoc]

theorem erase_eq_filter (distinct : (xs.map Prod.fst).Nodup) :
    xs.erase k = xs.filter fun x => x.1 ≠ k := by
  induction xs with
  | nil => rfl
  | cons x xs ih =>
    rw [List.map_cons, List.nodup_cons] at distinct
    by_cases same : x.1 = k
    · rw [erase, List.eraseP_cons_of_pos (by simpa using same),
        List.filter_cons_of_neg (by simpa using same)]
      refine (List.filter_eq_self.2 fun y hy => ?_).symm
      have ne : y.1 ≠ k := fun also => distinct.1 (same.trans also.symm ▸ List.mem_map_of_mem hy)
      simpa using ne
    · rw [erase, List.eraseP_cons_of_neg (by simpa using same),
        List.filter_cons_of_pos (by simpa using same)]
      exact congrArg (x :: ·) (ih distinct.2)

theorem erase_of_unused (unused : xs.get? k = none) : xs.erase k = xs := by
  refine List.eraseP_of_forall_not fun x hx same => ?_
  exact get?_eq_none.1 unused (of_decide_eq_true same ▸ List.mem_map_of_mem hx)

theorem erase_keys_perm (found : xs.get? k = some a) :
    (k :: (xs.erase k).map Prod.fst).Perm (xs.map Prod.fst) := by
  obtain ⟨x, before, after, -, same, rfl, erased⟩ :=
    List.exists_of_eraseP (p := fun x => decide (x.1 = k)) (mem_of_get? found) (decide_eq_true rfl)
  rw [erase, erased, List.map_append, List.map_append, List.map_cons, of_decide_eq_true same]
  exact List.perm_middle.symm

theorem update_keys (f : α → α) : (xs.update k f).map Prod.fst = xs.map Prod.fst := by
  rw [update, List.map_map]
  refine List.map_congr_left fun x _ => ?_
  rw [Function.comp_apply]
  split <;> rfl

theorem mem_update {f : α → α} {x : κ × α} (hx : x ∈ xs.update k f) :
    (x ∈ xs ∧ x.1 ≠ k) ∨ ∃ y ∈ xs, y.1 = k ∧ x = (k, f y.2) := by
  obtain ⟨y, hy, rfl⟩ := List.mem_map.1 hx
  by_cases same : y.1 = k
  · exact Or.inr ⟨y, hy, same, by rw [if_pos same, same]⟩
  · rw [if_neg same]
    exact Or.inl ⟨hy, same⟩

/-! ## One name -/

theorem get?_set (xs : Named κ α) (name other : κ) (a : α) :
    (xs.set name a).get? other = if other = name then some a else xs.get? other := by
  induction xs with
  | nil =>
    by_cases h : other = name
    · simp [set, get?, h]
    · simp [set, get?, h, Ne.symm h]
  | cons x xs ih =>
    unfold get? at ih ⊢
    unfold set
    by_cases first : x.1 = name
    · by_cases h : other = name
      · simp [first, h]
      · simp [first, h, Ne.symm h]
    · by_cases here : x.1 = other
      · have ne : other ≠ name := fun e => first (here.trans e)
        simp [here, ne]
      · simp only [first, if_false, List.find?_cons, here, decide_false]
        exact ih

theorem get?_update (xs : Named κ α) (name other : κ) (f : α → α) :
    (xs.update name f).get? other =
      if other = name then (xs.get? other).map f else xs.get? other := by
  induction xs with
  | nil => simp [update, get?]
  | cons x xs ih =>
    unfold get? update at ih ⊢
    by_cases here : x.1 = other
    · by_cases its : other = name
      · simp [here, its]
      · simp [here, its]
    · by_cases first : x.1 = name
      · simp only [List.map_cons, first, if_true, List.find?_cons] at ih ⊢
        have ne : name ≠ other := fun e => here (first.trans e)
        simpa [ne] using ih
      · simp only [List.map_cons, first, if_false, List.find?_cons, here, decide_false]
        exact ih

theorem get?_erase_ne (xs : Named κ α) {name other : κ} (ne : other ≠ name) :
    (xs.erase name).get? other = xs.get? other := by
  induction xs with
  | nil => rfl
  | cons x xs ih =>
    unfold get? erase at ih ⊢
    by_cases first : x.1 = name
    · have apart : x.1 ≠ other := fun e => ne (e.symm.trans first)
      simp [first, Ne.symm ne]
    · simp only [List.eraseP_cons, first, decide_false, cond_false, List.find?_cons]
      split
      · rfl
      · exact ih

theorem erase_set (xs : Named κ α) (name : κ) (a : α) : (xs.set name a).erase name = xs.erase name := by
  induction xs with
  | nil => simp [set, erase]
  | cons x xs ih =>
    by_cases first : x.1 = name
    · simp [set, erase, first]
    · simp only [set, erase, first, if_false, List.eraseP_cons, decide_false, cond_false] at ih ⊢
      rw [ih]

theorem get?_erase_self {xs : Named κ α} {name : κ} (distinct : (xs.map Prod.fst).Nodup) :
    (xs.erase name).get? name = none := by
  rw [get?_eq_none, erase_eq_filter distinct]
  simp

theorem of_get?_update {xs : Named κ α} {name other : κ} {f : α → α} {b : α}
    (found : (xs.update name f).get? other = some b) :
    ∃ a, xs.get? other = some a ∧ b = if other = name then f a else a := by
  rw [get?_update] at found
  by_cases same : other = name
  · rw [if_pos same] at found
    obtain ⟨a, before, rfl⟩ := Option.map_eq_some_iff.1 found
    exact ⟨a, before, (if_pos same).symm⟩
  · rw [if_neg same] at found
    exact ⟨b, found, (if_neg same).symm⟩

theorem get?_update_isSome (xs : Named κ α) (name other : κ) (f : α → α) :
    ((xs.update name f).get? other).isSome = (xs.get? other).isSome := by
  rw [get?_update]
  split
  · exact Option.isSome_map
  · rfl

theorem of_get?_erase {xs : Named κ α} (distinct : (xs.map Prod.fst).Nodup) {name other : κ}
    {a : α} (found : (xs.erase name).get? other = some a) :
    other ≠ name ∧ xs.get? other = some a := by
  by_cases same : other = name
  · rw [same, get?_erase_self distinct] at found
    cases found
  · exact ⟨same, get?_erase_ne xs same ▸ found⟩

theorem has_eq (xs : Named κ α) (name : κ) : xs.has name = (xs.get? name).isSome := by
  rw [has, get?, Option.isSome_map, List.isSome_find?]

/-! ## No name twice -/

theorem set_distinct {xs : Named κ α} (distinct : (xs.map Prod.fst).Nodup) (name : κ) (a : α) :
    ((xs.set name a).map Prod.fst).Nodup := by
  induction xs with
  | nil => simp [set]
  | cons x xs ih =>
    rw [List.map_cons, List.nodup_cons] at distinct
    rw [set]
    split
    · rename_i same
      exact List.nodup_cons.2 (same ▸ distinct)
    · rename_i other
      refine List.nodup_cons.2 ⟨fun again => ?_, ih distinct.2⟩
      exact (set_keys.1 again).elim distinct.1 other

theorem erase_distinct {xs : Named κ α} (distinct : (xs.map Prod.fst).Nodup) (name : κ) :
    ((xs.erase name).map Prod.fst).Nodup :=
  distinct.sublist (List.eraseP_sublist.map _)

theorem update_distinct {xs : Named κ α} (distinct : (xs.map Prod.fst).Nodup) (name : κ)
    (f : α → α) : ((xs.update name f).map Prod.fst).Nodup := by
  rwa [update_keys]

/-! ## What the names stand for -/

theorem set_values_perm (xs : Named κ α) (name : κ) (a : α) :
    ((xs.get? name).toList ++ (xs.set name a).map Prod.snd).Perm (a :: xs.map Prod.snd) := by
  induction xs with
  | nil => exact List.Perm.refl _
  | cons x xs ih =>
    by_cases hx : x.1 = name
    · simp only [get?, set, List.find?_cons, hx, decide_true, Option.map_some, Option.toList_some,
        if_true, List.map_cons, List.cons_append, List.nil_append]
      exact List.Perm.swap _ _ _
    · simp only [get?, set, List.find?_cons, hx, decide_false, if_false, List.map_cons]
      refine (List.perm_middle).trans ((ih.cons x.2).trans ?_)
      exact List.Perm.swap _ _ _

theorem erase_values_perm {xs : Named κ α} {name : κ} {a : α} (found : xs.get? name = some a) :
    (a :: (xs.erase name).map Prod.snd).Perm (xs.map Prod.snd) := by
  induction xs with
  | nil => cases found
  | cons x xs ih =>
    by_cases hx : x.1 = name
    · simp only [get?, List.find?_cons, hx, decide_true, Option.map_some, Option.some.injEq] at found
      subst found
      simp only [erase, List.eraseP_cons, hx, decide_true, cond_true, List.map_cons]
      exact List.Perm.refl _
    · simp only [get?, List.find?_cons, hx, decide_false] at found
      simp only [erase, List.eraseP_cons, hx, decide_false, cond_false, List.map_cons]
      exact (List.Perm.swap _ _ _).trans ((ih found).cons x.2)

/-! ## What is seen of some names only -/

section
variable {β : Type} {f : κ × α → Option β} {name : κ}

theorem filterMap_set (xs : Named κ α) (unseen : ∀ a, f (name, a) = none) (a : α) :
    (xs.set name a).filterMap f = xs.filterMap f := by
  induction xs with
  | nil => simp [set, unseen]
  | cons x xs ih =>
    obtain ⟨other, b⟩ := x
    by_cases first : other = name
    · subst first
      simp [set, unseen]
    · simp only [set, first, if_false, List.filterMap_cons, ih]

theorem filterMap_erase (xs : Named κ α) (unseen : ∀ a, f (name, a) = none) :
    (xs.erase name).filterMap f = xs.filterMap f := by
  induction xs with
  | nil => rfl
  | cons x xs ih =>
    obtain ⟨other, b⟩ := x
    by_cases first : other = name
    · subst first
      simp [erase, unseen]
    · simp only [erase, List.eraseP_cons, first, decide_false, cond_false, List.filterMap_cons] at ih ⊢
      rw [ih]

end

end

end MooCore.Named
