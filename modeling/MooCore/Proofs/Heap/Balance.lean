import MooCore.Proofs.Heap.Cells
/-!
# Balanced heaps

A heap is balanced for its outside owners when every count is the number of references or pins
there are, owners outside and contents inside taken together. `own` lists the references held
outside, `pin` the pins held outside the queues. A cell that nothing keeps does not exist, except
for the moment in which it is freed.
-/

set_option autoImplicit false
namespace MooCore.Heap

/-- Every count is right, a value is referred to only as it stands in its cell, and no reference was
ever given up that was not there. Only what was claimed is pinned, once unless pins may be copied,
which is what `many` says. -/
structure Counted (many : Prop) (h : Heap) (own pin : List Value) : Prop where
  present : ∀ v ∈ (own ++ h.inside) ++ (pin ++ h.queued), ∀ c, v.cell? = some c →
    ∃ cell, h.cell? c = some cell ∧ cell.value = v
  refs : ∀ c cell, h.cell? c = some cell → cell.refs = mentions c (own ++ h.inside)
  pins : ∀ c cell, h.cell? c = some cell → cell.pins = mentions c (pin ++ h.queued)
  claimed : ∀ c cell, h.cell? c = some cell →
    (0 < cell.pins → cell.queued = true) ∧ (cell.pins ≤ 1 ∨ many)
  named : ∀ c cell, h.cell? c = some cell → cell.value.cell? = some c
  older : ∀ c cell, h.cell? c = some cell → ∀ v ∈ cell.value.children, ∀ d, v.cell? = some d → d < c
  solvent : h.overdrawn = 0

def KeptBut (h : Heap) (c : CellId) : Prop :=
  ∀ d cell, d ≠ c → h.cell? d = some cell → 0 < cell.refs + cell.pins

/-- Every count is right, and something keeps every cell. -/
structure Weighed (many : Prop) (h : Heap) (own pin : List Value) : Prop
    extends Counted many h own pin where
  kept : ∀ c cell, h.cell? c = some cell → 0 < cell.refs + cell.pins

/-- A balanced heap, in which no pin is copied. -/
abbrev Balanced : Heap → List Value → List Value → Prop := Weighed False

variable {many : Prop} {h : Heap} {own own' pin pin' : List Value}

theorem Weighed.keptBut (b : Weighed many h own pin) (c : CellId) : h.KeptBut c :=
  fun d cell _ hd => b.kept d cell hd

theorem Weighed.of_keptBut (k : Counted many h own pin) {c : CellId} (but : h.KeptBut c)
    (at_c : ∀ cell, h.cell? c = some cell → 0 < cell.refs + cell.pins) :
    Weighed many h own pin := by
  refine ⟨k, fun d cell hd => ?_⟩
  by_cases e : d = c
  · subst e
    exact at_c cell hd
  · exact but d cell e hd

theorem Counted.perm (k : Counted many h own pin) (po : own'.Perm own) (pp : pin'.Perm pin) :
    Counted many h own' pin' where
  present v hv := by
    refine k.present v ?_
    simpa [po.mem_iff, pp.mem_iff] using hv
  refs c cell hc := by rw [k.refs c cell hc, mentions_perm (po.append_right _)]
  pins c cell hc := by rw [k.pins c cell hc, mentions_perm (pp.append_right _)]
  claimed := k.claimed
  named := k.named
  older := k.older
  solvent := k.solvent

theorem Weighed.perm (b : Weighed many h own pin) (po : own'.Perm own) (pp : pin'.Perm pin) :
    Weighed many h own' pin' :=
  ⟨b.toCounted.perm po pp, b.kept⟩

theorem Counted.lt_of_mem (k : Counted many h own pin) {v : Value} {c : CellId}
    (hv : v ∈ (own ++ h.inside) ++ (pin ++ h.queued)) (hc : v.cell? = some c) :
    c < h.cells.size := by
  obtain ⟨cell, at_c, -⟩ := k.present v hv c hc
  exact cell?_lt at_c

theorem Counted.mentions_eq_zero (k : Counted many h own pin) {c : CellId} (hc : h.cells.size ≤ c) :
    mentions c (own ++ h.inside) = 0 ∧ mentions c (pin ++ h.queued) = 0 := by
  have out : ∀ v ∈ (own ++ h.inside) ++ (pin ++ h.queued), v.cell? ≠ some c := by
    intro v hv at_c
    exact Nat.not_lt.2 hc (k.lt_of_mem hv at_c)
  constructor
  · refine List.countP_eq_zero.2 fun v hv => ?_
    simpa using out v (List.mem_append_left _ hv)
  · refine List.countP_eq_zero.2 fun v hv => ?_
    simpa using out v (List.mem_append_right _ hv)

theorem Counted.cell_of_owned (k : Counted many h own pin) {v : Value} {c : CellId} (hv : v ∈ own)
    (hc : v.cell? = some c) : ∃ cell, h.cell? c = some cell ∧ cell.value = v ∧ 0 < cell.refs := by
  obtain ⟨cell, at_c, rfl⟩ := k.present v (by simp [hv]) c hc
  refine ⟨cell, at_c, rfl, ?_⟩
  rw [k.refs c cell at_c, mentions_append]
  have pos := mentions_pos hv hc
  omega

theorem Counted.cell_of_held (k : Counted many h own pin) {v : Value} {c : CellId}
    (hv : v ∈ pin ++ h.queued) (hc : v.cell? = some c) :
    ∃ cell, h.cell? c = some cell ∧ cell.value = v ∧ cell.queued = true ∧ 0 < cell.pins := by
  obtain ⟨cell, at_c, rfl⟩ := k.present v (by simp only [List.mem_append] at hv ⊢; tauto) c hc
  have pins := k.pins c cell at_c
  have pos : 0 < cell.pins := pins ▸ mentions_pos hv hc
  exact ⟨cell, at_c, rfl, (k.claimed c cell at_c).1 pos, pos⟩

theorem Counted.cell_of_pinned (k : Counted False h own pin) {v : Value} {c : CellId}
    (hv : v ∈ pin ++ h.queued) (hc : v.cell? = some c) :
    ∃ cell, h.cell? c = some cell ∧ cell.value = v ∧ cell.queued = true ∧ cell.pins = 1 := by
  obtain ⟨cell, at_c, value, queued, pos⟩ := k.cell_of_held hv hc
  have one := (k.claimed c cell at_c).2.resolve_right id
  exact ⟨cell, at_c, value, queued, Nat.le_antisymm one pos⟩

theorem Counted.unpinned (k : Counted many h own pin) {c : CellId} {cell : Cell}
    (hc : h.cell? c = some cell) (fresh : cell.queued = false) : cell.pins = 0 := by
  by_contra some_pin
  have claimed := (k.claimed c cell hc).1 (Nat.pos_of_ne_zero some_pin)
  rw [fresh] at claimed
  cases claimed

theorem Counted.mentions_pin_le (k : Counted False h own pin) (c : CellId) :
    mentions c (pin ++ h.queued) ≤ 1 := by
  rcases Nat.eq_zero_or_pos (mentions c (pin ++ h.queued)) with zero | pos
  · omega
  · obtain ⟨v, hv, hc⟩ := exists_of_mentions pos
    obtain ⟨cell, at_c, -, -, one⟩ := k.cell_of_pinned hv hc
    rw [← k.pins c cell at_c, one]

theorem Weighed.plain (b : Weighed many h own pin) {v : Value} (hv : v.cell? = none) :
    Weighed many h (v :: own) pin := by
  refine ⟨⟨?_, ?_, b.pins, b.claimed, b.named, b.older, b.solvent⟩, b.kept⟩
  · intro u hu c hc
    refine b.present u ?_ c hc
    rcases List.mem_cons.1 hu with rfl | hu
    · rw [hv] at hc
      cases hc
    · exact hu
  · intro c cell hc
    rw [b.refs c cell hc, List.cons_append, mentions_cons, hv]
    simp

theorem Weighed.vanish {v : Value} (b : Weighed many h (v :: own) pin) (hv : v.cell? = none) :
    Weighed many h own pin := by
  refine ⟨⟨?_, ?_, b.pins, b.claimed, b.named, b.older, b.solvent⟩, b.kept⟩
  · exact fun u hu => b.present u (List.mem_cons_of_mem _ hu)
  · intro c cell hc
    rw [b.refs c cell hc, List.cons_append, mentions_cons, hv]
    simp

/-! ## Changing one cell -/

/-- Only the counts and marks of one cell change, and with them the outside owners. -/
theorem Counted.put (k : Counted many h own pin) {c : CellId} {old cell : Cell}
    (hc : h.cell? c = some old) (hv : cell.value = old.value)
    (own_sub : ∀ v ∈ own', v ∈ own ∨ v = old.value) (pin_sub : ∀ v ∈ pin', v ∈ pin ∨ v = old.value)
    (own_else : ∀ d, d ≠ c → mentions d own' = mentions d own)
    (pin_else : ∀ d, d ≠ c → mentions d pin' = mentions d pin)
    (refs : cell.refs = mentions c (own' ++ h.inside))
    (pins : cell.pins = mentions c (pin' ++ h.queued))
    (claimed : (0 < cell.pins → cell.queued = true) ∧ (cell.pins ≤ 1 ∨ many)) :
    Counted many (h.put c cell) own' pin' := by
  have same : (h.put c cell).inside = h.inside := inside_put hc hv
  refine ⟨?_, ?_, ?_, ?_, ?_, ?_, k.solvent⟩
  · intro v hv' d hd
    have before : ∃ at_d, h.cell? d = some at_d ∧ at_d.value = v := by
      by_cases hold : v = old.value
      · subst hold
        obtain rfl : d = c := by
          have at_c := k.named c old hc
          rw [hd] at at_c
          exact Option.some.inj at_c
        exact ⟨old, hc, rfl⟩
      · refine k.present v ?_ d hd
        rw [same, queued_put] at hv'
        simp only [List.mem_append] at hv' ⊢
        rcases hv' with (hv' | hv') | (hv' | hv')
        · exact Or.inl (Or.inl ((own_sub v hv').resolve_right hold))
        · exact Or.inl (Or.inr hv')
        · exact Or.inr (Or.inl ((pin_sub v hv').resolve_right hold))
        · exact Or.inr (Or.inr hv')
    obtain ⟨at_d, found, rfl⟩ := before
    rw [cell?_put hc]
    split
    · rename_i e
      subst e
      rw [hc] at found
      cases found
      exact ⟨cell, rfl, hv⟩
    · exact ⟨at_d, found, rfl⟩
  · intro d at_d hd
    rw [cell?_put hc] at hd
    rw [same]
    split at hd
    · rename_i e
      subst e
      cases hd
      exact refs
    · rename_i e
      rw [k.refs d at_d hd, mentions_append, mentions_append, own_else d e]
  · intro d at_d hd
    rw [cell?_put hc] at hd
    rw [queued_put]
    split at hd
    · rename_i e
      subst e
      cases hd
      exact pins
    · rename_i e
      rw [k.pins d at_d hd, mentions_append, mentions_append, pin_else d e]
  · intro d at_d hd
    rw [cell?_put hc] at hd
    split at hd
    · cases hd
      exact claimed
    · exact k.claimed d at_d hd
  · intro d at_d hd
    rw [cell?_put hc] at hd
    split at hd
    · rename_i e
      subst e
      cases hd
      rw [hv]
      exact k.named d old hc
    · exact k.named d at_d hd
  · intro d at_d hd
    rw [cell?_put hc] at hd
    split at hd
    · rename_i e
      subst e
      cases hd
      rw [hv]
      exact k.older d old hc
    · exact k.older d at_d hd

theorem KeptBut.put {c : CellId} {old : Cell} (but : h.KeptBut c) (hc : h.cell? c = some old)
    (cell : Cell) : (h.put c cell).KeptBut c := by
  intro d at_d ne hd
  rw [cell?_put hc, if_neg ne] at hd
  exact but d at_d ne hd

theorem Counted.pinned (k : Counted many h own pin) {c : CellId} {old cell : Cell}
    (hc : h.cell? c = some old) (value : cell.value = old.value) (refs : cell.refs = old.refs)
    (pins : cell.pins = old.pins + 1) (queued : cell.queued = true)
    (single : old.pins = 0 ∨ many) : Counted many (h.put c cell) own (old.value :: pin) := by
  have its := k.named c old hc
  refine k.put hc value (fun u hu => Or.inl hu) (fun u hu => (List.mem_cons.1 hu).symm)
    (fun _ _ => rfl) (fun d ne => mentions_cons_ne its ne pin) (refs.trans (k.refs c old hc)) ?_
    ⟨fun _ => queued, single.imp_left fun none => by omega⟩
  rw [pins, k.pins c old hc, List.cons_append, mentions_cons, if_pos its]

theorem Weighed.pinned (b : Weighed many h own pin) {c : CellId} {old cell : Cell}
    (hc : h.cell? c = some old) (value : cell.value = old.value) (refs : cell.refs = old.refs)
    (pins : cell.pins = old.pins + 1) (queued : cell.queued = true)
    (single : old.pins = 0 ∨ many) : Weighed many (h.put c cell) own (old.value :: pin) := by
  refine .of_keptBut (b.toCounted.pinned hc value refs pins queued single)
    ((b.keptBut c).put hc cell) fun cell' hc' => ?_
  rw [cell?_put hc, if_pos rfl] at hc'
  cases hc'
  omega

/-- A cell without references and pins goes, and what stands in it falls to the outside. -/
theorem Counted.erase (k : Counted many h own pin) {c : CellId} {cell : Cell}
    (hc : h.cell? c = some cell) (refs : cell.refs = 0) (pins : cell.pins = 0) (but : h.KeptBut c) :
    Weighed many (h.erase c) (cell.value.children ++ own) pin := by
  have inside := inside_erase hc
  have moved : (cell.value.children ++ own ++ (h.erase c).inside).Perm (own ++ h.inside) := by
    refine (List.Perm.append_right _ List.perm_append_comm).trans ?_
    rw [List.append_assoc]
    exact inside.symm.append_left own
  have noRef : mentions c (own ++ h.inside) = 0 := by rw [← k.refs c cell hc, refs]
  have noPin : mentions c (pin ++ h.queued) = 0 := by rw [← k.pins c cell hc, pins]
  have alive : ∀ d at_d, (h.erase c).cell? d = some at_d → d ≠ c ∧ h.cell? d = some at_d := by
    intro d at_d hd
    rw [cell?_erase hc] at hd
    split at hd
    · cases hd
    · exact ⟨‹_›, hd⟩
  refine ⟨⟨?_, ?_, ?_, ?_, ?_, ?_, k.solvent⟩, ?_⟩
  · intro v hv d hd
    rw [queued_erase, List.mem_append, moved.mem_iff, ← List.mem_append] at hv
    obtain ⟨at_d, found, rfl⟩ := k.present v hv d hd
    have ne : d ≠ c := by
      rintro rfl
      rcases List.mem_append.1 hv with hv | hv
      · have pos := mentions_pos hv hd
        omega
      · have pos := mentions_pos hv hd
        omega
    exact ⟨at_d, by rw [cell?_erase hc, if_neg ne, found], rfl⟩
  · intro d at_d hd
    rw [k.refs d at_d (alive d at_d hd).2, mentions_perm moved]
  · intro d at_d hd
    exact k.pins d at_d (alive d at_d hd).2
  · intro d at_d hd
    exact k.claimed d at_d (alive d at_d hd).2
  · intro d at_d hd
    exact k.named d at_d (alive d at_d hd).2
  · intro d at_d hd
    exact k.older d at_d (alive d at_d hd).2
  · intro d at_d hd
    exact but d at_d (alive d at_d hd).1 (alive d at_d hd).2

/-- A new cell takes over what stands in it. -/
theorem Weighed.alloc (b : Weighed many h own pin) {make : CellId → Value} {rest : List Value}
    (hm : (make h.cells.size).cell? = some h.cells.size)
    (taken : own.Perm ((make h.cells.size).children ++ rest)) :
    Weighed many (h.alloc make).2 ((h.alloc make).1 :: rest) pin := by
  set n := h.cells.size with hn
  set v := make n with hv
  have fst : (h.alloc make).1 = v := rfl
  have moved : (v :: rest ++ (h.inside ++ v.children)).Perm (v :: (own ++ h.inside)) := by
    refine List.Perm.cons v ?_
    refine (List.perm_append_comm_assoc rest h.inside v.children).trans ?_
    refine (List.Perm.append_left _ List.perm_append_comm).trans ?_
    exact (List.perm_append_comm.trans (taken.symm.append_right _))
  obtain ⟨noRef, noPin⟩ := b.toCounted.mentions_eq_zero (Nat.le_of_eq hn.symm)
  have cells : ∀ d at_d, (h.alloc make).2.cell? d = some at_d →
      (d = n ∧ at_d = Cell.fresh v) ∨ (d ≠ n ∧ h.cell? d = some at_d) := by
    intro d at_d hd
    rw [cell?_alloc] at hd
    split at hd
    · cases hd
      exact Or.inl ⟨‹_›, rfl⟩
    · exact Or.inr ⟨‹_›, hd⟩
  rw [fst]
  refine ⟨⟨?_, ?_, ?_, ?_, ?_, ?_, b.solvent⟩, ?_⟩
  · intro u hu d hd
    rw [inside_alloc, queued_alloc, List.mem_append, moved.mem_iff] at hu
    have found : u = v ∨ u ∈ (own ++ h.inside) ++ (pin ++ h.queued) := by
      rw [List.mem_append (s := own ++ h.inside)]
      rcases hu with hu | hu
      · rcases List.mem_cons.1 hu with rfl | hu
        · exact Or.inl rfl
        · exact Or.inr (Or.inl hu)
      · exact Or.inr (Or.inr hu)
    rcases found with rfl | hu
    · obtain rfl : d = n := by
        rw [hm] at hd
        exact (Option.some.inj hd).symm
      exact ⟨Cell.fresh v, by rw [cell?_alloc, if_pos rfl], rfl⟩
    · obtain ⟨at_d, hat, rfl⟩ := b.present u hu d hd
      exact ⟨at_d, by rw [cell?_alloc, if_neg (Nat.ne_of_lt (cell?_lt hat)), hat], rfl⟩
  · intro d at_d hd
    rw [inside_alloc, mentions_perm moved, mentions_cons]
    rcases cells d at_d hd with ⟨rfl, rfl⟩ | ⟨ne, hd⟩
    · rw [noRef, if_pos hm]
      rfl
    · rw [b.refs d at_d hd, if_neg (by rw [hm]; simpa using Ne.symm ne)]
      rfl
  · intro d at_d hd
    rw [queued_alloc]
    rcases cells d at_d hd with ⟨rfl, rfl⟩ | ⟨-, hd⟩
    · rw [noPin]
      rfl
    · exact b.pins d at_d hd
  · intro d at_d hd
    rcases cells d at_d hd with ⟨rfl, rfl⟩ | ⟨-, hd⟩
    · exact ⟨nofun, Or.inl (Nat.zero_le _)⟩
    · exact b.claimed d at_d hd
  · intro d at_d hd
    rcases cells d at_d hd with ⟨rfl, rfl⟩ | ⟨-, hd⟩
    · exact hm
    · exact b.named d at_d hd
  · intro d at_d hd u hu e he
    rcases cells d at_d hd with ⟨rfl, rfl⟩ | ⟨-, hd⟩
    · refine b.toCounted.lt_of_mem (v := u) ?_ he
      have mem : u ∈ own := taken.mem_iff.2 (List.mem_append_left _ hu)
      simp [mem]
    · exact b.older d at_d hd u hu e he
  · intro d at_d hd
    rcases cells d at_d hd with ⟨-, rfl⟩ | ⟨-, hd⟩
    · exact Nat.zero_lt_one
    · exact b.kept d at_d hd

theorem Counted.requeue (k : Counted many h own pin) {h' : Heap} (cells : h'.cells = h.cells)
    (drawn : h'.overdrawn = h.overdrawn)
    (moved : (pin' ++ h'.queued).Perm (pin ++ h.queued)) : Counted many h' own pin' := by
  have cell_eq : ∀ c, h'.cell? c = h.cell? c := fun c => by rw [cell?, cell?, cells]
  have inside_eq : h'.inside = h.inside := by rw [inside, contents, cells, inside, contents]
  refine ⟨?_, ?_, ?_, ?_, ?_, ?_, drawn.trans k.solvent⟩
  · intro v hv c hc
    rw [inside_eq, List.mem_append, moved.mem_iff, ← List.mem_append] at hv
    rw [cell_eq]
    exact k.present v hv c hc
  · intro c cell hc
    rw [inside_eq]
    exact k.refs c cell (cell_eq c ▸ hc)
  · intro c cell hc
    rw [mentions_perm moved]
    exact k.pins c cell (cell_eq c ▸ hc)
  · exact fun c cell hc => k.claimed c cell (cell_eq c ▸ hc)
  · exact fun c cell hc => k.named c cell (cell_eq c ▸ hc)
  · exact fun c cell hc => k.older c cell (cell_eq c ▸ hc)

theorem Weighed.requeue (b : Weighed many h own pin) {h' : Heap} (cells : h'.cells = h.cells)
    (drawn : h'.overdrawn = h.overdrawn)
    (moved : (pin' ++ h'.queued).Perm (pin ++ h.queued)) : Weighed many h' own pin' :=
  ⟨b.toCounted.requeue cells drawn moved, fun c cell hc => b.kept c cell (by rwa [cell?, ← cells])⟩

theorem putQueue_moved {s : SinkId} {old es : List Entry} (hs : h.queue? s = some old)
    (moved : (pin' ++ es.map Entry.value).Perm (pin ++ old.map Entry.value)) :
    (pin' ++ (h.putQueue s es).queued).Perm (pin ++ h.queued) := by
  refine (List.perm_append_left_iff (old.map Entry.value)).1 ?_
  calc old.map Entry.value ++ (pin' ++ (h.putQueue s es).queued)
      |>.Perm (pin' ++ (old.map Entry.value ++ (h.putQueue s es).queued)) :=
        List.perm_append_comm_assoc _ _ _
    _ |>.Perm (pin' ++ (es.map Entry.value ++ h.queued)) :=
        (queued_putQueue hs es).symm.append_left pin'
    _ |>.Perm ((pin' ++ es.map Entry.value) ++ h.queued) := by rw [List.append_assoc]
    _ |>.Perm ((pin ++ old.map Entry.value) ++ h.queued) := moved.append_right _
    _ |>.Perm (old.map Entry.value ++ (pin ++ h.queued)) := by
        rw [← List.append_assoc]
        exact List.perm_append_comm.append_right _

end MooCore.Heap
