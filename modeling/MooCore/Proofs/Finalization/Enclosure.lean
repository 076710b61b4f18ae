import MooCore.Proofs.Finalization.Handling
/-!
# Enclosed queues

A queue is enclosed when nothing outside refers to what it holds. A pass that neither keeps nor
makes values leaves it so. What is left in the queue was inside an entry before, so the longest
chain gets shorter by one anonymous object or waif; and as long as a container is there, nothing in
it is destroyed.
-/

set_option autoImplicit false
namespace MooCore

namespace Heap

/-- What a queue holds: the values of its entries, and all that is inside them. -/
def Stored (s : SinkId) (h : Heap) (u : Value) : Prop := ∃ e ∈ h.entries s, u.Within e.value

/-- How many anonymous objects and waifs there are on the longest chain of values in a queue. -/
def longestChain (s : SinkId) (h : Heap) : Nat :=
  Value.deepest ((h.entries s).map Entry.value)

variable {many : Prop} {s : SinkId} {h : Heap} {own pin : List Value} {u v : Value} {c : CellId}

theorem Stored.within (stored : h.Stored s v) (within : u.Within v) : h.Stored s u := by
  obtain ⟨e, he, inside⟩ := stored
  exact ⟨e, he, within.trans inside⟩

theorem Stored.depth_le (stored : h.Stored s u) : u.depth ≤ h.longestChain s := by
  obtain ⟨e, he, within⟩ := stored
  exact within.depth_le.trans (Value.depth_le_deepest (List.mem_map_of_mem he))

theorem longestChain_isGreatest (s : SinkId) (h : Heap) :
    IsGreatest {n | ∃ us, Value.Chain us ∧ (∀ u ∈ us, h.Stored s u) ∧
      us.countP Value.isFinalizable = n} (h.longestChain s) := by
  constructor
  · by_cases empty : (h.entries s).map Entry.value = []
    · refine ⟨[], List.isChain_nil, List.forall_mem_nil _, ?_⟩
      rw [longestChain, empty]
      rfl
    · obtain ⟨v, hv, deep⟩ := Value.exists_deepest empty
      obtain ⟨e, he, rfl⟩ := List.mem_map.1 hv
      obtain ⟨us, chain, within, count⟩ := e.value.exists_chain
      refine ⟨e.value :: us, chain, fun u hu => ?_, count.trans deep⟩
      rcases List.mem_cons.1 hu with rfl | hu
      · exact ⟨e, he, .refl⟩
      · exact ⟨e, he, within u hu⟩
  · rintro n ⟨us, chain, stored, rfl⟩
    cases us with
    | nil => exact Nat.zero_le _
    | cons u us => exact (Value.Chain.count_le chain).trans (stored u (by simp)).depth_le

theorem Counted.present_within (k : Counted many h own pin) (within : u.Within v)
    (hv : v ∈ (own ++ h.inside) ++ (pin ++ h.queued)) :
    ∀ c, u.cell? = some c → ∃ cell, h.cell? c = some cell ∧ cell.value = u := by
  induction within using Relation.ReflTransGen.head_induction_on with
  | refl => exact k.present v hv
  | head inner _ ih =>
    intro c hc
    rename_i a b _
    cases hb : b.cell? with
    | none =>
      rw [Value.In, Value.children_eq_nil hb] at inner
      exact absurd inner List.not_mem_nil
    | some d =>
      obtain ⟨cell, at_d, rfl⟩ := ih d hb
      refine k.present a ?_ c hc
      exact List.mem_append_left _ (List.mem_append_right _ (mem_inside_of_child at_d inner))

end Heap

namespace Workspace

open Heap

/-- A queue whose values are referred to only from inside values that it holds, were all made for it
and are claimed only as its entries. -/
structure Enclosed (s : SinkId) (w : Workspace) : Prop where
  outside : ∀ u ∈ w.owned ++ w.pinned, w.heap.Stored s u → u.cell? = none
  inside : ∀ c cell, w.heap.cell? c = some cell → ∀ u, u.In cell.value → u.cell? ≠ none →
    w.heap.Stored s u → w.heap.Stored s cell.value
  sunk : ∀ u, w.heap.Stored s u → u.isFinalizable = true → u.sink? = some s
  claimed : ∀ c cell, w.heap.cell? c = some cell → w.heap.Stored s cell.value →
    cell.queued = true → ∃ e ∈ w.heap.entries s, e.value = cell.value

/-- What passes do to a queue: its longest chain becomes shorter by so many, nothing is made,
everything that it held is destroyed or still in it, and nothing is destroyed before what it is
inside of. -/
structure Lowers (s : SinkId) (n : Nat) (w : Workspace) (events : List Happening)
    (w' : Workspace) : Prop where
  shorter : w'.heap.longestChain s ≤ w.heap.longestChain s - n
  none_new : NoneNew w.heap w'.heap
  left : ∀ c cell, w'.heap.cell? c = some cell → w.heap.Stored s cell.value →
    w'.heap.Stored s cell.value
  accounted : ∀ u, w.heap.Stored s u → u.isFinalizable = true →
    (∃ refs, .pass (.destroy u refs) ∈ events) ∨ w'.heap.Stored s u
  outer_first : ∀ before u refs after, events = before ++ .pass (.destroy u refs) :: after →
    ∀ v, w.heap.Stored s v → v.isFinalizable = true → u.Inside v →
      ∃ refs', .pass (.destroy v refs') ∈ before
  passes : ∀ x ∈ events, ∃ e, x = .pass e

variable {s : SinkId} {mine : List String} {w w' w'' : Workspace} {past : List Happening}
  {now later : List Happening} {m n : Nat} {dispatch : Dispatcher} {farewell : Farewell}
  {u v : Value}

/-! ## Runs of passes -/

theorem Lowers.refl (s : SinkId) (w : Workspace) : Lowers s 0 w [] w where
  shorter := Nat.le_refl _
  none_new := NoneNew.refl _
  left _ _ _ stored := stored
  accounted _ stored _ := Or.inr stored
  outer_first before u refs after cut := by simp at cut
  passes := List.forall_mem_nil _

theorem Lowers.trans (first : Lowers s m w now w') (second : Lowers s n w' later w'') :
    Lowers s (m + n) w (now ++ later) w'' where
  shorter := by
    have one := first.shorter
    have two := second.shorter
    omega
  none_new := first.none_new.trans second.none_new
  left c cell hc stored := by
    obtain ⟨cell', hc', value⟩ := second.none_new c cell hc
    have between := first.left c cell' hc' (value ▸ stored)
    exact second.left c cell hc (value ▸ between)
  accounted u stored kind := by
    rcases first.accounted u stored kind with ⟨refs, mem⟩ | between
    · exact Or.inl ⟨refs, List.mem_append_left _ mem⟩
    · rcases second.accounted u between kind with ⟨refs, mem⟩ | still
      · exact Or.inl ⟨refs, List.mem_append_right _ mem⟩
      · exact Or.inr still
  outer_first before u refs after cut v stored kind inside := by
    rcases List.append_eq_append_iff.1 cut with ⟨left, rfl, same⟩ | ⟨left, rfl, same⟩
    · -- the destruction is one of the second run
      rcases first.accounted v stored kind with ⟨refs', mem⟩ | between
      · exact ⟨refs', List.mem_append_left _ mem⟩
      · obtain ⟨refs', mem⟩ := second.outer_first left u refs after same v between kind inside
        exact ⟨refs', List.mem_append_right _ mem⟩
    · cases left with
      | nil =>
        rcases first.accounted v stored kind with ⟨refs', mem⟩ | between
        · exact ⟨refs', by simpa using mem⟩
        · obtain ⟨refs', mem⟩ := second.outer_first [] u refs after same.symm v between kind inside
          exact absurd mem List.not_mem_nil
      | cons x left =>
        obtain ⟨rfl, -⟩ := List.cons.inj same
        exact first.outer_first before u refs left rfl v stored kind inside
  passes x hx := by
    rcases List.mem_append.1 hx with hx | hx
    · exact first.passes x hx
    · exact second.passes x hx

/-! ## One pass -/

theorem Enclosed.domain (enclosed : Enclosed s w) : Domain s (w.heap.Stored s) :=
  ⟨fun _ stored _ inner => stored.within (.single inner), enclosed.sunk⟩

theorem Enclosed.opened (enclosed : Enclosed s w) (rest : Resting s past w) :
    Pass.Tending s (w.heap.Stored s) w.slots w.pins [] (Pass.opened s w) := by
  obtain ⟨es, hs⟩ := rest.sound.alive
  have queue := beginPass_queue hs
  refine ⟨⟨⟨_, queue⟩, fun e he => ?_, fun c cell hc stored queued => ?_⟩, List.Subset.refl _,
    rfl, rfl⟩
  · have he : e ∈ (w.heap.beginPass s).2.entries s := he
    rw [entries_eq queue] at he
    obtain ⟨e, mem, rfl⟩ := List.mem_map.1 he
    exact Or.inr ⟨e, mem, .refl⟩
  · obtain ⟨e, he, value⟩ := enclosed.claimed c cell hc stored queued
    have marked : e.value ∈ ((w.heap.beginPass s).2.entries s).map Entry.value := by
      rw [entries_eq queue, List.map_map]
      exact List.mem_map.2 ⟨e, he, rfl⟩
    have its := rest.sound.balanced.named c cell hc
    exact mentions_pos (List.mem_append_left _ marked) (value ▸ its)

namespace Resting

theorem finalizers_tending (rest : Resting s past w) (enclosed : Enclosed s w)
    (unused : Unused mine w) (hands : (Deed.drain dispatch farewell).HandsBack mine) :
    Pass.Tending s (w.heap.Stored s) w.slots w.pins [] (w.finalizers dispatch s) :=
  Pass.Tending.finalizeAll enclosed.domain unused hands.1
    (Pass.Underway.opened rest.sound rest.ledger) (enclosed.opened rest)

theorem finalizers_underway (rest : Resting s past w)
    (hands : (Deed.drain dispatch farewell).HandsBack mine) :
    Pass.Underway s past ((w.heap.entries s).map Entry.value) (w.finalizers dispatch s) [] [] [] :=
  (Pass.Underway.opened rest.sound rest.ledger).finalizeAll hands.drainsOnly.leavesQueue.1

theorem finalizers_keep (rest : Resting s past w)
    (hands : (Deed.drain dispatch farewell).HandsBack mine) {u : Value}
    (stored : w.heap.Stored s u) {c : CellId} (hc : u.cell? = some c) :
    ∃ cell, (w.finalizers dispatch s).workspace.heap.cell? c = some cell ∧ cell.value = u := by
  obtain ⟨-, new, entries, -⟩ := rest.during hands.drainsOnly.leavesQueue.1
  obtain ⟨e, he, within⟩ := stored
  have still : e.marked ∈ (w.finalizers dispatch s).workspace.heap.entries s := by
    rw [entries]
    exact List.mem_append_left _ (List.mem_map_of_mem he)
  refine (rest.finalizers_underway hands).sound.balanced.toCounted.present_within within ?_ c hc
  have queued := mem_queued_of_entry still
  simp only [List.mem_append]
  exact Or.inr (Or.inr queued)

theorem finalizers_none_new (hands : (Deed.drain dispatch farewell).HandsBack mine) :
    NoneNew w.heap (w.finalizers dispatch s).workspace.heap :=
  foldl_noneNew _ (fun _ v => finalize_noneNew hands.drainsOnly.1 v) (Pass.opened s w)

/-- A value that is referred to when the finalizers are through is inside an entry. -/
theorem staying_inside (rest : Resting s past w) (enclosed : Enclosed s w)
    (unused : Unused mine w)
    (hands : (Deed.drain dispatch farewell).HandsBack mine) {e : Entry}
    (he : e ∈ w.staying dispatch s) :
    ∃ e₀ ∈ w.heap.entries s, e.value.Inside e₀.value := by
  obtain ⟨mem, referred⟩ := List.mem_filter.1 he
  have tending := rest.finalizers_tending enclosed unused hands
  have b := (rest.finalizers_underway hands).sound.balanced
  have stored : w.heap.Stored s e.value := ⟨e, mem, .refl⟩
  obtain ⟨c, hc⟩ := Value.cell?_of_isFinalizable (rest.ledger.kind e mem)
  obtain ⟨cell, at_c, value⟩ := rest.finalizers_keep hands stored hc
  have pos : 0 < cell.refs := by
    by_contra zero
    simp [refs, refs?, cellOf?, hc, at_c, Nat.eq_zero_of_not_pos zero] at referred
  rw [b.refs c cell at_c, show Pass.kept _ = [] from tending.kept, List.map_nil, List.append_nil,
    List.append_nil] at pos
  obtain ⟨u, hu, same⟩ := exists_of_mentions pos
  obtain ⟨cell', at_c', rfl⟩ := b.present u (by
    simp only [List.mem_append] at hu ⊢
    tauto) c same
  rw [at_c] at at_c'
  cases at_c'
  rw [value] at hu
  rcases List.mem_append.1 hu with owned | inside
  · -- what owners hold is not in the queue
    have before : e.value ∈ w.owned := List.map_subset Prod.snd tending.slots owned
    have scalar := enclosed.outside e.value (List.mem_append_left _ before) stored
    rw [hc] at scalar
    cases scalar
  · obtain ⟨d, outer, at_d, inner⟩ := exists_of_mem_inside inside
    obtain ⟨outer₀, at_d₀, same_value⟩ := finalizers_none_new hands d outer at_d
    rw [same_value] at inner
    obtain ⟨e₀, he₀, within⟩ := enclosed.inside d outer₀ at_d₀ e.value inner (by simp [hc]) stored
    exact ⟨e₀, he₀, Relation.TransGen.head' inner within⟩

theorem gone_outermost (rest : Resting s past w)
    (hands : (Deed.drain dispatch farewell).HandsBack mine) {e : Entry}
    (he : e ∈ w.gone dispatch s) {v : Value} (stored : w.heap.Stored s v) : ¬ e.value.Inside v := by
  intro inside
  obtain ⟨mem, zero⟩ := List.mem_filter.1 he
  -- What it is directly in is there, and so refers to it.
  obtain ⟨x, inner, within⟩ := Relation.TransGen.head'_iff.1 inside
  have b := (rest.finalizers_underway hands).sound.balanced
  cases hx : x.cell? with
  | none =>
    rw [Value.In, Value.children_eq_nil hx] at inner
    exact absurd inner List.not_mem_nil
  | some d =>
    obtain ⟨c, hc⟩ := Value.cell?_of_isFinalizable (rest.ledger.kind e mem)
    obtain ⟨outer, at_d, rfl⟩ := rest.finalizers_keep hands (stored.within within) hx
    obtain ⟨cell, at_c, -⟩ := rest.finalizers_keep hands ⟨e, mem, .refl⟩ hc
    have referred := mentions_pos (mem_inside_of_child at_d inner) hc
    have count := b.refs c cell at_c
    rw [mentions_append] at count
    have none : cell.refs = 0 := by simpa [refs, refs?, cellOf?, hc, at_c] using zero
    omega

/-- A pass from its turn on: what it destroys is gone, and the other anonymous objects and waifs of
the queue are not. -/
theorem drained_tending (rest : Resting s past w) (enclosed : Enclosed s w)
    (unused : Unused mine w) (hands : (Deed.drain dispatch farewell).HandsBack mine) :
    let q := w.drainOnce dispatch farewell s
    Pass.Tending s (w.heap.Stored s) w.slots w.pins [] q ∧
      Keeps (fun u => w.heap.Stored s u ∧ u ∉ (w.gone dispatch s).map Entry.value)
        w.heap q.workspace.heap := by
  have tending := rest.finalizers_tending enclosed unused hands
  have under := rest.finalizers_underway hands
  have leave := hands.drainsOnly.leavesQueue
  have taken := (rest.parted (s := s) leave.1).1
  have turned := under.turned
  have pending := tending.turned under.sound.alive
  rw [taken] at turned pending
  have entry : ∀ v ∈ (w.gone dispatch s).map Entry.value, ∃ e ∈ w.heap.entries s, e.value = v := by
    intro v hv
    obtain ⟨e, he, rfl⟩ := List.mem_map.1 hv
    exact ⟨e, (List.mem_filter.1 he).1, rfl⟩
  have destroyed := Pass.Tending.destroyAll enclosed.domain unused hands.2 turned
    (fun v hv => by
      obtain ⟨e, he, rfl⟩ := entry v hv
      exact ⟨e, he, .refl⟩)
    (fun v hv => by
      obtain ⟨e, he, rfl⟩ := entry v hv
      exact rest.ledger.kind e he) pending
  rw [← taken, ← drainOnce_eq] at destroyed
  refine ⟨destroyed.1, fun c cell hc ⟨stored, spared⟩ kind => ?_⟩
  obtain ⟨cell', at_c, value⟩ := rest.finalizers_keep hands stored
    (rest.sound.balanced.named c cell hc)
  obtain ⟨cell'', at_c', value'⟩ := destroyed.2 c cell' at_c
    ⟨value ▸ stored, by rw [value, taken]; exact spared⟩ (value ▸ kind)
  exact ⟨cell'', at_c', value'.trans value⟩

theorem entries_inside (rest : Resting s past w) (enclosed : Enclosed s w)
    (unused : Unused mine w) (hands : (Deed.drain dispatch farewell).HandsBack mine) {e : Entry}
    (he : e ∈ (w.drainOnce dispatch farewell s).workspace.heap.entries s) :
    ∃ e₀ ∈ w.heap.entries s, e.value.Inside e₀.value := by
  obtain ⟨arrivals, pass⟩ := rest.onePass hands.drainsOnly.leavesQueue
  obtain ⟨drained, -⟩ := rest.drained_tending enclosed unused hands
  obtain ⟨e₀, he₀, within⟩ := (drained.tended.entered e he).resolve_left List.not_mem_nil
  rw [pass.entries] at he
  rcases List.mem_append.1 he with stays | came
  · obtain ⟨e, mem, rfl⟩ := List.mem_map.1 stays
    exact rest.staying_inside (e := e) enclosed unused hands mem
  · rcases within.cases with same | inside
    · exact absurd (congrArg Value.cell? same) ((pass.fresh e came).2 e₀ he₀)
    · exact ⟨e₀, he₀, inside⟩

theorem carryOut_drain (rest : Resting s past w) (enclosed : Enclosed s w)
    (unused : Unused mine w) (hands : (Deed.drain dispatch farewell).HandsBack mine) :
    (Deed.drain dispatch farewell).carryOut w =
      ((w.drainOnce dispatch farewell s).events.map .pass,
        (w.drainOnce dispatch farewell s).workspace) := by
  have kept := (rest.drained_tending enclosed unused hands).1.kept
  simp only [Deed.carryOut, drain, rest.sound.queue, kept]
  rfl

theorem drained_balanced (rest : Resting s past w) (enclosed : Enclosed s w)
    (unused : Unused mine w) (hands : (Deed.drain dispatch farewell).HandsBack mine) :
    let w' := (w.drainOnce dispatch farewell s).workspace
    Balanced w'.heap w'.owned w'.pinned := by
  have b := (rest.carryOut_one hands.drainsOnly.leavesQueue).1.sound.balanced
  rw [rest.carryOut_drain enclosed unused hands, List.append_nil, List.append_nil] at b
  exact b

theorem drained_none_new (rest : Resting s past w) (enclosed : Enclosed s w)
    (unused : Unused mine w) (hands : (Deed.drain dispatch farewell).HandsBack mine) :
    NoneNew w.heap (w.drainOnce dispatch farewell s).workspace.heap := by
  have none_new : NoneNew w.heap ((Deed.drain dispatch farewell).carryOut w).2.heap :=
    drain_noneNew rest.sound.queue hands.drainsOnly
  rwa [rest.carryOut_drain enclosed unused hands] at none_new

theorem stored_there (rest : Resting s past w) {u : Value} (stored : w.heap.Stored s u)
    {c : CellId} (hc : u.cell? = some c) :
    ∃ cell, w.heap.cell? c = some cell ∧ cell.value = u := by
  obtain ⟨e, he, within⟩ := stored
  refine rest.sound.balanced.toCounted.present_within within ?_ c hc
  have queued := mem_queued_of_entry he
  simp only [List.mem_append]
  exact Or.inr (Or.inr queued)

theorem left_stored (rest : Resting s past w) (enclosed : Enclosed s w) (unused : Unused mine w)
    (hands : (Deed.drain dispatch farewell).HandsBack mine) {c : CellId} {cell : Cell}
    (at_c : (w.drainOnce dispatch farewell s).workspace.heap.cell? c = some cell)
    (stored : w.heap.Stored s cell.value) :
    (w.drainOnce dispatch farewell s).workspace.heap.Stored s cell.value := by
  obtain ⟨tending, -⟩ := rest.drained_tending enclosed unused hands
  have b := rest.drained_balanced enclosed unused hands
  have none_new := rest.drained_none_new enclosed unused hands
  generalize w.drainOnce dispatch farewell s = q at *
  refine b.climb (P := fun u => w.heap.Stored s u → q.workspace.heap.Stored s u)
    (fun v hv composite before => ?_) (fun d at_d hd queued before => ?_)
    (fun d outer at_d outer_stored u inner composite before => ?_) at_c stored
  · have held : v ∈ w.owned := List.map_subset Prod.snd tending.slots hv
    exact absurd (enclosed.outside v (List.mem_append_left _ held) before) composite
  · obtain ⟨e, he, value⟩ := tending.tended.entry_of_queued b hd before queued
    exact ⟨e, he, value ▸ .refl⟩
  · obtain ⟨outer₀, at_d₀, value⟩ := none_new d outer at_d
    have container := enclosed.inside d outer₀ at_d₀ u (value ▸ inner) composite before
    exact (outer_stored (value ▸ container)).within (.single inner)

theorem stored_before (rest : Resting s past w) (enclosed : Enclosed s w) (unused : Unused mine w)
    (hands : (Deed.drain dispatch farewell).HandsBack mine) {u : Value}
    (stored : (w.drainOnce dispatch farewell s).workspace.heap.Stored s u) : w.heap.Stored s u := by
  obtain ⟨e, he, within⟩ := stored
  obtain ⟨e₀, he₀, inside⟩ := rest.entries_inside enclosed unused hands he
  exact ⟨e₀, he₀, within.trans inside.within⟩

theorem drained_enclosed (rest : Resting s past w) (enclosed : Enclosed s w)
    (unused : Unused mine w) (hands : (Deed.drain dispatch farewell).HandsBack mine) :
    Enclosed s (w.drainOnce dispatch farewell s).workspace := by
  obtain ⟨tending, -⟩ := rest.drained_tending enclosed unused hands
  have before (u : Value) := rest.stored_before enclosed unused hands (u := u)
  refine ⟨fun u hu stored => enclosed.outside u ?_ (before u stored), ?_,
    fun u stored => enclosed.sunk u (before u stored), fun c cell hc stored queued => ?_⟩
  · rcases List.mem_append.1 hu with owned | pinned
    · exact List.mem_append_left _ (List.map_subset Prod.snd tending.slots owned)
    · rw [Workspace.pinned, tending.pins] at pinned
      exact List.mem_append_right _ pinned
  · intro c cell hc u inner some_cell stored
    obtain ⟨cell₀, hc₀, value⟩ := rest.drained_none_new enclosed unused hands c cell hc
    refine rest.left_stored enclosed unused hands hc ?_
    rw [value] at inner ⊢
    exact enclosed.inside c cell₀ hc₀ u inner some_cell (before u stored)
  · exact tending.tended.entry_of_queued (rest.drained_balanced enclosed unused hands) hc
      (before _ stored) queued

theorem drained_shorter (rest : Resting s past w) (enclosed : Enclosed s w)
    (unused : Unused mine w) (hands : (Deed.drain dispatch farewell).HandsBack mine) :
    (w.drainOnce dispatch farewell s).workspace.heap.longestChain s ≤
      w.heap.longestChain s - 1 := by
  refine Value.deepest_le fun v hv => ?_
  obtain ⟨e, he, rfl⟩ := List.mem_map.1 hv
  obtain ⟨e₀, he₀, inside⟩ := rest.entries_inside enclosed unused hands he
  have less := inside.depth_lt (rest.ledger.kind e₀ he₀)
  have le := Stored.depth_le (s := s) ⟨e₀, he₀, .refl⟩
  exact Nat.le_sub_one_of_lt (Nat.lt_of_lt_of_le less le)

theorem drained_accounted (rest : Resting s past w) (enclosed : Enclosed s w)
    (unused : Unused mine w) (hands : (Deed.drain dispatch farewell).HandsBack mine) {u : Value}
    (stored : w.heap.Stored s u) (kind : u.isFinalizable = true) :
    u ∈ (w.gone dispatch s).map Entry.value ∨
      (w.drainOnce dispatch farewell s).workspace.heap.Stored s u := by
  by_cases gone : u ∈ (w.gone dispatch s).map Entry.value
  · exact Or.inl gone
  · obtain ⟨-, keeps⟩ := rest.drained_tending enclosed unused hands
    obtain ⟨c, hc⟩ := Value.cell?_of_isFinalizable kind
    obtain ⟨cell, at_c, rfl⟩ := rest.stored_there stored hc
    obtain ⟨cell', at_c', value⟩ := keeps c cell at_c ⟨stored, gone⟩ kind
    rw [← value] at stored ⊢
    exact Or.inr (rest.left_stored enclosed unused hands at_c' stored)

theorem drained_lowers (rest : Resting s past w) (enclosed : Enclosed s w)
    (unused : Unused mine w) (hands : (Deed.drain dispatch farewell).HandsBack mine) :
    Lowers s 1 w ((w.drainOnce dispatch farewell s).events.map .pass)
      (w.drainOnce dispatch farewell s).workspace := by
  obtain ⟨arrivals, pass⟩ := rest.onePass hands.drainsOnly.leavesQueue
  refine ⟨rest.drained_shorter enclosed unused hands, rest.drained_none_new enclosed unused hands,
    fun c cell hc stored => rest.left_stored enclosed unused hands hc stored, ?_, ?_, ?_⟩
  · intro u stored kind
    rcases rest.drained_accounted enclosed unused hands stored kind with gone | still
    · obtain ⟨e, he, rfl⟩ := List.mem_map.1 gone
      refine Or.inl ⟨0, List.mem_map_of_mem ?_⟩
      rw [pass.events]
      exact List.mem_append_right _ (List.mem_map.2 ⟨e, he, rfl⟩)
    · exact Or.inr still
  · intro sooner u refs after cut v stored kind inside
    have mem : Happening.pass (.destroy u refs) ∈
        (w.drainOnce dispatch farewell s).events.map Happening.pass := by
      rw [cut]
      exact List.mem_append_right _ List.mem_cons_self
    obtain ⟨event, mem, same⟩ := List.mem_map.1 mem
    cases same
    obtain ⟨e, he, rfl⟩ := pass.destroyed mem
    exact absurd inside (rest.gone_outermost hands he stored)
  · intro x hx
    obtain ⟨e, -, rfl⟩ := List.mem_map.1 hx
    exact ⟨e, rfl⟩

theorem pass_lowers (rest : Resting s past w) (enclosed : Enclosed s w) (unused : Unused mine w)
    {d : Deed} (hands : d.HandsBack mine) :
    Enclosed s (d.carryOut w).2 ∧ Unused mine (d.carryOut w).2 ∧
      Lowers s 1 w (d.carryOut w).1 (d.carryOut w).2 := by
  cases d with
  | act op => exact hands.elim
  | restore source => exact hands.elim
  | drain dispatch farewell =>
    rw [rest.carryOut_drain enclosed unused hands]
    exact ⟨rest.drained_enclosed enclosed unused hands,
      Unused.of_subset unused (rest.drained_tending enclosed unused hands).1.slots,
      rest.drained_lowers enclosed unused hands⟩

end Resting

end Workspace
end MooCore
