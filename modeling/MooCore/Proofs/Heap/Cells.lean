import Mathlib
import MooCore.Workspace
/-!
# Cells and what refers to them

What the operations on single cells do to the contents of a heap: which values stand in its cells,
which values stand inside those, and which values wait in its queues. Values are finite trees, so a
property passes to a value from the values directly inside it.
-/

set_option autoImplicit false
namespace MooCore

namespace Value

/-- The values that the pairs of a map refer to. -/
def members (kvs : List (Value × Value)) : List Value := kvs.flatMap fun (k, v) => [k, v]

@[simp] theorem members_nil : members [] = [] := rfl

@[simp] theorem members_cons (k v : Value) (kvs : List (Value × Value)) :
    members ((k, v) :: kvs) = k :: v :: members kvs := rfl

theorem sizeOf_child_lt {v w : Value} (h : w ∈ v.children) : sizeOf w < sizeOf v := by
  cases v with
  | list c xs =>
    have lt : sizeOf w < sizeOf xs := List.sizeOf_lt_of_mem h
    simp only [list.sizeOf_spec]
    omega
  | map c kvs =>
    simp only [children, List.mem_flatMap, List.mem_cons, List.not_mem_nil, or_false] at h
    obtain ⟨⟨k, u⟩, hp, hw⟩ := h
    have lt := List.sizeOf_lt_of_mem hp
    simp only [map.sizeOf_spec, Prod.mk.sizeOf_spec] at lt ⊢
    rcases hw with rfl | rfl <;> omega
  | waif c s id cls owner ps =>
    have lt : sizeOf w < sizeOf ps := List.sizeOf_lt_of_mem h
    simp only [waif.sizeOf_spec]
    omega
  | none | int _ | float _ | obj _ | err _ | str _ _ | anon _ _ _ _ => cases h

theorem children_induction {P : Value → Prop} (step : ∀ v, (∀ w ∈ v.children, P w) → P v)
    (v : Value) : P v :=
  step v fun w _ => children_induction step w
termination_by sizeOf v
decreasing_by exact sizeOf_child_lt ‹_›

theorem children_eq_nil {v : Value} (h : v.cell? = Option.none) : v.children = [] := by
  cases v <;> first | rfl | cases h

theorem cell?_of_isFinalizable {v : Value} (h : v.isFinalizable = true) :
    ∃ c, v.cell? = some c := by
  cases v <;> first | exact ⟨_, rfl⟩ | cases h

theorem isFinalizable_of_sink? {v : Value} {s : SinkId} (h : v.sink? = some s) :
    v.isFinalizable = true := by
  cases v <;> first | rfl | cases h

end Value

namespace Heap

/-! ## Mentions -/

def mentions (c : CellId) (vs : List Value) : Nat := vs.countP fun v => v.cell? == some c

@[simp] theorem mentions_nil (c : CellId) : mentions c [] = 0 := rfl

@[simp] theorem mentions_append (c : CellId) (us vs : List Value) :
    mentions c (us ++ vs) = mentions c us + mentions c vs := List.countP_append

theorem mentions_cons (c : CellId) (v : Value) (vs : List Value) :
    mentions c (v :: vs) = mentions c vs + if v.cell? = some c then 1 else 0 := by
  simp [mentions, List.countP_cons]

theorem mentions_cons_ne {c d : CellId} {v : Value} (its : v.cell? = some c) (ne : d ≠ c)
    (vs : List Value) : mentions d (v :: vs) = mentions d vs := by
  rw [mentions_cons, its, if_neg (by simpa using Ne.symm ne), Nat.add_zero]

theorem mentions_perm {us vs : List Value} (h : us.Perm vs) (c : CellId) :
    mentions c us = mentions c vs := h.countP_eq _

theorem mentions_pos {c : CellId} {v : Value} {vs : List Value} (hv : v ∈ vs)
    (hc : v.cell? = some c) : 0 < mentions c vs :=
  List.countP_pos_iff.2 ⟨v, hv, by simp [hc]⟩

theorem exists_of_mentions {c : CellId} {vs : List Value} (h : 0 < mentions c vs) :
    ∃ v ∈ vs, v.cell? = some c := by
  obtain ⟨v, hv, hc⟩ := List.countP_pos_iff.1 h
  exact ⟨v, hv, by simpa using hc⟩

/-! ## Reading and writing -/

theorem cell?_lt {h : Heap} {c : CellId} {cell : Cell} (hc : h.cell? c = some cell) :
    c < h.cells.size := by
  by_contra out
  simp [cell?, Array.getElem?_eq_none (Nat.le_of_not_lt out)] at hc

theorem queue?_lt {h : Heap} {s : SinkId} {es : List Entry} (hs : h.queue? s = some es) :
    s < h.queues.size := by
  by_contra out
  simp [queue?, Array.getElem?_eq_none (Nat.le_of_not_lt out)] at hs

theorem cell?_put {h : Heap} {c : CellId} {old : Cell} (hc : h.cell? c = some old) (cell : Cell)
    (d : CellId) : (h.put c cell).cell? d = if d = c then some cell else h.cell? d := by
  have lt := cell?_lt hc
  by_cases hd : d = c
  · subst hd
    simp [put, cell?, lt]
  · simp [put, cell?, hd, Ne.symm hd]

theorem cell?_erase {h : Heap} {c : CellId} {old : Cell} (hc : h.cell? c = some old)
    (d : CellId) : (h.erase c).cell? d = if d = c then none else h.cell? d := by
  have lt := cell?_lt hc
  by_cases hd : d = c
  · subst hd
    simp [erase, cell?, lt]
  · simp [erase, cell?, hd, Ne.symm hd]

theorem queue?_putQueue {h : Heap} {s : SinkId} {old : List Entry} (hs : h.queue? s = some old)
    (es : List Entry) (t : SinkId) :
    (h.putQueue s es).queue? t = if t = s then some es else h.queue? t := by
  have lt := queue?_lt hs
  by_cases ht : t = s
  · subst ht
    simp [putQueue, queue?, lt]
  · simp [putQueue, queue?, ht, Ne.symm ht]

theorem put_put (h : Heap) (c : CellId) (cell cell' : Cell) :
    (h.put c cell).put c cell' = h.put c cell' := by
  simp [put]

theorem erase_put (h : Heap) (c : CellId) (cell : Cell) : (h.put c cell).erase c = h.erase c := by
  simp [put, erase]

@[simp] theorem cell?_putQueue (h : Heap) (s : SinkId) (es : List Entry) (c : CellId) :
    (h.putQueue s es).cell? c = h.cell? c := rfl

@[simp] theorem queue?_put (h : Heap) (c : CellId) (cell : Cell) (s : SinkId) :
    (h.put c cell).queue? s = h.queue? s := rfl

@[simp] theorem queue?_erase (h : Heap) (c : CellId) (s : SinkId) :
    (h.erase c).queue? s = h.queue? s := rfl

@[simp] theorem size_put (h : Heap) (c : CellId) (cell : Cell) :
    (h.put c cell).cells.size = h.cells.size := Array.size_setIfInBounds

@[simp] theorem size_erase (h : Heap) (c : CellId) :
    (h.erase c).cells.size = h.cells.size := Array.size_setIfInBounds

@[simp] theorem size_putQueue (h : Heap) (s : SinkId) (es : List Entry) :
    (h.putQueue s es).cells.size = h.cells.size := rfl

@[simp] theorem queue?_alloc (h : Heap) (make : CellId → Value) (s : SinkId) :
    (h.alloc make).2.queue? s = h.queue? s := rfl

@[simp] theorem size_alloc (h : Heap) (make : CellId → Value) :
    (h.alloc make).2.cells.size = h.cells.size + 1 := Array.size_push _

theorem cell?_alloc (h : Heap) (make : CellId → Value) (c : CellId) :
    (h.alloc make).2.cell? c =
      if c = h.cells.size then some (Cell.fresh (make h.cells.size)) else h.cell? c := by
  simp only [alloc, cell?, Array.getElem?_push]
  split <;> rfl

/-! ## Contents -/

/-- The value in each cell, gaps included. -/
def contents (h : Heap) : List (Option Value) := h.cells.toList.map (Option.map Cell.value)

def membersOf (o : Option Value) : List Value := o.elim [] Value.children

/-- The values directly inside the cells. -/
def inside (h : Heap) : List Value := h.contents.flatMap membersOf

def entriesOf (q : Option (List Entry)) : List Value := q.elim [] (List.map Entry.value)

/-- The values in the queues. -/
def queued (h : Heap) : List Value := h.queues.toList.flatMap entriesOf

theorem contents_getElem? (h : Heap) (c : CellId) :
    h.contents[c]? = (h.cells[c]?).map (Option.map Cell.value) := by
  simp [contents]

theorem cell?_eq_some {h : Heap} {c : CellId} {cell : Cell} :
    h.cell? c = some cell ↔ h.cells[c]? = some (some cell) := by
  simp [cell?, Option.join_eq_some_iff]

theorem contents_of_cell? {h : Heap} {c : CellId} {cell : Cell} (hc : h.cell? c = some cell) :
    h.contents[c]? = some (some cell.value) := by
  rw [contents_getElem?, cell?_eq_some.1 hc]
  rfl

@[simp] theorem contents_putQueue (h : Heap) (s : SinkId) (es : List Entry) :
    (h.putQueue s es).contents = h.contents := rfl

@[simp] theorem queued_put (h : Heap) (c : CellId) (cell : Cell) :
    (h.put c cell).queued = h.queued := rfl

@[simp] theorem queued_erase (h : Heap) (c : CellId) : (h.erase c).queued = h.queued := rfl

@[simp] theorem queued_alloc (h : Heap) (make : CellId → Value) :
    (h.alloc make).2.queued = h.queued := rfl

theorem contents_put {h : Heap} {c : CellId} {old cell : Cell} (hc : h.cell? c = some old)
    (hv : cell.value = old.value) : (h.put c cell).contents = h.contents := by
  have at_c := contents_of_cell? hc
  simp only [contents, put, Array.toList_setIfInBounds, List.map_set, Option.map_some, hv]
  obtain ⟨lt, at_c⟩ := List.getElem?_eq_some_iff.1 at_c
  rw [← at_c]
  exact List.set_getElem_self lt

theorem contents_erase (h : Heap) (c : CellId) :
    (h.erase c).contents = h.contents.set c none := by
  simp [contents, erase, List.map_set]

theorem contents_alloc (h : Heap) (make : CellId → Value) :
    (h.alloc make).2.contents = h.contents ++ [some (make h.cells.size)] := by
  simp [contents, alloc, Cell.fresh]

@[simp] theorem inside_putQueue (h : Heap) (s : SinkId) (es : List Entry) :
    (h.putQueue s es).inside = h.inside := rfl

theorem inside_put {h : Heap} {c : CellId} {old cell : Cell} (hc : h.cell? c = some old)
    (hv : cell.value = old.value) : (h.put c cell).inside = h.inside := by
  rw [inside, contents_put hc hv, inside]

theorem inside_alloc (h : Heap) (make : CellId → Value) :
    (h.alloc make).2.inside = h.inside ++ (make h.cells.size).children := by
  simp [inside, contents_alloc, membersOf]

theorem flatMap_set_perm {α β : Type} (f : α → List β) {xs : List α} {i : Nat} {x : α}
    (hi : xs[i]? = some x) (y : α) :
    (f y ++ xs.flatMap f).Perm (f x ++ (xs.set i y).flatMap f) := by
  induction xs generalizing i with
  | nil => simp at hi
  | cons a xs ih =>
    cases i with
    | zero =>
      obtain rfl : a = x := by simpa using hi
      simp only [List.set_cons_zero, List.flatMap_cons]
      exact List.perm_append_comm_assoc _ _ _
    | succ i =>
      have tail := (ih (i := i) (by simpa using hi)).append_left (f a)
      simp only [List.set_cons_succ, List.flatMap_cons]
      exact (List.perm_append_comm_assoc _ _ _).trans (tail.trans (List.perm_append_comm_assoc _ _ _))

theorem inside_erase {h : Heap} {c : CellId} {old : Cell} (hc : h.cell? c = some old) :
    h.inside.Perm (old.value.children ++ (h.erase c).inside) := by
  have p := flatMap_set_perm membersOf (contents_of_cell? hc) none
  simpa [inside, contents_erase, membersOf] using p

theorem queued_putQueue {h : Heap} {s : SinkId} {old : List Entry} (hs : h.queue? s = some old)
    (es : List Entry) :
    (es.map Entry.value ++ h.queued).Perm (old.map Entry.value ++ (h.putQueue s es).queued) := by
  have at_s : h.queues.toList[s]? = some (some old) := by
    simpa [queue?, Option.join_eq_some_iff] using hs
  have p := flatMap_set_perm entriesOf at_s (some es)
  simpa [queued, putQueue, entriesOf] using p

theorem mem_inside_of_child {h : Heap} {c : CellId} {cell : Cell} {v : Value}
    (hc : h.cell? c = some cell) (hv : v ∈ cell.value.children) : v ∈ h.inside := by
  refine List.mem_flatMap.2 ⟨some cell.value, List.mem_of_getElem? (contents_of_cell? hc), hv⟩

theorem exists_of_mem_inside {h : Heap} {v : Value} (hv : v ∈ h.inside) :
    ∃ c cell, h.cell? c = some cell ∧ v ∈ cell.value.children := by
  obtain ⟨o, ho, hvo⟩ := List.mem_flatMap.1 hv
  obtain ⟨c, hc⟩ := List.mem_iff_getElem?.1 ho
  cases o with
  | none => cases hvo
  | some u =>
    rw [contents_getElem?] at hc
    obtain ⟨cell?, at_c, hu⟩ := Option.map_eq_some_iff.1 hc
    obtain ⟨cell, rfl, rfl⟩ := Option.map_eq_some_iff.1 hu
    exact ⟨c, cell, cell?_eq_some.2 at_c, hvo⟩

theorem mem_queued {h : Heap} {s : SinkId} {es : List Entry} {e : Entry}
    (hs : h.queue? s = some es) (he : e ∈ es) : e.value ∈ h.queued := by
  have at_s : h.queues.toList[s]? = some (some es) := by
    simpa [queue?, Option.join_eq_some_iff] using hs
  exact List.mem_flatMap.2 ⟨some es, List.mem_of_getElem? at_s, List.mem_map_of_mem he⟩

end Heap
end MooCore
