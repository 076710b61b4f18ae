import MooCore.Proofs.Finalization.Restore
/-!
# A census of finalizable values

How many anonymous objects and waifs with a given identity number a heap holds. Where every one of
them has a queue to go to, releases take none away: only the destruction of an entry does.
-/

set_option autoImplicit false
namespace MooCore

namespace Shape

def id? : Shape → Option UInt64
  | anon id _ | waif id _ _ _ => some id
  | none | int _ | float _ | obj _ | err _ | str _ | list _ | map _ => Option.none

mutual

/-- The identity numbers in a value, each as often as it occurs. -/
def ids : Shape → List UInt64
  | anon id _ => [id]
  | waif id _ _ ps => id :: idsAll ps
  | list xs => idsAll xs
  | map kvs => idsPairs kvs
  | none | int _ | float _ | obj _ | err _ | str _ => []

def idsAll : List Shape → List UInt64
  | [] => []
  | x :: xs => x.ids ++ idsAll xs

def idsPairs : List (Shape × Shape) → List UInt64
  | [] => []
  | (k, v) :: kvs => k.ids ++ (v.ids ++ idsPairs kvs)

end

end Shape

theorem Value.shape_id? (v : Value) : v.shape.id? = v.finalizableId? := by
  cases v <;> simp only [Value.shape] <;> rfl

namespace Heap

def census (x : UInt64) (h : Heap) : Nat :=
  h.contents.countP fun o => o.bind Value.finalizableId? == some x

def population (h : Heap) : Nat := h.contents.countP Option.isSome

/-- Every finalizable value has the queue to go to, the only one there is, and is pinned there or
elsewhere once it was queued. -/
structure Guarded (s : SinkId) (h : Heap) : Prop where
  sunk : ∀ c cell, h.cell? c = some cell → cell.value.isFinalizable = true →
    cell.value.sink? = some s
  held : ∀ c cell, h.cell? c = some cell → cell.queued = true → 0 < cell.pins
  alive : ∃ es, h.queue? s = some es
  only : ∀ t es, h.queue? t = some es → t = s

/-- The values of a later heap, as far as they count: nobody with an identity number is gone. -/
structure Spares (s : SinkId) (h h' : Heap) : Prop where
  guarded : Guarded s h'
  census : ∀ x, h'.census x = h.census x
  population : h'.population ≤ h.population

variable {s : SinkId} {h h' h'' : Heap} {own pin : List Value} {still : CellId → Prop}

theorem Spares.trans (first : Spares s h h') (second : Spares s h' h'') : Spares s h h'' :=
  ⟨second.guarded, fun x => (second.census x).trans (first.census x),
    Nat.le_trans second.population first.population⟩

theorem Guarded.spares (guarded : Guarded s h) : Spares s h h :=
  ⟨guarded, fun _ => rfl, Nat.le_refl _⟩

theorem census_of_contents (same : h'.contents = h.contents) (x : UInt64) :
    h'.census x = h.census x := by
  rw [census, census, same]

theorem population_of_contents (same : h'.contents = h.contents) :
    h'.population = h.population := by
  rw [population, population, same]

theorem Guarded.put (guarded : Guarded s h) {c : CellId} {old cell : Cell}
    (hc : h.cell? c = some old) (value : cell.value = old.value)
    (held : cell.queued = true → 0 < cell.pins) : Spares s h (h.put c cell) := by
  refine ⟨⟨?_, ?_, guarded.alive, guarded.only⟩, census_of_contents (contents_put hc value),
    Nat.le_of_eq (population_of_contents (contents_put hc value))⟩
  · intro d at_d hd
    rw [cell?_put hc] at hd
    split at hd
    · cases hd
      rw [value]
      exact guarded.sunk c old hc
    · exact guarded.sunk d at_d hd
  · intro d at_d hd
    rw [cell?_put hc] at hd
    split at hd
    · cases hd
      exact held
    · exact guarded.held d at_d hd

theorem Guarded.putQueue (guarded : Guarded s h) (es : List Entry) :
    Spares s h (h.putQueue s es) := by
  obtain ⟨old, hs⟩ := guarded.alive
  refine ⟨⟨guarded.sunk, guarded.held, ⟨es, by rw [queue?_putQueue hs, if_pos rfl]⟩, ?_⟩,
    fun _ => rfl, Nat.le_refl _⟩
  intro t fs ht
  rw [queue?_putQueue hs] at ht
  split at ht
  · assumption
  · exact guarded.only t fs ht

theorem census_erase {c : CellId} {cell : Cell} (hc : h.cell? c = some cell) (x : UInt64) :
    h.census x = (h.erase c).census x + if cell.value.finalizableId? = some x then 1 else 0 := by
  obtain ⟨lt, at_c⟩ := List.getElem?_eq_some_iff.1 (contents_of_cell? hc)
  have pos : cell.value.finalizableId? = some x → 0 < h.census x := fun hx =>
    List.countP_pos_iff.2 ⟨_, List.mem_of_getElem? (contents_of_cell? hc), by simp [hx]⟩
  rw [census, census, contents_erase, List.countP_set lt, at_c]
  by_cases hx : cell.value.finalizableId? = some x
  · have := pos hx
    rw [census] at this
    simp [hx]
    omega
  · simp [hx]

theorem population_erase {c : CellId} {cell : Cell} (hc : h.cell? c = some cell) :
    h.population = (h.erase c).population + 1 := by
  obtain ⟨lt, at_c⟩ := List.getElem?_eq_some_iff.1 (contents_of_cell? hc)
  have pos : 0 < h.population :=
    List.countP_pos_iff.2 ⟨_, List.mem_of_getElem? (contents_of_cell? hc), rfl⟩
  rw [population] at pos
  rw [population, population, contents_erase, List.countP_set lt, at_c]
  simp
  omega

theorem Guarded.erase (guarded : Guarded s h) {c : CellId} {cell : Cell}
    (hc : h.cell? c = some cell) : Guarded s (h.erase c) := by
  have alive : ∀ d at_d, (h.erase c).cell? d = some at_d → h.cell? d = some at_d := by
    intro d at_d hd
    rw [cell?_erase hc] at hd
    split at hd
    · cases hd
    · exact hd
  exact ⟨fun d at_d hd => guarded.sunk d at_d (alive d at_d hd),
    fun d at_d hd => guarded.held d at_d (alive d at_d hd), guarded.alive, guarded.only⟩

theorem Guarded.alloc (guarded : Guarded s h) (make : CellId → Value)
    (sunk : (make h.cells.size).isFinalizable = true → (make h.cells.size).sink? = some s) :
    Guarded s (h.alloc make).2 := by
  refine ⟨?_, ?_, guarded.alive, guarded.only⟩
  · intro d at_d hd
    rw [cell?_alloc] at hd
    split at hd
    · cases hd
      exact sunk
    · exact guarded.sunk d at_d hd
  · intro d at_d hd
    rw [cell?_alloc] at hd
    split at hd
    · cases hd
      intro queued
      cases queued
    · exact guarded.held d at_d hd

theorem census_alloc (h : Heap) (make : CellId → Value) (x : UInt64) :
    (h.alloc make).2.census x = h.census x +
      if (make h.cells.size).finalizableId? = some x then 1 else 0 := by
  rw [census, contents_alloc, List.countP_append, List.countP_singleton, census]
  simp

/-! ## Letting go -/

theorem not_isFinalizable {v : Value} (h : ¬ v.isFinalizable = true) (x : UInt64) :
    v.finalizableId? ≠ some x := by
  intro hx
  simp [Value.isFinalizable, hx] at h

theorem sink?_of_not_isFinalizable {v : Value} (h : ¬ v.isFinalizable = true) :
    v.sink? = none := by
  cases v <;> first | rfl | exact absurd rfl h

theorem handOff_spares (guarded : Guarded s h) {v : Value} {c : CellId} {cell : Cell}
    (hc : h.cell? c = some cell) (value : cell.value = v) (kind : v.isFinalizable = true) :
    Spares s h (h.handOff v c cell) ∧
      ∃ cell', (h.handOff v c cell).cell? c = some cell' ∧ 0 < cell'.pins := by
  obtain ⟨es, hs⟩ := guarded.alive
  have sink : v.sink? = some s := value ▸ guarded.sunk c cell hc (value ▸ kind)
  simp only [handOff, sink, hs]
  split
  · rename_i queued
    exact ⟨guarded.spares, cell, hc, guarded.held c cell hc queued⟩
  · have pinned : Spares s h (h.put c { cell with queued := true, pins := cell.pins + 1 }) :=
      guarded.put hc rfl fun _ => Nat.succ_pos _
    refine ⟨pinned.trans (pinned.guarded.putQueue _),
      { cell with queued := true, pins := cell.pins + 1 }, ?_, Nat.succ_pos _⟩
    rw [cell?_putQueue, cell?_put hc, if_pos rfl]

theorem reap_pinned {c : CellId} {cell : Cell} (hc : h.cell? c = some cell)
    (pinned : 0 < cell.pins) : h.reap c = (false, h) := by
  simp only [reap, hc]
  rw [if_neg (by omega)]

theorem reap_spares (guarded : Guarded s h) {c : CellId} {cell : Cell}
    (hc : h.cell? c = some cell) (kind : ¬ cell.value.isFinalizable = true) :
    Spares s h (h.reap c).2 := by
  simp only [reap, hc]
  split
  · refine ⟨guarded.erase hc, fun x => ?_, ?_⟩
    · have gone := census_erase hc x
      rw [if_neg (not_isFinalizable kind x)] at gone
      exact gone.symm
    · rw [population_erase hc]
      exact Nat.le_succ _
  · exact guarded.spares

theorem dropRef_spares {v : Value} {c : CellId} (b : Balanced h (v :: own) pin)
    (hv : v.cell? = some c) (guarded : Guarded s h) : Spares s h (h.dropRef v c).2 := by
  obtain ⟨cell, hc, value, pos⟩ := b.toCounted.cell_of_owned (v := v) (by simp) hv
  simp only [dropRef, hc]
  rw [if_neg (Nat.ne_of_gt pos)]
  split
  · have zeroed : Spares s h (h.put c { cell with refs := 0 }) :=
      guarded.put hc rfl (guarded.held c cell hc)
    have at_c : (h.put c { cell with refs := 0 }).cell? c = some { cell with refs := 0 } := by
      rw [cell?_put hc, if_pos rfl]
    by_cases kind : v.isFinalizable = true
    · obtain ⟨handed, cell', hc', pinned⟩ := handOff_spares zeroed.guarded at_c value kind
      rw [reap_pinned hc' pinned]
      exact zeroed.trans handed
    · have stays : (h.put c { cell with refs := 0 }).handOff v c { cell with refs := 0 } =
          h.put c { cell with refs := 0 } := by
        simp only [handOff, sink?_of_not_isFinalizable kind]
      rw [stays]
      exact zeroed.trans (reap_spares zeroed.guarded at_c (by rw [← value] at kind; exact kind))
  · exact guarded.put hc rfl (guarded.held c cell hc)

theorem Falls.spares {vs : List Value} (falls : Falls h vs h') (b : Balanced h (vs ++ own) pin)
    (guarded : Guarded s h) : Spares s h h' := by
  induction falls with
  | done => exact guarded.spares
  | scalar hv rest ih =>
    exact ih ((Falls.scalar hv (Falls.done _)).balanced b) guarded
  | drop hv _ ih =>
    have step := dropRef_spares b hv guarded
    refine step.trans (ih ?_ step.guarded)
    rw [List.append_assoc]
    exact dropRef_balanced b hv

theorem release_spares {v : Value} (b : Balanced h (v :: own) pin) (guarded : Guarded s h) :
    Spares s h (h.release v) :=
  (release_falls h v).spares b guarded

theorem releaseAll_spares {vs : List Value} (b : Balanced h (vs ++ own) pin)
    (guarded : Guarded s h) : Spares s h (h.releaseAll vs) :=
  (releaseAll_falls h vs).spares b guarded

/-! ## Making -/

/-- Values come about, with further numbers, in a heap that is guarded all along. -/
structure Adds (s : SinkId) (own pin : List Value) (h : Heap) (vs : List Value) (h' : Heap)
    (ids : List UInt64) : Prop where
  yields : Yields (fun _ => False) own pin h vs h'
  guarded : Guarded s h'
  census : ∀ x, h'.census x = h.census x + ids.count x

variable {vs ws : List Value} {ids jds : List UInt64}

theorem Adds.nil (b : Balanced h own pin) (guarded : Guarded s h) : Adds s own pin h [] h [] :=
  ⟨Yields.nil b, guarded, fun _ => rfl⟩

theorem Adds.scalar (b : Balanced h own pin) (guarded : Guarded s h) {v : Value}
    (hv : v.cell? = none) : Adds s own pin h [v] h [] :=
  ⟨Yields.scalar b hv, guarded, fun _ => rfl⟩

theorem Adds.append (first : Adds s own pin h vs h' ids)
    (second : Adds s (vs ++ own) pin h' ws h'' jds) :
    Adds s own pin h (vs ++ ws) h'' (ids ++ jds) := by
  refine ⟨first.yields.append second.yields, second.guarded, fun x => ?_⟩
  rw [second.census, first.census, List.count_append, Nat.add_assoc]

theorem Adds.alloc (parts : Adds s own pin h vs h' ids) (make : CellId → Value)
    (named : (make h'.cells.size).cell? = some h'.cells.size)
    (taken : (make h'.cells.size).children = vs)
    (sunk : (make h'.cells.size).isFinalizable = true → (make h'.cells.size).sink? = some s) :
    Adds s own pin h [(h'.alloc make).1] (h'.alloc make).2
      ((make h'.cells.size).finalizableId?.toList ++ ids) := by
  refine ⟨parts.yields.alloc make named taken, parts.guarded.alloc make sunk, fun x => ?_⟩
  rw [census_alloc, parts.census, List.count_append]
  cases (make h'.cells.size).finalizableId? with
  | none => simp
  | some y =>
    by_cases hy : y = x
    · subst hy
      simp
      omega
    · simp [hy]

theorem Adds.newMap {kvs : List (Value × Value)}
    (parts : Adds s own pin h (Value.members kvs) h' ids) :
    Adds s own pin h [(h'.newMap kvs).1] (h'.newMap kvs).2 ids := by
  have apart := parts.yields.1.perm (insertPairs_apart kvs own).symm (List.Perm.refl _)
  have spared := releaseAll_spares apart parts.guarded
  have kept : Adds s own pin h (Value.members (insertPairs [] kvs).1)
      (h'.releaseAll (insertPairs [] kvs).2) ids :=
    ⟨⟨releaseAll_balanced apart, parts.yields.2.trans (releaseAll_later _ _)⟩, spared.guarded,
      fun x => (spared.census x).trans (parts.census x)⟩
  exact kept.alloc (fun c => .map c (insertPairs [] kvs).1) rfl rfl (by
    intro kind
    cases kind)

mutual

theorem build_adds {h : Heap} {own : List Value} (b : Balanced h own pin) (guarded : Guarded s h)
    (t : Shape) :
    Adds s own pin h [(h.build (some s) t).1] (h.build (some s) t).2 t.ids := by
  cases t with
  | none | int _ | float _ | obj _ | err _ => exact Adds.scalar b guarded rfl
  | str t =>
    exact (Adds.nil b guarded).alloc (fun c => .str c t) rfl rfl (fun kind => nomatch kind)
  | list xs =>
    exact (buildAll_adds b guarded xs).alloc (fun c => .list c _) rfl rfl
      (fun kind => nomatch kind)
  | map kvs => exact (buildPairs_adds b guarded kvs).newMap
  | anon id parent =>
    exact (Adds.nil b guarded).alloc (fun c => .anon c (some s) id parent) rfl rfl
      (fun _ => rfl)
  | waif id cls owner ps =>
    exact (buildAll_adds b guarded ps).alloc (fun c => .waif c (some s) id cls owner _)
      rfl rfl (fun _ => rfl)

theorem buildAll_adds {h : Heap} {own : List Value} (b : Balanced h own pin)
    (guarded : Guarded s h) (xs : List Shape) :
    Adds s own pin h (h.buildAll (some s) xs).1 (h.buildAll (some s) xs).2 (Shape.idsAll xs) := by
  cases xs with
  | nil => exact Adds.nil b guarded
  | cons x xs =>
    have first := build_adds b guarded x
    exact first.append (buildAll_adds first.yields.1 first.guarded xs)

theorem buildPairs_adds {h : Heap} {own : List Value} (b : Balanced h own pin)
    (guarded : Guarded s h) (kvs : List (Shape × Shape)) :
    Adds s own pin h (Value.members (h.buildPairs (some s) kvs).1) (h.buildPairs (some s) kvs).2
      (Shape.idsPairs kvs) := by
  cases kvs with
  | nil => exact Adds.nil b guarded
  | cons kv kvs =>
    obtain ⟨k, v⟩ := kv
    have key := build_adds b guarded k
    have value := build_adds key.yields.1 key.guarded v
    have rest := buildPairs_adds value.yields.1 value.guarded kvs
    exact key.append (value.append rest)

end

end Heap
end MooCore
