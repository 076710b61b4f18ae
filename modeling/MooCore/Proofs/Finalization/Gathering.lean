import MooCore.Proofs.Finalization.Renewal
import MooCore.Proofs.Finalization.Tended
/-!
# Values made for a queue

Whoever reads values for a queue owns what was made and is not yet in a container. Whatever is let
go of on the way, every anonymous object and waif that was made stays, and those to which nothing
refers any more are entries of the queue.
-/

set_option autoImplicit false
namespace MooCore

namespace Shape

mutual

/-- The anonymous objects and waifs in a shape, as they are made and in that order: what is in a
waif comes before it, and keys are merged. -/
def parts : Shape → List Shape
  | anon id parent => [anon id parent]
  | waif id cls owner ps => partsAll ps ++ [waif id cls owner (mergedAll ps)]
  | list xs => partsAll xs
  | map kvs => partsPairs kvs
  | none | int _ | float _ | obj _ | err _ | str _ => []

def partsAll : List Shape → List Shape
  | [] => []
  | x :: xs => x.parts ++ partsAll xs

def partsPairs : List (Shape × Shape) → List Shape
  | [] => []
  | (k, v) :: kvs => k.parts ++ v.parts ++ partsPairs kvs

end

theorem partsAll_append (xs ys : List Shape) :
    partsAll (xs ++ ys) = partsAll xs ++ partsAll ys := by
  induction xs with
  | nil => rfl
  | cons x xs ih => rw [List.cons_append, partsAll, partsAll, ih, List.append_assoc]

end Shape

/-- The shape of an anonymous object or waif. -/
def Value.finalizableShape? (v : Value) : Option Shape :=
  if v.isFinalizable = true then some v.shape else Option.none

namespace Heap

/-- The anonymous objects and waifs in the cells from a number on. -/
def made (n : Nat) (h : Heap) : List Shape :=
  (List.range' n (h.cells.size - n)).filterMap fun c =>
    (h.cell? c).bind fun cell => cell.value.finalizableShape?

def Recent (s : SinkId) (n : Nat) (v : Value) : Prop :=
  ∀ u : Value, u.Within v →
    (∀ c, u.cell? = some c → n ≤ c) ∧ (u.isFinalizable = true → u.sink? = some s)

variable {s : SinkId} {n : Nat} {h h' h₀ : Heap} {own pin us vs : List Value} {ts : List Shape}
  {v : Value} {c d : CellId} {cell : Cell}

theorem recent_domain (s : SinkId) (n : Nat) : Domain s (Recent s n) where
  inner _ recent _ inner u within := recent u (within.tail inner)
  sunk v recent := (recent v .refl).2

theorem Recent.of_children (children : ∀ u ∈ v.children, Recent s n u)
    (young : ∀ c, v.cell? = some c → n ≤ c)
    (sunk : v.isFinalizable = true → v.sink? = some s) : Recent s n v := by
  intro u within
  rcases within.cases with rfl | inside
  · exact ⟨young, sunk⟩
  · obtain ⟨x, within, inner⟩ := Relation.TransGen.tail'_iff.1 inside
    exact children x inner u within

theorem recent_scalar (hv : v.cell? = none) : Recent s n v := by
  refine Recent.of_children ?_ ?_ fun kind => ?_
  · rw [Value.children_eq_nil hv]
    exact List.forall_mem_nil _
  · intro c hc
    rw [hv] at hc
    cases hc
  · obtain ⟨c, hc⟩ := Value.cell?_of_isFinalizable kind
    rw [hv] at hc
    cases hc

theorem made_congr (size : h'.cells.size = h.cells.size)
    (same : ∀ c, n ≤ c → ((h'.cell? c).bind fun cell => cell.value.finalizableShape?) =
      (h.cell? c).bind fun cell => cell.value.finalizableShape?) : h'.made n = h.made n := by
  rw [made, size, made]
  exact List.filterMap_congr fun c mem => same c (List.mem_range'_1.1 mem).1

theorem made_alloc (make : CellId → Value) (le : n ≤ h.cells.size) :
    (h.alloc make).2.made n =
      h.made n ++ (make h.cells.size).finalizableShape?.toList := by
  have split : h.cells.size + 1 - n = h.cells.size - n + 1 := Nat.succ_sub le
  have last : n + 1 * (h.cells.size - n) = h.cells.size := by omega
  rw [made, size_alloc, split, List.range'_concat, List.filterMap_append, last]
  congr 1
  · refine List.filterMap_congr fun c mem => ?_
    have lt : c < h.cells.size := (List.mem_range'_1.1 mem).2.trans_eq (Nat.add_sub_of_le le)
    rw [cell?_alloc, if_neg (Nat.ne_of_lt lt)]
  · cases kind : (make h.cells.size).finalizableShape? <;>
      simp [cell?_alloc, Cell.fresh, kind]

/-! ## What a release leaves as it is -/

theorem dropRef_cases (h : Heap) (v : Value) (c : CellId) :
    h.dropRef v c = (false, h.overdraw) ∨
      ∃ cell, h.cell? c = some cell ∧ DropsTo h v c cell (h.dropRef v c) := by
  cases hc : h.cell? c with
  | none => exact Or.inl (by simp only [dropRef, hc])
  | some cell =>
    rcases Nat.eq_zero_or_pos cell.refs with zero | pos
    · exact Or.inl (by simp only [dropRef, hc, zero, if_true])
    · exact Or.inr ⟨cell, rfl, dropRef_dropsTo hc pos⟩

theorem dropRef_size (h : Heap) (v : Value) (c : CellId) :
    (h.dropRef v c).2.cells.size = h.cells.size := by
  rcases dropRef_cases h v c with same | ⟨cell, -, drops⟩
  · rw [same]
    rfl
  · generalize h.dropRef v c = out at drops
    cases drops with
    | fewer | kept => exact size_put h c _
    | handedOff => exact size_put h c _
    | freed => exact size_erase h c

theorem dropRef_other (h : Heap) (v : Value) (other : d ≠ c) :
    (h.dropRef v c).2.cell? d = h.cell? d := by
  rcases dropRef_cases h v c with same | ⟨cell, hc, drops⟩
  · rw [same]
    rfl
  · generalize h.dropRef v c = out at drops
    cases drops with
    | fewer | kept => rw [cell?_put hc, if_neg other]
    | handedOff => rw [cell?_putQueue, cell?_put hc, if_neg other]
    | freed => rw [cell?_erase hc, if_neg other]

theorem dropRef_arrival (h : Heap) (v : Value) (c : CellId) {e : Entry}
    (he : e ∈ (h.dropRef v c).2.entries s) :
    e ∈ h.entries s ∨ e.value = v ∧ (h.dropRef v c).2.Asleep c := by
  rcases dropRef_cases h v c with same | ⟨cell, hc, drops⟩
  · rw [same] at he
    exact Or.inl he
  · generalize h.dropRef v c = out at drops he
    cases drops with
    | fewer | kept | freed => exact Or.inl he
    | handedOff last unclaimed t es awaited =>
      have there : (h.put c { cell with refs := 0, queued := true, pins := cell.pins + 1 }).queue? t
          = some es := awaited.2
      by_cases same : s = t
      · subst same
        rw [entries_eq (by rw [queue?_putQueue there, if_pos rfl]), List.mem_append] at he
        rcases he with old | new
        · exact Or.inl (entries_eq awaited.2 ▸ old)
        · obtain rfl := List.mem_singleton.1 new
          refine Or.inr ⟨rfl, by simpa using cell?_lt hc, fun cell' hc' => ?_⟩
          rw [cell?_putQueue, cell?_put hc, if_pos rfl] at hc'
          cases hc'
          rfl
      · rw [entries, queue?_putQueue there, if_neg same] at he
        exact Or.inl he

theorem Falls.size (falls : Falls h vs h') : h'.cells.size = h.cells.size := by
  induction falls with
  | done h => rfl
  | scalar _ _ ih => exact ih
  | drop _ _ ih => exact ih.trans (dropRef_size _ _ _)

theorem Falls.untouched (falls : Falls h vs h') (each : ∀ v ∈ vs, Recent s n v) {d : CellId}
    (old : d < n) : h'.cell? d = h.cell? d := by
  induction falls with
  | done h => rfl
  | scalar _ _ ih => exact ih fun u hu => each u (List.mem_cons_of_mem _ hu)
  | @drop h _ v c vs hv _ ih =>
    have recent := each v List.mem_cons_self
    have other : d ≠ c := fun same => Nat.not_le.2 old (same ▸ (recent v .refl).1 c hv)
    refine (ih fun u hu => ?_).trans (dropRef_other h v other)
    rcases List.mem_append.1 hu with spilt | later
    · unfold spill at spilt
      split at spilt
      · exact (recent_domain s n).inner v recent u spilt
      · exact absurd spilt List.not_mem_nil
    · exact each u (List.mem_cons_of_mem _ later)

theorem Falls.arrival (falls : Falls h vs h') {e : Entry} (he : e ∈ h'.entries s) :
    e ∈ h.entries s ∨ ∀ c, e.value.cell? = some c → h'.Asleep c := by
  induction falls with
  | done h => exact Or.inl he
  | scalar _ _ ih => exact ih he
  | @drop h h' v c vs hv rest ih =>
    rcases ih he with before | asleep
    · rcases dropRef_arrival h v c before with old | ⟨rfl, asleep⟩
      · exact Or.inl old
      · refine Or.inr fun d hd => ?_
        obtain rfl : c = d := Option.some.inj (hv.symm.trans hd)
        have later : Later (fun _ => True) _ h' := rest.later
        exact later.asleep c trivial asleep
    · exact Or.inr asleep

theorem release_granted (b : Balanced h (v :: own) pin) (hv : v.cell? = some c)
    (fresh : h.cell? c = some (Cell.fresh v)) (granted : h.claim v = .ok h') :
    h'.release v = h.put c (takenCell v) := by
  obtain ⟨d, cell, hd, at_d, -, -, -, rfl⟩ := claim_ok b (v := v) (by simp) granted
  obtain rfl : c = d := Option.some.inj (hv.symm.trans hd)
  obtain rfl : Cell.fresh v = cell := Option.some.inj (fresh.symm.trans at_d)
  rw [release_claimed hv (by rw [cell?_put at_d, if_pos rfl]) rfl rfl Nat.one_pos, put_put]
  rfl

/-! ## Values under way -/

/-- A heap in which values have been made for a queue since it was `h₀`, others own what they owned
then, and the maker owns some of what was made. -/
structure Gathered (s : SinkId) (h₀ : Heap) (own pin : List Value) (h : Heap) (vs : List Value)
    (ts : List Shape) : Prop where
  balanced : Balanced h (vs ++ own) pin
  tended : Tended s (Recent s h₀.cells.size) (h₀.entries s) [] h
  untouched : ∀ c, c < h₀.cells.size → h.cell? c = h₀.cell? c
  recent : ∀ c cell, h₀.cells.size ≤ c → h.cell? c = some cell →
    Recent s h₀.cells.size cell.value
  young : ∀ v ∈ vs, ∀ c, v.cell? = some c → h₀.cells.size ≤ c
  asleep : ∀ e ∈ h.entries s, e ∈ h₀.entries s ∨ ∀ c, e.value.cell? = some c → h.Asleep c
  size : h₀.cells.size ≤ h.cells.size
  made : h.made h₀.cells.size = ts

namespace Gathered

theorem start (b : Balanced h own pin) (alive : ∃ es, h.queue? s = some es) :
    Gathered s h own pin h [] [] where
  balanced := b
  tended := ⟨alive, fun _ he => Or.inl he, fun c cell hc recent _ =>
    absurd ((recent _ .refl).1 c (b.named c cell hc)) (Nat.not_le.2 (cell?_lt hc))⟩
  untouched _ _ := rfl
  recent c cell le hc := absurd le (Nat.not_le.2 (cell?_lt hc))
  young := List.forall_mem_nil _
  asleep _ he := Or.inl he
  size := Nat.le_refl _
  made := by rw [Heap.made, Nat.sub_self, List.range'_zero, List.filterMap_nil]

theorem perm (g : Gathered s h₀ own pin h vs ts) (same : vs.Perm us) :
    Gathered s h₀ own pin h us ts :=
  { g with
    balanced := g.balanced.perm (same.symm.append_right own) (.refl _)
    young := fun v hv => g.young v (same.mem_iff.2 hv) }

theorem recent_of_mem (g : Gathered s h₀ own pin h vs ts) (hv : v ∈ vs) :
    Recent s h₀.cells.size v := by
  cases hc : v.cell? with
  | none => exact recent_scalar hc
  | some c =>
    obtain ⟨cell, at_c, rfl⟩ := g.balanced.present v (by simp [hv]) c hc
    exact g.recent c cell (g.young _ hv c hc) at_c

theorem scalar (g : Gathered s h₀ own pin h vs ts) (hv : v.cell? = none) :
    Gathered s h₀ own pin h (v :: vs) ts :=
  { g with
    balanced := g.balanced.plain hv
    young := by
      rintro u hu c hc
      rcases List.mem_cons.1 hu with rfl | hu
      · rw [hv] at hc
        cases hc
      · exact g.young u hu c hc }

/-- A new cell takes over its parts. -/
theorem alloc (g : Gathered s h₀ own pin h (us ++ vs) ts) (make : CellId → Value)
    (named : (make h.cells.size).cell? = some h.cells.size)
    (taken : (make h.cells.size).children = us)
    (sunk : (make h.cells.size).isFinalizable = true → (make h.cells.size).sink? = some s)
    {ts' : List Shape} (adds : ts ++ (make h.cells.size).finalizableShape?.toList = ts') :
    Gathered s h₀ own pin (h.alloc make).2 ((h.alloc make).1 :: vs) ts' := by
  have later : Later (fun _ => True) h (h.alloc make).2 := Later.alloc h make
  refine ⟨g.balanced.alloc named ?_, g.tended.alloc make, fun c lt => ?_, ?_, ?_, ?_,
    g.size.trans later.grown, ?_⟩
  · rw [taken, List.append_assoc]
    exact .refl _
  · rw [cell?_alloc, if_neg (Nat.ne_of_lt (lt.trans_le g.size))]
    exact g.untouched c lt
  · intro c cell old hc
    rw [cell?_alloc] at hc
    split at hc
    · cases hc
      refine Recent.of_children (fun u hu => g.recent_of_mem ?_) (fun d hd => ?_) sunk
      · exact List.mem_append_left _ (taken ▸ hu)
      · obtain rfl := Option.some.inj (named.symm.trans hd)
        exact g.size
    · exact g.recent c cell old hc
  · intro v hv c hc
    rcases List.mem_cons.1 hv with rfl | hv
    · obtain rfl := Option.some.inj (named.symm.trans hc)
      exact g.size
    · exact g.young v (List.mem_append_right _ hv) c hc
  · exact fun e he => (g.asleep e he).imp_right fun asleep c hc =>
      later.asleep c trivial (asleep c hc)
  · rw [made_alloc make g.size, g.made, adds]

theorem release (g : Gathered s h₀ own pin h (v :: vs) ts) :
    Gathered s h₀ own pin (h.release v) vs ts := by
  have recent := g.recent_of_mem (v := v) List.mem_cons_self
  obtain ⟨tended, keeps⟩ := g.tended.release (recent_domain s _) g.balanced
    (List.forall_mem_nil _) recent
  have later : Later (fun _ => True) h (h.release v) := release_later h v
  have size := (release_falls h v).size
  have value := release_noneNew h v
  refine ⟨release_balanced g.balanced, tended, fun c lt => ?_, ?_, ?_, ?_,
    g.size.trans later.grown, ?_⟩
  · have each : ∀ u ∈ [v], Recent s h₀.cells.size u := fun u hu => List.mem_singleton.1 hu ▸ recent
    exact ((release_falls h v).untouched each lt).trans (g.untouched c lt)
  · intro c cell old hc
    obtain ⟨cell', hc', same⟩ := value c cell hc
    exact same ▸ g.recent c cell' old hc'
  · exact fun u hu => g.young u (List.mem_cons_of_mem _ hu)
  · intro e he
    rcases (release_falls h v).arrival he with before | asleep
    · exact (g.asleep e before).imp_right fun asleep c hc => later.asleep c trivial (asleep c hc)
    · exact Or.inr asleep
  · -- A cell that goes held neither an anonymous object nor a waif, so the list is the same.
    rw [← g.made]
    refine made_congr size fun c old => ?_
    cases hc' : (h.release v).cell? c with
    | some cell' =>
      obtain ⟨cell, hc, same⟩ := value c cell' hc'
      rw [hc, Option.bind_some, Option.bind_some, same]
    | none =>
      cases hc : h.cell? c with
      | none => rfl
      | some cell =>
        by_cases kind : cell.value.isFinalizable = true
        · obtain ⟨cell', still, -⟩ := keeps c cell hc (g.recent c cell old hc) kind
          rw [hc'] at still
          cases still
        · simp [Value.finalizableShape?, kind]

theorem releaseAll (g : Gathered s h₀ own pin h (us ++ vs) ts) :
    Gathered s h₀ own pin (h.releaseAll us) vs ts := by
  induction us generalizing h with
  | nil => exact g
  | cons u us ih => exact ih g.release

/-! ### From shapes -/

theorem newMap {kvs : List (Value × Value)}
    (g : Gathered s h₀ own pin h (Value.members kvs ++ vs) ts) :
    Gathered s h₀ own pin (h.newMap kvs).2 ((h.newMap kvs).1 :: vs) ts := by
  have kept := (g.perm (insertPairs_apart kvs vs)).releaseAll
  exact kept.alloc (fun c => .map c (insertPairs [] kvs).1) rfl rfl (by rintro ⟨⟩)
    (List.append_nil ts)

mutual

theorem build {h : Heap} {vs : List Value} {ts : List Shape}
    (g : Gathered s h₀ own pin h vs ts) (t : Shape) :
    Gathered s h₀ own pin (h.build (some s) t).2 ((h.build (some s) t).1 :: vs)
      (ts ++ t.parts) := by
  cases t with
  | none | int _ | float _ | obj _ | err _ =>
    rw [Shape.parts, List.append_nil]
    exact g.scalar rfl
  | str t => exact g.alloc (fun c => .str c t) rfl rfl (by rintro ⟨⟩) rfl
  | list xs =>
    exact (buildAll g xs).alloc (fun c => .list c _) rfl rfl (by rintro ⟨⟩) (List.append_nil _)
  | map kvs => exact (buildPairs g kvs).newMap
  | anon id parent =>
    exact g.alloc (fun c => .anon c (some s) id parent) rfl rfl (fun _ => rfl) rfl
  | waif id cls owner ps =>
    refine (buildAll g ps).alloc (fun c => .waif c (some s) id cls owner _) rfl rfl
      (fun _ => rfl) ?_
    rw [Shape.parts, ← buildAll_shapes (some s) h ps, List.append_assoc]
    rfl

theorem buildAll {h : Heap} {vs : List Value} {ts : List Shape}
    (g : Gathered s h₀ own pin h vs ts) (xs : List Shape) :
    Gathered s h₀ own pin (h.buildAll (some s) xs).2 ((h.buildAll (some s) xs).1 ++ vs)
      (ts ++ Shape.partsAll xs) := by
  cases xs with
  | nil =>
    rw [Shape.partsAll, List.append_nil]
    exact g
  | cons x xs =>
    have rest := (buildAll (build g x) xs).perm List.perm_middle
    rw [List.append_assoc] at rest
    exact rest

theorem buildPairs {h : Heap} {vs : List Value} {ts : List Shape}
    (g : Gathered s h₀ own pin h vs ts) (kvs : List (Shape × Shape)) :
    Gathered s h₀ own pin (h.buildPairs (some s) kvs).2
      (Value.members (h.buildPairs (some s) kvs).1 ++ vs) (ts ++ Shape.partsPairs kvs) := by
  cases kvs with
  | nil =>
    rw [Shape.partsPairs, List.append_nil]
    exact g
  | cons kv kvs =>
    obtain ⟨k, v⟩ := kv
    have rest := buildPairs (build (build g k) v) kvs
    rw [List.append_assoc, List.append_assoc, ← List.append_assoc (Shape.parts k)] at rest
    exact rest.perm ((List.perm_middle.trans (List.perm_middle.cons _)).trans (.swap _ _ _))

end

/-! ### Unfinished containers -/

theorem buildFrames (g : Gathered s h₀ own pin h vs ts) (fs : List Reader.Frame) :
    Gathered s h₀ own pin (h.buildFrames (some s) fs).2
      ((h.buildFrames (some s) fs).1 ++ vs)
      (ts ++ Shape.partsAll (fs.reverse.flatMap frameMembers)) := by
  induction fs with
  | nil => exact g.buildAll []
  | cons f fs ih =>
    have members := ih.buildAll (frameMembers f)
    rw [List.append_assoc, ← Shape.partsAll_append] at members
    rw [List.reverse_cons, List.flatMap_append, List.flatMap_singleton]
    refine members.perm ?_
    rw [← List.append_assoc]
    refine List.Perm.append_right vs ?_
    exact (frameOrder_perm f _).symm.append_right _

theorem discardFrames (g : Gathered s h₀ own pin h vs ts) (fs : List Reader.Frame) :
    Gathered s h₀ own pin (h.discardFrames (some s) fs) vs
      (ts ++ Shape.partsAll (fs.reverse.flatMap frameMembers)) :=
  (g.buildFrames fs).releaseAll

/-! ### Entries -/

/-- A value that was just made becomes an entry, pinned and without references. -/
theorem enter (g : Gathered s h₀ own pin h (v :: vs) ts) (hv : v.cell? = some c)
    (fresh : h.cell? c = some (Cell.fresh v)) (granted : h.claim v = .ok h') (flag : Bool) :
    Gathered s h₀ own pin ((h'.release v).pushEntry s ⟨v, flag⟩) vs ts := by
  have recent := g.recent_of_mem (v := v) List.mem_cons_self
  have young := g.young v List.mem_cons_self c hv
  have released := release_balanced (claim_balanced g.balanced (v := v) (by simp) granted)
  rw [release_granted g.balanced hv fresh granted] at released ⊢
  obtain ⟨es, there⟩ := g.tended.alive
  -- From here on only the cell of the value and the queue are not as they were.
  have at_d (d : CellId) : ((h.put c (takenCell v)).pushEntry s ⟨v, flag⟩).cell? d =
      if d = c then some (takenCell v) else h.cell? d := cell?_put fresh (takenCell v) d
  have size : ((h.put c (takenCell v)).pushEntry s ⟨v, flag⟩).cells.size = h.cells.size :=
    size_put h c (takenCell v)
  have asleep (d : CellId) (before : d = c ∨ h.Asleep d) :
      ((h.put c (takenCell v)).pushEntry s ⟨v, flag⟩).Asleep d := by
    refine ⟨?_, fun cell' hd => ?_⟩
    · rw [size]
      rcases before with rfl | before
      · exact cell?_lt fresh
      · exact before.1
    · rw [at_d] at hd
      split at hd
      · cases hd
        rfl
      · rename_i other
        exact (before.resolve_left other).2 cell' hd
  refine ⟨pushEntry_balanced released there, g.tended.push fresh hv recent flag, fun d lt => ?_,
    fun d cell' old hd => ?_, fun u hu => g.young u (List.mem_cons_of_mem _ hu), fun e he => ?_,
    g.size.trans_eq size.symm, ?_⟩
  · rw [at_d, if_neg (Nat.ne_of_lt (lt.trans_le young))]
    exact g.untouched d lt
  · rw [at_d] at hd
    split at hd
    · cases hd
      exact recent
    · exact g.recent d cell' old hd
  · have queue : ((h.put c (takenCell v)).pushEntry s ⟨v, flag⟩).entries s =
        h.entries s ++ [⟨v, flag⟩] :=
      entries_eq ((queue?_putQueue there _ s).trans (if_pos rfl))
    rw [queue, List.mem_append] at he
    rcases he with he | he
    · exact (g.asleep e he).imp_right fun sleeps d hd => asleep d (Or.inr (sleeps d hd))
    · obtain rfl := List.mem_singleton.1 he
      exact Or.inr fun d hd => asleep d (Or.inl (Option.some.inj (hd.symm.trans hv)))
  · rw [← g.made]
    refine made_congr size fun d _ => ?_
    rw [at_d]
    split
    · rename_i same
      rw [same, fresh]
      rfl
    · rfl

/-! ### When all is let go of -/

theorem old_or_recent (g : Gathered s h₀ own pin h vs ts) (b₀ : Balanced h₀ own pin) {e : Entry}
    (he : e ∈ h.entries s) (hc : e.value.cell? = some c) :
    e ∈ h₀.entries s ∧ c < h₀.cells.size ∨ h₀.cells.size ≤ c := by
  rcases g.tended.entered e he with old | recent
  · exact Or.inl ⟨old, b₀.lt_of_mem (v := e.value)
      (by simp [Workspace.mem_queued_of_entry old]) hc⟩
  · exact Or.inr ((recent _ .refl).1 c hc)

theorem arrived (g : Gathered s h₀ own pin h vs ts) (b₀ : Balanced h₀ own pin) {e : Entry}
    (he : e ∈ h.entries s) (hc : e.value.cell? = some c) (new : e ∉ h₀.entries s) :
    h₀.cells.size ≤ c ∧ ∃ cell, h.cell? c = some cell ∧ cell.value = e.value ∧
      cell.queued = true ∧ cell.pins = 1 ∧ cell.refs = 0 := by
  have queued := Workspace.mem_queued_of_entry he
  obtain ⟨cell, at_c, value⟩ := g.balanced.present e.value (by simp [queued]) c hc
  have pinned : 0 < cell.pins := by
    rw [g.balanced.pins c cell at_c]
    exact mentions_pos (List.mem_append_right _ queued) hc
  obtain ⟨claimed, once⟩ := g.balanced.claimed c cell at_c
  refine ⟨?_, cell, at_c, value, claimed pinned, ?_, ?_⟩
  · exact ((g.old_or_recent b₀ he hc).resolve_left fun old => new old.1)
  · have le := once.resolve_right id
    omega
  · exact ((g.asleep e he).resolve_left new c hc).2 cell at_c

theorem none_lost (g : Gathered s h₀ own pin h [] ts) (b₀ : Balanced h₀ own pin)
    (at_c : h.cell? c = some cell) (recent : h₀.cells.size ≤ c) :
    ∃ e ∈ h.entries s, e ∉ h₀.entries s ∧ cell.value.Within e.value := by
  have its := g.balanced.named c cell at_c
  refine g.balanced.climb (P := fun u => ∀ c, u.cell? = some c → h₀.cells.size ≤ c →
    ∃ e ∈ h.entries s, e ∉ h₀.entries s ∧ u.Within e.value) (fun v hv _ d hd young => ?_)
    (fun d at_d hd queued d' hd' young => ?_) (fun d outer at_d held u inner _ e he young => ?_)
    at_c c its recent
  · -- Others own nothing that is new.
    have lt := b₀.lt_of_mem (v := v) (List.mem_append_left _ (List.mem_append_left _ hv)) hd
    exact absurd young (Nat.not_le.2 lt)
  · obtain rfl : d = d' := Option.some.inj ((g.balanced.named d at_d hd).symm.trans hd')
    obtain ⟨e, he, value⟩ :=
      g.tended.entry_of_queued g.balanced hd (g.recent d at_d young hd) queued
    refine ⟨e, he, fun old => ?_, value ▸ .refl⟩
    have lt := b₀.lt_of_mem (v := e.value) (by simp [Workspace.mem_queued_of_entry old])
      (value ▸ hd')
    exact Nat.not_le.2 lt young
  · have younger := g.balanced.older d outer at_d u inner e he
    obtain ⟨e', he', new, within⟩ :=
      held d (g.balanced.named d outer at_d) (young.trans (Nat.le_of_lt younger))
    exact ⟨e', he', new, .head inner within⟩

end Gathered

end Heap
end MooCore
