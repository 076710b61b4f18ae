import MooCore.Proofs.Heap.Release
import MooCore.Workspace
/-!
# Making values

A value that is made, from a shape or from parts that are named, is owned once by whoever made it.
Making never disturbs what is there already: balance is kept and the heap only grows older.
-/

set_option autoImplicit false
namespace MooCore.Heap

variable {still : CellId → Prop} {h h' h'' : Heap} {own pin : List Value}

/-! ## Maps -/

theorem insertPair_perm (kvs : List (Value × Value)) (k v : Value) :
    (Value.members (insertPair kvs k v).1 ++ (insertPair kvs k v).2).Perm
      (Value.members kvs ++ [k, v]) := by
  induction kvs with
  | nil => exact List.Perm.refl _
  | cons lw kvs ih =>
    obtain ⟨l, w⟩ := lw
    unfold insertPair
    split
    · simp only [Value.members_cons, List.cons_append]
      refine List.Perm.cons l ?_
      have moved : (v :: (Value.members kvs ++ [w, k])).Perm (w :: (Value.members kvs ++ [k, v])) :=
        calc v :: (Value.members kvs ++ [w, k])
            |>.Perm ((Value.members kvs ++ [w, k]) ++ [v]) := List.perm_append_singleton _ _ |>.symm
          _ |>.Perm (Value.members kvs ++ w :: [k, v]) := by simp
          _ |>.Perm (w :: (Value.members kvs ++ [k, v])) := List.perm_middle
      exact moved
    · simp only [Value.members_cons, List.cons_append]
      exact (ih.cons w).cons l

theorem insertPairs_perm (kept kvs : List (Value × Value)) :
    (Value.members (insertPairs kept kvs).1 ++ (insertPairs kept kvs).2).Perm
      (Value.members kept ++ Value.members kvs) := by
  induction kvs generalizing kept with
  | nil => simp [insertPairs]
  | cons kv kvs ih =>
    obtain ⟨k, v⟩ := kv
    simp only [insertPairs]
    have one := insertPair_perm kept k v
    have more := ih (insertPair kept k v).1
    refine (List.perm_append_comm_assoc _ _ _).trans ?_
    refine (more.append_left _).trans ?_
    rw [← List.append_assoc]
    refine ((List.perm_append_comm.trans one).append_right _).trans ?_
    simp only [Value.members_cons, List.append_assoc, List.cons_append, List.nil_append]
    exact List.Perm.refl _

theorem insertPairs_apart (kvs : List (Value × Value)) (own : List Value) :
    (Value.members kvs ++ own).Perm
      ((insertPairs [] kvs).2 ++ (Value.members (insertPairs [] kvs).1 ++ own)) := by
  have sorted := insertPairs_perm [] kvs
  rw [Value.members_nil, List.nil_append] at sorted
  rw [← List.append_assoc]
  exact (sorted.symm.trans List.perm_append_comm).append_right own

theorem mem_values_of_get? {names : Named String Value} {name : String} {v : Value}
    (found : names.get? name = some v) : v ∈ names.map Prod.snd := by
  obtain ⟨x, hx, rfl⟩ := Option.map_eq_some_iff.1 found
  exact List.mem_map_of_mem (List.mem_of_find?_eq_some hx)

theorem frameOrder_perm (f : Reader.Frame) (vs : List Value) : (frameOrder f vs).Perm vs := by
  unfold frameOrder
  split
  · rcases List.eq_nil_or_concat vs with rfl | ⟨front, last, rfl⟩
    · exact List.Perm.refl _
    · simpa using (List.perm_append_singleton last front).symm
  · exact List.Perm.refl _

/-! ## What making is made of -/

/-- A relation that owners keep to while values are made: from a heap and what is held of it to
another heap and what is held then. -/
structure Crafts (r : Heap → List Value → Heap → List Value → Prop) : Prop where
  refl (h : Heap) (own : List Value) : r h own h own
  trans {h h' h'' : Heap} {own own' own'' : List Value} (first : r h own h' own')
      (second : r h' own' h'' own'') : r h own h'' own''
  regroup (h : Heap) {own own' : List Value} (same : own.Perm own') : r h own h own'
  plain (h : Heap) (own : List Value) {v : Value} (scalar : v.cell? = none) : r h own h (v :: own)
  alloc (h : Heap) (own : List Value) (make : CellId → Value)
      (named : (make h.cells.size).cell? = some h.cells.size) :
      r h ((make h.cells.size).children ++ own) (h.alloc make).2 ((h.alloc make).1 :: own)
  share (h : Heap) {own : List Value} {v : Value} (held : v ∈ own) : r h own (h.share v) (v :: own)
  release (h : Heap) (own : List Value) (v : Value) : r h (v :: own) (h.release v) own

namespace Crafts
variable {r : Heap → List Value → Heap → List Value → Prop} (crafts : Crafts r)
include crafts

theorem releaseAll (h : Heap) (own vs : List Value) : r h (vs ++ own) (h.releaseAll vs) own := by
  induction vs generalizing h with
  | nil => exact crafts.refl h own
  | cons v vs ih => exact crafts.trans (crafts.release h (vs ++ own) v) (ih _)

theorem append {us vs : List Value} (first : r h own h' (us ++ own))
    (second : r h' (us ++ own) h'' (vs ++ (us ++ own))) : r h own h'' ((us ++ vs) ++ own) := by
  refine crafts.trans (crafts.trans first second) (crafts.regroup h'' ?_)
  rw [← List.append_assoc]
  exact List.perm_append_comm.append_right own

theorem pair {u v : Value} (first : r h own h' (u :: own))
    (second : r h' (u :: own) h'' (v :: u :: own)) : r h own h'' ([u, v] ++ own) :=
  crafts.trans (crafts.trans first second) (crafts.regroup h'' (List.Perm.swap u v own))

theorem container (make : CellId → Value) {vs : List Value} (parts : r h own h' (vs ++ own))
    (named : (make h'.cells.size).cell? = some h'.cells.size)
    (taken : (make h'.cells.size).children = vs) :
    r h own (h'.alloc make).2 ((h'.alloc make).1 :: own) :=
  crafts.trans parts (taken ▸ crafts.alloc h' own make named)

theorem newMap {kvs : List (Value × Value)} (parts : r h own h' (Value.members kvs ++ own)) :
    r h own (h'.newMap kvs).2 ((h'.newMap kvs).1 :: own) := by
  have apart := crafts.trans parts (crafts.regroup h' (insertPairs_apart kvs own))
  have kept := crafts.trans apart (crafts.releaseAll h' _ (insertPairs [] kvs).2)
  exact crafts.container _ kept rfl rfl

/-! ### From shapes -/

mutual

theorem build (sink : Option SinkId) (h : Heap) (own : List Value) (s : Shape) :
    r h own (h.build sink s).2 ((h.build sink s).1 :: own) := by
  cases s with
  | none | int _ | float _ | obj _ | err _ => exact crafts.plain h own rfl
  | str s => exact crafts.alloc h own (fun c => .str c s) rfl
  | list xs => exact crafts.container _ (buildAll sink h own xs) rfl rfl
  | map kvs => exact crafts.newMap (buildPairs sink h own kvs)
  | anon id parent => exact crafts.alloc h own (fun c => .anon c sink id parent) rfl
  | waif id cls owner ps => exact crafts.container _ (buildAll sink h own ps) rfl rfl

theorem buildAll (sink : Option SinkId) (h : Heap) (own : List Value) (xs : List Shape) :
    r h own (h.buildAll sink xs).2 ((h.buildAll sink xs).1 ++ own) := by
  cases xs with
  | nil => exact crafts.refl h own
  | cons x xs =>
    have first : r h own _ ([_] ++ own) := build sink h own x
    exact crafts.append first (buildAll sink _ _ xs)

theorem buildPairs (sink : Option SinkId) (h : Heap) (own : List Value)
    (kvs : List (Shape × Shape)) :
    r h own (h.buildPairs sink kvs).2 (Value.members (h.buildPairs sink kvs).1 ++ own) := by
  cases kvs with
  | nil => exact crafts.refl h own
  | cons kv kvs =>
    obtain ⟨k, v⟩ := kv
    have both := crafts.pair (build sink h own k) (build sink _ _ v)
    exact crafts.append both (buildPairs sink _ _ kvs)

end

/-! ### From parts under names -/

theorem shareAll (h : Heap) {own vs : List Value} (held : ∀ v ∈ vs, v ∈ own) :
    r h own (h.shareAll vs) (vs ++ own) := by
  induction vs generalizing h own with
  | nil => exact crafts.refl h own
  | cons v vs ih =>
    have first : r h own (h.share v) ([v] ++ own) := crafts.share h (held v (by simp))
    exact crafts.append first (ih _ fun u hu =>
      List.mem_append_right _ (held u (List.mem_cons_of_mem _ hu)))

theorem copies {vs : List Value} (parts : r h own h' (vs ++ own)) :
    r h own (h'.newListOfCopies vs).2 ((h'.newListOfCopies vs).1 :: own) := by
  have shared : r h' (vs ++ own) (h'.shareAll vs) (vs ++ (vs ++ own)) :=
    crafts.shareAll h' fun v hv => List.mem_append_left own hv
  have doubled := crafts.trans parts shared
  have listed : r (h'.shareAll vs) (vs ++ (vs ++ own)) ((h'.shareAll vs).newList vs).2
      (((h'.shareAll vs).newList vs).1 :: (vs ++ own)) :=
    crafts.alloc _ (vs ++ own) (fun c => .list c vs) rfl
  refine crafts.trans (crafts.trans doubled listed) ?_
  refine crafts.trans (crafts.regroup _ ?_) (crafts.releaseAll _ _ vs)
  exact List.perm_middle.symm

mutual

theorem make (names : Named String Value) (sink : Option SinkId) (h : Heap) {own : List Value}
    (held : ∀ v ∈ names.map Prod.snd, v ∈ own) (x : Recipe) :
    r h own (h.make names sink x).2 ((h.make names sink x).1 :: own) := by
  cases x with
  | shape s => exact crafts.build sink h own s
  | named name =>
    simp only [Heap.make]
    cases found : names.get? name with
    | none => exact crafts.plain h own rfl
    | some v => exact crafts.share h (held v (mem_values_of_get? found))
  | list xs => exact crafts.container _ (makeAll names sink h held xs) rfl rfl
  | copies xs => exact crafts.copies (makeAll names sink h held xs)
  | map kvs => exact crafts.newMap (makePairs names sink h held kvs)
  | waif id cls owner ps => exact crafts.container _ (makeAll names sink h held ps) rfl rfl

theorem makeAll (names : Named String Value) (sink : Option SinkId) (h : Heap) {own : List Value}
    (held : ∀ v ∈ names.map Prod.snd, v ∈ own) (xs : List Recipe) :
    r h own (h.makeAll names sink xs).2 ((h.makeAll names sink xs).1 ++ own) := by
  cases xs with
  | nil => exact crafts.refl h own
  | cons x xs =>
    have first : r h own _ ([_] ++ own) := make names sink h held x
    exact crafts.append first
      (makeAll names sink _ (fun v hv => List.mem_append_right _ (held v hv)) xs)

theorem makePairs (names : Named String Value) (sink : Option SinkId) (h : Heap)
    {own : List Value} (held : ∀ v ∈ names.map Prod.snd, v ∈ own)
    (kvs : List (Recipe × Recipe)) :
    r h own (h.makePairs names sink kvs).2
      (Value.members (h.makePairs names sink kvs).1 ++ own) := by
  cases kvs with
  | nil => exact crafts.refl h own
  | cons kv kvs =>
    obtain ⟨k, v⟩ := kv
    have both := crafts.pair (make names sink h held k)
      (make names sink _ (fun u hu => List.mem_cons_of_mem _ (held u hu)) v)
    exact crafts.append both
      (makePairs names sink _ (fun u hu => List.mem_append_right _ (held u hu)) kvs)

end

/-! ### Unfinished containers -/

theorem buildFrames (sink : Option SinkId) (h : Heap) (own : List Value)
    (fs : List Reader.Frame) :
    r h own (h.buildFrames sink fs).2 ((h.buildFrames sink fs).1 ++ own) := by
  induction fs with
  | nil => exact crafts.refl h own
  | cons f fs ih =>
    have members := crafts.append ih (crafts.buildAll sink _ _ (frameMembers f))
    refine crafts.trans members (crafts.regroup _ (List.Perm.append_right own ?_))
    exact List.perm_append_comm.trans ((frameOrder_perm f _).symm.append_right _)

theorem discardFrames (sink : Option SinkId) (h : Heap) (own : List Value)
    (fs : List Reader.Frame) : r h own (h.discardFrames sink fs) own :=
  crafts.trans (crafts.buildFrames sink h own fs) (crafts.releaseAll _ own _)

end Crafts

/-! ## Balance -/

def Yields (still : CellId → Prop) (own pin : List Value) (h : Heap) (vs : List Value)
    (h' : Heap) : Prop :=
  Balanced h' (vs ++ own) pin ∧ Later still h h'

theorem Yields.nil (b : Balanced h own pin) : Yields still own pin h [] h := ⟨b, Later.refl h⟩

theorem Yields.scalar (b : Balanced h own pin) {v : Value} (hv : v.cell? = none) :
    Yields still own pin h [v] h := ⟨b.plain hv, Later.refl h⟩

theorem Yields.append {us vs : List Value} (first : Yields still own pin h us h')
    (second : Yields still (us ++ own) pin h' vs h'') : Yields still own pin h (us ++ vs) h'' := by
  refine ⟨second.1.perm ?_ (List.Perm.refl _), first.2.trans second.2⟩
  rw [← List.append_assoc]
  exact List.perm_append_comm.append_right own

theorem Yields.alloc {vs : List Value} (parts : Yields still own pin h vs h')
    (make : CellId → Value)
    (named : (make h'.cells.size).cell? = some h'.cells.size)
    (taken : (make h'.cells.size).children = vs) :
    Yields still own pin h [(h'.alloc make).1] (h'.alloc make).2 := by
  refine ⟨parts.1.alloc named ?_, parts.2.trans (Later.alloc h' make)⟩
  rw [taken]
  exact List.Perm.refl _

theorem crafts_balanced (still : CellId → Prop) (pin : List Value) :
    Crafts fun h own h' own' => Balanced h own pin → Balanced h' own' pin ∧ Later still h h' where
  refl h own := fun b => ⟨b, Later.refl h⟩
  trans first second := fun b =>
    ⟨(second (first b).1).1, (first b).2.trans (second (first b).1).2⟩
  regroup h _ _ same := fun b => ⟨b.perm same.symm (List.Perm.refl _), Later.refl h⟩
  plain h own _ scalar := fun b => ⟨b.plain scalar, Later.refl h⟩
  alloc h own make named := fun b => ⟨b.alloc named (List.Perm.refl _), Later.alloc h make⟩
  share h own v held := fun b => by
    refine ⟨share_balanced b (by simp [held]), share_later fun c hc _ => ?_⟩
    obtain ⟨cell, at_c, -, pos⟩ := b.toCounted.cell_of_owned held hc
    exact ⟨cell, at_c, pos⟩
  release h own v := fun b => ⟨release_balanced b, release_later h v⟩

theorem make_yields (names : Named String Value) (sink : Option SinkId) (b : Balanced h own pin)
    (held : ∀ v ∈ names.map Prod.snd, v ∈ own) (r : Recipe) :
    Yields still own pin h [(h.make names sink r).1] (h.make names sink r).2 :=
  (crafts_balanced still pin).make names sink h held r b

end MooCore.Heap
