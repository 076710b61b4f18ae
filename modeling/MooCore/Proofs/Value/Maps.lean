import MooCore.Proofs.Heap.References
import MooCore.Proofs.Value.Equality
import MooCore.Proofs.Value.Faithful
/-!
# Maps that are put together from pairs

A map keeps the first of keys that are equal and the last of the values under them. As equality is
symmetric and transitive, what is found under a key does not depend on which of the equal keys was
kept, and a key is new if it is equal to none of those before it, kept or not.
-/

set_option autoImplicit false
namespace MooCore

namespace Value

/-- The keys that are equal to none before them, in order; those given first come before all. -/
def firstKeys (earlier : List Value) : List Value → List Value
  | [] => []
  | k :: ks =>
    if earlier.any (·.equal k) then firstKeys (earlier ++ [k]) ks
    else k :: firstKeys (earlier ++ [k]) ks

theorem lookup_cons (kv : Value × Value) (kvs : List (Value × Value)) (key : Value) :
    lookup (kv :: kvs) key = if kv.1.equal key then some kv.2 else lookup kvs key := by
  unfold lookup
  rw [List.find?_cons]
  by_cases here : kv.1.equal key = true
  · rw [if_pos here]
    simp [here]
  · rw [if_neg here]
    simp [here]

theorem lookup_append (kvs lws : List (Value × Value)) (key : Value) :
    lookup (kvs ++ lws) key = (lookup kvs key).or (lookup lws key) := by
  induction kvs with
  | nil => rfl
  | cons kv kvs ih =>
    rw [List.cons_append, lookup_cons, lookup_cons, ih]
    split <;> rfl

theorem lookup_isSome (kvs : List (Value × Value)) (key : Value) :
    (lookup kvs key).isSome = true ↔ ∃ kv ∈ kvs, kv.1.equal key = true := by
  simp [lookup]

end Value

namespace Heap
open Value (Coherent lookup firstKeys)

theorem insertPair_fst (kvs : List (Value × Value)) (k v : Value) :
    (insertPair kvs k v).1.map Prod.fst =
      if (kvs.map Prod.fst).any (·.equal k) then kvs.map Prod.fst else kvs.map Prod.fst ++ [k] := by
  induction kvs with
  | nil => rfl
  | cons lw kvs ih =>
    obtain ⟨l, w⟩ := lw
    unfold insertPair
    rw [List.map_cons, List.any_cons]
    by_cases old : l.equal k = true
    · simp [old]
    · rw [if_neg old, List.map_cons, ih]
      simp only [Bool.eq_false_iff.2 old, Bool.false_or]
      split <;> rfl

theorem insertPair_distinct_new {kvs : List (Value × Value)} {k : Value} (v : Value)
    (new : ∀ kv ∈ kvs, kv.1.equal k = false) : insertPair kvs k v = (kvs ++ [(k, v)], []) := by
  induction kvs with
  | nil => rfl
  | cons lw kvs ih =>
    rw [List.forall_mem_cons] at new
    rw [insertPair, new.1, if_neg Bool.false_ne_true, ih new.2]
    rfl

theorem insertPairs_distinct_new {kept kvs : List (Value × Value)} (h : Distinct (kept ++ kvs)) :
    insertPairs kept kvs = (kept ++ kvs, []) := by
  induction kvs generalizing kept with
  | nil => simp [insertPairs]
  | cons kv kvs ih =>
    have new : ∀ a ∈ kept, a.1.equal kv.1 = false := fun a mem =>
      (List.pairwise_append.1 h).2.2 a mem kv List.mem_cons_self
    rw [List.append_cons] at h
    rw [insertPairs, insertPair_distinct_new kv.2 new]
    dsimp only
    rw [ih h]
    simp

variable {p : Value → Prop}

theorem insertPair_all {kvs : List (Value × Value)} (keys : ∀ kv ∈ kvs, p kv.1) {k : Value}
    (hk : p k) (v : Value) : ∀ kv ∈ (insertPair kvs k v).1, p kv.1 := by
  intro kv mem
  rcases insertPair_keys mem with old | rfl
  · obtain ⟨lw, member, same⟩ := List.mem_map.1 old
    exact same ▸ keys lw member
  · exact hk

variable (coherent : Coherent p)
include coherent

theorem lookup_insertPair {kvs : List (Value × Value)} (keys : ∀ kv ∈ kvs, p kv.1) {k : Value}
    (hk : p k) (v : Value) {key : Value} (hkey : p key) :
    lookup (insertPair kvs k v).1 key = if k.equal key then some v else lookup kvs key := by
  induction kvs with
  | nil => exact Value.lookup_cons (k, v) [] key
  | cons lw kvs ih =>
    obtain ⟨l, w⟩ := lw
    rw [List.forall_mem_cons] at keys
    unfold insertPair
    by_cases old : l.equal k = true
    · -- The two keys are equal to the same keys.
      have both : l.equal key = k.equal key := by
        refine Bool.eq_iff_iff.2 ⟨fun e => ?_, fun e => ?_⟩
        · exact Value.equal_trans coherent hk keys.1 hkey (Value.equal_symm l k ▸ old) e
        · exact Value.equal_trans coherent keys.1 hk hkey old e
      rw [if_pos old, Value.lookup_cons, Value.lookup_cons]
      dsimp only
      rw [both]
      split <;> rfl
    · rw [if_neg old]
      dsimp only
      rw [Value.lookup_cons, Value.lookup_cons, ih keys.2]
      dsimp only
      by_cases new : k.equal key = true
      · have other : ¬l.equal key = true := fun e =>
          old (Value.equal_trans coherent keys.1 hkey hk e (Value.equal_symm k key ▸ new))
        simp [new, other]
      · simp [new]

theorem lookup_insertPairs {kept kvs : List (Value × Value)} (old : ∀ kv ∈ kept, p kv.1)
    (keys : ∀ kv ∈ kvs, p kv.1) {key : Value} (hkey : p key) :
    lookup (insertPairs kept kvs).1 key = lookup (kvs.reverse ++ kept) key := by
  induction kvs generalizing kept with
  | nil => rfl
  | cons kv kvs ih =>
    obtain ⟨k, v⟩ := kv
    rw [List.forall_mem_cons] at keys
    have one := lookup_insertPair coherent old keys.1 v hkey
    rw [insertPairs]
    dsimp only
    rw [ih (insertPair_all old keys.1 v) keys.2, Value.lookup_append, one, List.reverse_cons,
      List.append_assoc, Value.lookup_append, List.singleton_append, Value.lookup_cons]

theorem insertPairs_keys {kept kvs : List (Value × Value)} {earlier : List Value}
    (old : ∀ kv ∈ kept, p kv.1) (keys : ∀ kv ∈ kvs, p kv.1)
    (stand : ∀ key, p key →
      (kept.map Prod.fst).any (·.equal key) = earlier.any (·.equal key)) :
    (insertPairs kept kvs).1.map Prod.fst =
      kept.map Prod.fst ++ firstKeys earlier (kvs.map Prod.fst) := by
  induction kvs generalizing kept earlier with
  | nil => simp [insertPairs, firstKeys]
  | cons kv kvs ih =>
    obtain ⟨k, v⟩ := kv
    rw [List.forall_mem_cons] at keys
    have grown := insertPair_fst kept k v
    have next := insertPair_all old keys.1 v
    rw [insertPairs, List.map_cons, firstKeys, ← stand k keys.1]
    dsimp only
    split at grown
    · rename_i known
      rw [if_pos known, ← grown]
      refine ih next keys.2 fun key hkey => ?_
      obtain ⟨l, member, same⟩ := List.any_eq_true.1 known
      obtain ⟨lw, mem, rfl⟩ := List.mem_map.1 member
      rw [grown, List.any_append, ← stand key hkey, List.any_cons, List.any_nil, Bool.or_false]
      refine (Bool.or_eq_left_iff_imp.2 fun e => ?_).symm
      have through := Value.equal_trans coherent (old lw mem) keys.1 hkey same e
      exact List.any_eq_true.2 ⟨lw.1, member, through⟩
    · rename_i new
      rw [if_neg new, List.append_cons, ← grown]
      refine ih next keys.2 fun key hkey => ?_
      rw [grown, List.any_append, List.any_append, stand key hkey]

/-- A map that is put together from pairs has keys of which no two are equal, those that were first
among equal ones, in their order. Under a key there is a value if a pair has an equal key, and it
is the one of the last such pair. Put together again from its own pairs the map has the same pairs.
The keys may be any values that exist together. -/
theorem newMap_spec (h h' : Heap) {kvs : List (Value × Value)} (keys : ∀ kv ∈ kvs, p kv.1) :
    ∃ c c' kept, (h.newMap kvs).1 = .map c kept ∧ (h'.newMap kept).1 = .map c' kept ∧
      kept.Pairwise (fun a b => a.1.equal b.1 = false ∧ b.1.equal a.1 = false) ∧
      kept.map Prod.fst = firstKeys [] (kvs.map Prod.fst) ∧
      ∀ key, p key →
        ((lookup kept key).isSome = true ↔ ∃ kv ∈ kvs, kv.1.equal key = true) ∧
        ∀ before l v after, kvs = before ++ (l, v) :: after → l.equal key = true →
          (∀ kv ∈ after, kv.1.equal key = false) → lookup kept key = some v := by
  have none : ∀ kv ∈ ([] : List (Value × Value)), p kv.1 := fun _ mem => absurd mem List.not_mem_nil
  have distinct : Distinct (insertPairs [] kvs).1 := insertPairs_distinct .nil kvs
  have again : insertPairs [] (insertPairs [] kvs).1 = ((insertPairs [] kvs).1, []) :=
    insertPairs_distinct_new distinct
  refine ⟨_, h'.cells.size, (insertPairs [] kvs).1, rfl, ?_, ?_, ?_, fun key hkey => ?_⟩
  · rw [newMap, again]
    rfl
  · exact distinct.imp fun {a b} differ => ⟨differ, Value.equal_symm a.1 b.1 ▸ differ⟩
  · exact insertPairs_keys coherent none keys fun _ _ => rfl
  · have found := lookup_insertPairs coherent none keys hkey
    rw [List.append_nil] at found
    rw [found]
    refine ⟨?_, fun before l v after parts same later => ?_⟩
    · simp [Value.lookup_isSome]
    · have behind : lookup after.reverse key = Option.none := by
        rw [← Option.not_isSome_iff_eq_none, Value.lookup_isSome]
        rintro ⟨kv, mem, e⟩
        rw [later kv (List.mem_reverse.1 mem)] at e
        cases e
      rw [parts, List.reverse_append, List.reverse_cons, List.append_assoc, Value.lookup_append,
        behind, List.singleton_append, Value.lookup_cons, if_pos same]
      rfl

end Heap

namespace Workspace

theorem run_coherent (ops : List Op) :
    Value.Coherent (· ∈ (start.run ops).owned ++ (start.run ops).heap.inside) := by
  have balanced : Heap.Balanced (start.run ops).heap ((start.run ops).owned ++ [])
      ((start.run ops).pinned ++ []) := (operations_fair start_sound.fair ops).balanced
  rw [List.append_nil, List.append_nil] at balanced
  exact balanced.toCounted.coherent

/-- A list with a number that is none, another name for it, a list like it, and an anonymous
object. -/
def oddKeys : List Op :=
  let odd : Shape := .list [.float (.nan false)]
  [.make "odd" (.shape odd) false, .share "odd" "same", .make "like" (.shape odd) false,
    .make "anon" (.shape (.anon 3 .system)) false]

def oddList (cell : CellId) : Value := .list cell [.float (.nan false)]

def oddPairs : List (Value × Value) :=
  [(oddList 0, .int 1), (oddList 1, .int 2), (.anon 2 none 3 .system, .int 3),
    (oddList 0, .int 4), (.float (.nan false), .int 5)]

theorem newMap_spec_odd :
    let w := start.run oddKeys
    Value.Coherent (· ∈ w.owned ++ w.heap.inside) ∧
      (∀ kv ∈ oddPairs, kv.1 ∈ w.owned ++ w.heap.inside) ∧
      ∃ c kept, (w.heap.newMap oddPairs).1 = .map c kept ∧
        kept.map Prod.fst =
          [oddList 0, oddList 1, .anon 2 none 3 .system, .float (.nan false)] ∧
        Value.lookup kept (oddList 0) = some (.int 4) ∧
        Value.lookup kept (.float (.nan false)) = none := by
  intro w
  have held : w.owned ++ w.heap.inside =
      [oddList 0, oddList 0, oddList 1, .anon 2 none 3 .system, .float (.nan false),
        .float (.nan false)] := rfl
  have keys : ∀ kv ∈ oddPairs, kv.1 ∈ w.owned ++ w.heap.inside := by
    rw [held]
    simp [oddPairs]
  obtain ⟨c, c', kept, made, -, -, first, found⟩ :=
    Heap.newMap_spec (run_coherent oddKeys) w.heap w.heap keys
  refine ⟨run_coherent oddKeys, keys, c, kept, made, first.trans rfl, ?_, ?_⟩
  · refine (found (oddList 0) (keys _ List.mem_cons_self)).2
      (oddPairs.take 3) (oddList 0) (.int 4) (oddPairs.drop 4) rfl rfl ?_
    simp [oddPairs, oddList, Value.equal]
  · have none := (found (.float (.nan false)) (keys (_, .int 5) (by simp [oddPairs]))).1
    refine Option.not_isSome_iff_eq_none.1 fun some => ?_
    obtain ⟨kv, mem, same⟩ := none.1 some
    have other : (oddPairs.all fun kv => !kv.1.equal (.float (.nan false))) = true := rfl
    have differ := List.all_eq_true.1 other kv mem
    rw [same] at differ
    cases differ

end Workspace
end MooCore
