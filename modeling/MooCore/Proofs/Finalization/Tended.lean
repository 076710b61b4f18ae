import MooCore.Proofs.Finalization.Census
import MooCore.Proofs.Heap.Estate
import MooCore.Proofs.Value.Containment
/-!
# What belongs to a queue

Values that a queue holds, with all that is inside them. While references to such values are given
up, whatever of them is claimed is an entry of the queue, and the anonymous objects and waifs among
them stay.
-/

set_option autoImplicit false
namespace MooCore.Heap

/-- Values that belong to a queue: so do those inside them, and the finalizable ones have no other
queue to go to. -/
structure Domain (s : SinkId) (P : Value → Prop) : Prop where
  inner : ∀ v, P v → ∀ u, u.In v → P u
  sunk : ∀ v, P v → v.isFinalizable = true → v.sink? = some s

/-- But for some old entries a queue has entries of its own only, and what was claimed of its own
is an entry, or about to be destroyed. -/
structure Tended (s : SinkId) (P : Value → Prop) (old : List Entry) (pending : List Value)
    (h : Heap) : Prop where
  alive : ∃ es, h.queue? s = some es
  entered : ∀ e ∈ h.entries s, e ∈ old ∨ P e.value
  filed : ∀ c cell, h.cell? c = some cell → P cell.value → cell.queued = true →
    0 < mentions c ((h.entries s).map Entry.value ++ pending)

/-- The anonymous objects and waifs of a queue are still there. -/
def Keeps (P : Value → Prop) (h h' : Heap) : Prop :=
  ∀ c cell, h.cell? c = some cell → P cell.value → cell.value.isFinalizable = true →
    ∃ cell', h'.cell? c = some cell' ∧ cell'.value = cell.value

variable {s : SinkId} {P : Value → Prop} {h h' h'' : Heap} {own pin pending : List Value}
  {old : List Entry} {v : Value} {c : CellId} {cell was : Cell}

/-- What holds of all that owners refer to and all that was claimed, and goes over to what is
inside, holds of everything: what refers to a cell stands in a younger one. -/
theorem Weighed.climb {many : Prop} (b : Weighed many h own pin)
    (owned : ∀ v ∈ own, v.cell? ≠ none → P v)
    (claimed : ∀ c cell, h.cell? c = some cell → cell.queued = true → P cell.value)
    (inner : ∀ d outer, h.cell? d = some outer → P outer.value → ∀ u, u.In outer.value →
      u.cell? ≠ none → P u) (hc : h.cell? c = some cell) : P cell.value := by
  generalize left : h.cells.size - c = n
  induction n using Nat.strong_induction_on generalizing c cell with
  | _ n ih =>
    rcases Nat.eq_zero_or_pos cell.pins with unpinned | pinned
    · have referred : 0 < cell.refs := by
        have kept := b.kept c cell hc
        omega
      rw [b.refs c cell hc] at referred
      obtain ⟨u, hu, same⟩ := exists_of_mentions referred
      have composite : u.cell? ≠ none := by simp [same]
      obtain ⟨cell', hc', rfl⟩ := b.present u (List.mem_append_left _ hu) c same
      obtain rfl : cell = cell' := Option.some.inj (hc.symm.trans hc')
      rcases List.mem_append.1 hu with held | inside
      · exact owned _ held composite
      · obtain ⟨d, outer, at_d, child⟩ := exists_of_mem_inside inside
        have younger : c < d := b.older d outer at_d _ child c same
        have fewer : h.cells.size - d < n := left ▸ Nat.sub_lt_sub_left (cell?_lt hc) younger
        exact inner d outer at_d (ih _ fewer at_d rfl) _ child composite
    · exact claimed c cell hc ((b.claimed c cell hc).1 pinned)

theorem Keeps.refl (h : Heap) : Keeps P h h := fun _ cell hc _ _ => ⟨cell, hc, rfl⟩

theorem Keeps.trans (first : Keeps P h h') (second : Keeps P h' h'') : Keeps P h h'' := by
  intro c cell hc hP kind
  obtain ⟨cell', hc', value⟩ := first c cell hc hP kind
  obtain ⟨cell'', hc'', value'⟩ := second c cell' hc' (value ▸ hP) (value ▸ kind)
  exact ⟨cell'', hc'', value'.trans value⟩

theorem Keeps.put (hc : h.cell? c = some was) (value : cell.value = was.value) :
    Keeps P h (h.put c cell) := by
  intro d at_d hd _ _
  rw [cell?_put hc]
  split
  · rename_i same
    subst same
    rw [hc] at hd
    cases hd
    exact ⟨cell, rfl, value⟩
  · exact ⟨at_d, hd, rfl⟩

theorem Keeps.erase (hc : h.cell? c = some was) (kind : ¬ was.value.isFinalizable = true) :
    Keeps P h (h.erase c) := by
  intro d at_d hd _ some_kind
  rw [cell?_erase hc, if_neg]
  · exact ⟨at_d, hd, rfl⟩
  · rintro rfl
    rw [hc] at hd
    cases hd
    exact kind some_kind

namespace Tended

theorem put (tended : Tended s P old pending h) (hc : h.cell? c = some was)
    (value : cell.value = was.value) (queued : cell.queued = was.queued) :
    Tended s P old pending (h.put c cell) := by
  refine ⟨tended.alive, tended.entered, fun d at_d hd hP claimed => ?_⟩
  rw [cell?_put hc] at hd
  split at hd
  · rename_i same
    subst same
    cases hd
    exact tended.filed d was hc (value ▸ hP) (queued ▸ claimed)
  · exact tended.filed d at_d hd hP claimed

theorem erase (tended : Tended s P old pending h) (hc : h.cell? c = some was) :
    Tended s P old pending (h.erase c) := by
  refine ⟨tended.alive, tended.entered, fun d at_d hd hP claimed => ?_⟩
  rw [cell?_erase hc] at hd
  split at hd
  · cases hd
  · exact tended.filed d at_d hd hP claimed

theorem alloc (tended : Tended s P old pending h) (make : CellId → Value) :
    Tended s P old pending (h.alloc make).2 := by
  refine ⟨tended.alive, tended.entered, fun d at_d hd hP claimed => ?_⟩
  rw [cell?_alloc] at hd
  split at hd
  · cases hd
    cases claimed
  · exact tended.filed d at_d hd hP claimed

theorem push (tended : Tended s P old pending h) (hc : h.cell? c = some was)
    (hv : v.cell? = some c) (hP : P v) (flag : Bool) :
    Tended s P old pending ((h.put c cell).putQueue s (h.entries s ++ [⟨v, flag⟩])) := by
  obtain ⟨es, hs⟩ := tended.alive
  have there : (h.put c cell).queue? s = some es := hs
  have queue : ((h.put c cell).putQueue s (h.entries s ++ [⟨v, flag⟩])).queue? s =
      some (h.entries s ++ [⟨v, flag⟩]) := by rw [queue?_putQueue there, if_pos rfl]
  refine ⟨⟨_, queue⟩, fun e he => ?_, fun d at_d hd hPd claimed => ?_⟩
  · rw [entries_eq queue] at he
    rcases List.mem_append.1 he with he | he
    · exact tended.entered e he
    · obtain rfl := List.mem_singleton.1 he
      exact Or.inr hP
  · rw [entries_eq queue, List.map_append, mentions_append, mentions_append]
    rw [cell?_putQueue, cell?_put hc] at hd
    split at hd
    · rename_i same
      subst same
      have new : 0 < mentions d ([(⟨v, flag⟩ : Entry)].map Entry.value) :=
        mentions_pos (List.mem_singleton.2 rfl) hv
      omega
    · have filed := tended.filed d at_d hd hPd claimed
      rw [mentions_append] at filed
      omega

theorem pinned (tended : Tended s P old pending h) (b : Balanced h own pin)
    (hpend : ∀ u ∈ pending, u ∈ pin) (hc : h.cell? c = some cell) (hP : P cell.value)
    (queued : cell.queued = true) : 0 < cell.pins := by
  obtain ⟨u, hu, at_c⟩ := exists_of_mentions (tended.filed c cell hc hP queued)
  have held : u ∈ pin ++ h.queued := by
    rcases List.mem_append.1 hu with entry | waits
    · obtain ⟨e, he, rfl⟩ := List.mem_map.1 entry
      exact List.mem_append_right _ (Workspace.mem_queued_of_entry he)
    · exact List.mem_append_left _ (hpend u waits)
  rw [b.pins c cell hc]
  exact mentions_pos held at_c

theorem entry_of_queued (tended : Tended s P old [] h) (b : Balanced h own pin)
    (hc : h.cell? c = some cell) (hP : P cell.value) (queued : cell.queued = true) :
    ∃ e ∈ h.entries s, e.value = cell.value := by
  have filed := tended.filed c cell hc hP queued
  rw [List.append_nil] at filed
  obtain ⟨u, hu, same⟩ := exists_of_mentions filed
  obtain ⟨e, he, rfl⟩ := List.mem_map.1 hu
  obtain ⟨cell', hc', value⟩ := b.present e.value
    (by simp [Workspace.mem_queued_of_entry he]) c same
  obtain rfl : cell = cell' := Option.some.inj (hc.symm.trans hc')
  exact ⟨e, he, value.symm⟩

theorem share (tended : Tended s P old pending h) (v : Value) :
    Tended s P old pending (h.share v) := by
  cases hv : v.cell? with
  | none => rwa [Heap.share, modify_scalar hv]
  | some c =>
    cases hc : h.cell? c with
    | none =>
      simp only [Heap.share, modify, hv, adjust, hc]
      exact tended
    | some cell =>
      rw [Heap.share, modify_eq hv hc]
      exact tended.put hc rfl rfl

/-! ## Giving up references -/

theorem dropRef (domain : Domain s P) (tended : Tended s P old pending h)
    (b : Balanced h (v :: own) pin) (hpend : ∀ u ∈ pending, u ∈ pin) (hv : v.cell? = some c)
    (hP : P v) :
    Tended s P old pending (h.dropRef v c).2 ∧ Keeps P h (h.dropRef v c).2 := by
  obtain ⟨cell, hc, value, pos⟩ := b.toCounted.cell_of_owned (v := v) (by simp) hv
  obtain ⟨es, hs⟩ := tended.alive
  have drops := dropRef_dropsTo (v := v) hc pos
  generalize h.dropRef v c = out at drops ⊢
  cases drops with
  | fewer | kept => exact ⟨tended.put hc rfl rfl, Keeps.put hc rfl⟩
  | handedOff last unclaimed t fs awaited =>
    have sunk := domain.sunk v hP (Value.isFinalizable_of_sink? awaited.1)
    obtain rfl : s = t := Option.some.inj (sunk.symm.trans awaited.1)
    have kept : Keeps P h (h.put c { cell with refs := 0, queued := true, pins := cell.pins + 1 }) :=
      Keeps.put hc rfl
    exact ⟨entries_eq awaited.2 ▸ tended.push hc hv hP false, kept⟩
  | freed last unpinned settled =>
    have bare : ¬ cell.value.isFinalizable = true := by
      intro kind
      rcases settled with queued | unawaited
      · have pinned := tended.pinned b hpend hc (value ▸ hP) queued
        omega
      · exact unawaited s es ⟨domain.sunk v hP (value ▸ kind), hs⟩
    exact ⟨tended.erase hc, Keeps.erase hc bare⟩

theorem falls {vs : List Value} (domain : Domain s P) (falls : Falls h vs h')
    (tended : Tended s P old pending h) (b : Balanced h (vs ++ own) pin)
    (hpend : ∀ u ∈ pending, u ∈ pin) (each : ∀ v ∈ vs, P v) :
    Tended s P old pending h' ∧ Keeps P h h' := by
  induction falls with
  | done h => exact ⟨tended, Keeps.refl h⟩
  | scalar hv rest ih =>
    exact ih tended ((Falls.scalar hv (Falls.done _)).balanced b)
      fun u hu => each u (List.mem_cons_of_mem _ hu)
  | @drop h _ v c vs hv _ ih =>
    have hP := each v (by simp)
    obtain ⟨dropped, kept⟩ := tended.dropRef domain b hpend hv hP
    have next : Balanced (h.dropRef v c).2 ((spill (h.dropRef v c).1 v ++ vs) ++ own) pin := by
      rw [List.append_assoc]
      exact dropRef_balanced b hv
    -- What falls out of a container belongs to the queue as the container did.
    have inner : ∀ u ∈ spill (h.dropRef v c).1 v ++ vs, P u := by
      intro u hu
      rcases List.mem_append.1 hu with spilt | other
      · unfold spill at spilt
        split at spilt
        · exact domain.inner v hP u spilt
        · exact absurd spilt List.not_mem_nil
      · exact each u (List.mem_cons_of_mem _ other)
    obtain ⟨tended', kept'⟩ := ih dropped next inner
    exact ⟨tended', kept.trans kept'⟩

theorem release (domain : Domain s P) (tended : Tended s P old pending h)
    (b : Balanced h (v :: own) pin) (hpend : ∀ u ∈ pending, u ∈ pin) (hP : P v) :
    Tended s P old pending (h.release v) ∧ Keeps P h (h.release v) :=
  tended.falls domain (release_falls h v) b hpend fun _ hu => List.mem_singleton.1 hu ▸ hP

/-- A pinned value that nothing refers to goes with its pin. What was in it may become an entry. -/
theorem dropPin (domain : Domain s P) (tended : Tended s P old (v :: pending) h)
    (b : Balanced h own (v :: pin)) (hpend : ∀ u ∈ pending, u ∈ pin) (hP : P v)
    (hv : v.cell? = some c) (asleep : h.Asleep c) :
    Tended s P old pending (h.dropPin v) ∧ Keeps (fun u => P u ∧ u ≠ v) h (h.dropPin v) := by
  obtain ⟨cell, hc, rfl, -, one⟩ := b.toCounted.cell_of_pinned (v := v) (by simp) hv
  -- The pin is the last thing that keeps the cell.
  have gone : h.unpin c = (true, h.erase c) :=
    (unpin_eq hc).trans (if_pos ⟨asleep.2 cell hc, Nat.le_of_eq one⟩)
  have rest := unpin_balanced b hv
  rw [gone] at rest
  rw [dropPin_eq h hv, gone]
  have erased : Tended s P old pending (h.erase c) := by
    refine ⟨tended.alive, tended.entered, fun d at_d hd hPd queued => ?_⟩
    rw [cell?_erase hc] at hd
    split at hd
    · cases hd
    · rename_i other
      have filed := tended.filed d at_d hd hPd queued
      rw [mentions_append, mentions_cons_ne hv other] at filed
      rw [mentions_append]
      exact filed
  obtain ⟨tended', kept⟩ := erased.falls domain (releaseAll_falls _ _) rest hpend
    fun u hu => domain.inner _ hP u hu
  refine ⟨tended', fun d at_d hd ⟨hPd, other⟩ kind => ?_⟩
  have there : (h.erase c).cell? d = some at_d := by
    rw [cell?_erase hc, if_neg]
    · exact hd
    · rintro rfl
      rw [hc] at hd
      cases hd
      exact other rfl
  exact kept d at_d there hPd kind

end Tended

end MooCore.Heap
