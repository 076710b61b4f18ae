import MooCore.Proofs.Heap.GivenOut
import MooCore.Proofs.Finalization.Creation
import MooCore.Proofs.Finalization.Dealings
/-!
# There while reached, freed once

A cell is there as long as something outside leads to it, by itself or through the contents of
other cells. Every cell is made once and freed once, and what stands in it is given up when it is
freed and not before. Contents are older than what they stand in, so nothing keeps itself.
-/

set_option autoImplicit false
namespace MooCore

namespace Heap

/-- What values lead to, through the contents of cells. -/
inductive Reached (h : Heap) (roots : List Value) : CellId → Prop where
  | root {v : Value} {c : CellId} (held : v ∈ roots) (its : v.cell? = some c) : Reached h roots c
  | child {d : CellId} {cell : Cell} {v : Value} {c : CellId} (outer : Reached h roots d)
      (at_d : h.cell? d = some cell) (inner : v ∈ cell.value.children) (its : v.cell? = some c) :
      Reached h roots c

variable {many : Prop} {h : Heap} {own pin : List Value} {c : CellId} {cell : Cell}

theorem Weighed.reached_of_cell (b : Weighed many h own pin) (at_c : h.cell? c = some cell) :
    h.Reached (own ++ (pin ++ h.queued)) c := by
  -- What leads to a cell stands in a younger one, so this ends at the youngest.
  generalize left : h.cells.size - c = n
  induction n using Nat.strong_induction_on generalizing c cell with
  | _ n ih =>
    have by_root {v : Value} (held : v ∈ own ++ (pin ++ h.queued)) (its : v.cell? = some c) :
        h.Reached (own ++ (pin ++ h.queued)) c := .root held its
    rcases Nat.eq_zero_or_pos cell.pins with unpinned | pinned
    · have referred : 0 < cell.refs := by
        have kept := b.kept c cell at_c
        omega
      rw [b.refs c cell at_c] at referred
      obtain ⟨v, hv, its⟩ := exists_of_mentions referred
      rcases List.mem_append.1 hv with held | inside
      · exact by_root (List.mem_append_left _ held) its
      · obtain ⟨d, outer, at_d, inner⟩ := exists_of_mem_inside inside
        have younger : c < d := b.older d outer at_d v inner c its
        have fewer : h.cells.size - d < n :=
          left ▸ Nat.sub_lt_sub_left (cell?_lt at_c) younger
        exact .child (ih _ fewer at_d rfl) at_d inner its
    · rw [b.pins c cell at_c] at pinned
      obtain ⟨v, hv, its⟩ := exists_of_mentions pinned
      exact by_root (List.mem_append_right _ hv) its

theorem Weighed.cell_of_reached (b : Weighed many h own pin)
    (reached : h.Reached (own ++ (pin ++ h.queued)) c) : ∃ cell, h.cell? c = some cell := by
  have there (v : Value) (hv : v ∈ (own ++ h.inside) ++ (pin ++ h.queued)) (c : CellId)
      (its : v.cell? = some c) : ∃ cell, h.cell? c = some cell := by
    obtain ⟨cell, at_c, -⟩ := b.present v hv c its
    exact ⟨cell, at_c⟩
  cases reached with
  | root held its =>
    refine there _ ?_ c its
    simp only [List.mem_append] at held ⊢
    tauto
  | child _ at_d inner its =>
    refine there _ ?_ c its
    have inside := mem_inside_of_child at_d inner
    simp only [List.mem_append]
    tauto

end Heap

/-! ## What is let go -/

namespace Deal

def letsGo : Deal → List Value
  | gaveUp v => [v]
  | freed v => v.children
  | _ => []

def takesOff : Deal → List Value
  | dropped v => [v]
  | _ => []

end Deal

namespace Estate
open Heap

variable {e e' : Estate} {ds seen : List Deal}

theorem dropDeals_letsGo (h : Heap) (v : Value) (outcome : Bool × Heap) :
    (h.dropDeals v outcome).flatMap Deal.letsGo = spill outcome.1 v := by
  unfold dropDeals spill
  split
  · simp [Deal.letsGo]
  · split <;> simp [Deal.letsGo]

theorem dropDeals_takesOff (h : Heap) (v : Value) (outcome : Bool × Heap) :
    (h.dropDeals v outcome).flatMap Deal.takesOff = [v] := by
  unfold dropDeals
  split
  · simp [Deal.takesOff]
  · split <;> simp [Deal.takesOff]

theorem unpinDeals_letsGo (v : Value) (outcome : Bool × Heap) :
    (unpinDeals v outcome).flatMap Deal.letsGo = spill outcome.1 v := by
  unfold unpinDeals spill
  split <;> simp [Deal.letsGo]

theorem unpinDeals_takesOff (v : Value) (outcome : Bool × Heap) :
    (unpinDeals v outcome).flatMap Deal.takesOff = [] := by
  unfold unpinDeals
  split <;> simp [Deal.takesOff]

/-- What is on its way after a move is what was before, and what was let go, without what was taken
off a count. -/
theorem Step.going_perm (step : Step e ds e') :
    (ds.flatMap Deal.takesOff ++ e'.going).Perm (ds.flatMap Deal.letsGo ++ e.going) := by
  cases step with
  | regroup h owned pinned on_the_way => exact on_the_way.symm
  | plain | make | share | claim | copy | push | take | mark | openQueue | closeQueue =>
    exact .refl _
  | giveUp | vanish => exact .refl _
  | drop h own pin going v c its =>
    rw [dropDeals_takesOff, dropDeals_letsGo]
    exact (List.perm_middle.symm : (v :: (spill _ v ++ going)).Perm (spill _ v ++ v :: going))
  | unpin h own pin going v c its =>
    rw [unpinDeals_takesOff, unpinDeals_letsGo]
    exact .refl _

theorem Runs.going_perm (run : Runs e ds e') :
    (ds.flatMap Deal.takesOff ++ e'.going).Perm (ds.flatMap Deal.letsGo ++ e.going) := by
  induction run with
  | nil => exact .refl _
  | @snoc e' e'' ds ds' run step ih =>
    rw [List.flatMap_append, List.flatMap_append, List.append_assoc, List.append_assoc]
    refine (step.going_perm.append_left _).trans ?_
    refine (List.perm_append_comm_assoc _ _ _).trans ?_
    exact (ih.append_left _).trans (List.perm_append_comm_assoc _ _ _)

/-! ## Made and freed -/

/-- Cells come about by being made, and what is freed is the value of a cell. -/
structure Accounts (h : Heap) (ds : List Deal) (h' : Heap) : Prop where
  made : ∀ c cell', h'.cell? c = some cell' →
    (∃ cell, h.cell? c = some cell ∧ cell'.value = cell.value) ∨ .made cell'.value ∈ ds
  freed : ∀ v, .freed v ∈ ds → ∃ c cell, h.cell? c = some cell ∧ cell.value = v

theorem noneNew_accounts {h h' : Heap} (old : NoneNew h h') (none : ∀ v, .freed v ∉ ds) :
    Accounts h ds h' :=
  ⟨fun c cell' at_c => Or.inl (old c cell' at_c), fun v hv => absurd hv (none v)⟩

theorem erase_accounts {h : Heap} {c : CellId} {cell : Cell} (at_c : h.cell? c = some cell)
    (its : ∀ v, .freed v ∈ ds → v = cell.value) : Accounts h ds (h.erase c) :=
  ⟨fun d cell' at_d => Or.inl (NoneNew.erase at_c d cell' at_d),
    fun v hv => ⟨c, cell, at_c, (its v hv).symm⟩⟩

theorem Step.accounts (step : Step e ds e') (sound : e.Sound) : Accounts e.heap ds e'.heap := by
  obtain ⟨b, -⟩ := sound
  cases step with
  | regroup h | plain h | push h | take h | mark h | openQueue h | closeQueue h =>
    exact noneNew_accounts (.refl h) nofun
  | giveUp h | vanish h => exact noneNew_accounts (.refl h) (by simp)
  | make h own pin going make named =>
    refine ⟨fun c cell' at_c => ?_, by simp⟩
    rw [cell?_alloc] at at_c
    split at at_c
    · cases at_c
      exact Or.inr (List.mem_singleton.2 rfl)
    · exact Or.inl ⟨cell', at_c, rfl⟩
  | share h own pin going v seen => exact noneNew_accounts (h.modify_noneNew v fun _ => rfl) nofun
  | copy h own pin going v seen => exact noneNew_accounts (h.modify_noneNew v fun _ => rfl) nofun
  | claim h h' own pin going v seen granted =>
    have there : v ∈ ((going ++ own) ++ h.inside) ++ (pin ++ h.queued) := by
      simp only [List.mem_append] at seen ⊢
      tauto
    obtain ⟨c, cell, -, at_c, -, -, -, rfl⟩ := claim_ok b there granted
    refine noneNew_accounts (NoneNew.put at_c ?_) (by simp)
    rfl
  | drop h own pin going v c its =>
    obtain ⟨cell, at_c, value, pos⟩ := b.toCounted.cell_of_owned (List.mem_cons_self ..) its
    have outcome := dropRef_dropsTo (v := v) at_c pos
    generalize h.dropRef v c = after at outcome
    cases outcome with
    | fewer | kept =>
      refine noneNew_accounts (NoneNew.put at_c ?_) (by simp [dropDeals])
      rfl
    | handedOff last unclaimed s es awaited =>
      have kept :
          NoneNew h (h.put c { cell with refs := 0, queued := true, pins := cell.pins + 1 }) :=
        NoneNew.put at_c rfl
      refine noneNew_accounts kept fun v => ?_
      simp only [dropDeals, Bool.false_eq_true, if_false]
      split <;> simp
    | freed => exact erase_accounts at_c (by simp [dropDeals, value])
  | unpin h own pin going v c its =>
    obtain ⟨cell, at_c, value, -⟩ := b.toCounted.cell_of_held (List.mem_cons_self ..) its
    dsimp only
    rw [unpin_eq at_c]
    split
    · exact erase_accounts at_c (by simp [unpinDeals, value])
    · refine noneNew_accounts (NoneNew.put at_c ?_) (by simp [unpinDeals])
      rfl

theorem Runs.made (run : Runs e ds e') (sound : e.Sound) (empty : ∀ c, e.heap.cell? c = none) :
    (∀ c cell, e'.heap.cell? c = some cell → .made cell.value ∈ ds) ∧
    ∀ v, .freed v ∈ ds → .made v ∈ ds := by
  induction run with
  | nil => exact ⟨fun c cell at_c => by simp [empty c] at at_c, nofun⟩
  | snoc run step ih =>
    obtain ⟨made, freed⟩ := ih
    have accounts := step.accounts (run.sound sound)
    refine ⟨fun c cell at_c => ?_, fun v hv => ?_⟩
    · rcases accounts.made c cell at_c with ⟨old, at_c', same⟩ | new
      · exact List.mem_append_left _ (same ▸ made c old at_c')
      · exact List.mem_append_right _ new
    · refine List.mem_append_left _ ?_
      rcases List.mem_append.1 hv with before | now
      · exact freed v before
      · obtain ⟨c, cell, at_c, rfl⟩ := accounts.freed v now
        exact made c cell at_c

theorem born_eq (h : Heap) (c : CellId) :
    (h.lifeOf c).born = (h.lifeOf c).ended + if (h.cell? c).isSome then 1 else 0 := by
  unfold lifeOf
  cases h.cell? c with
  | some cell => cases queued : cell.queued <;> simp [queued, CellLife.born, CellLife.ended]
  | none => by_cases made : c < h.cells.size <;> simp [made, CellLife.born, CellLife.ended]

theorem Runs.made_freed (run : Runs {} ds e) (c : CellId) :
    ds.countP (·.makes c) ≤ 1 ∧
    ds.countP (·.frees c) + (if (e.heap.cell? c).isSome then 1 else 0) = ds.countP (·.makes c) := by
  have life := run.life start_sound c
  rw [start_life] at life
  have made : ds.countP (·.makes c) = (e.heap.lifeOf c).born := life.born
  have freed : ds.countP (·.frees c) = (e.heap.lifeOf c).ended := life.ended
  have most : (e.heap.lifeOf c).born ≤ 1 := by
    cases e.heap.lifeOf c <;> simp [CellLife.born]
  have balance := born_eq e.heap c
  omega

/-- After every course of work, and in the middle of it as well, a cell is there if and only if a
reference or a pin from outside or an entry of a queue leads to it, where what is on its way out
counts as outside. A cell is made at most once, and freed exactly once when it is no longer there;
what is freed is what was made; and the references that were taken off the counts, with those that
are on their way, are those that owners gave up and those that stood in cells that were freed. None
was taken away that was not there. -/
theorem reached_and_freed_once :
    (∀ deeds : List Workspace.Deed, (∀ d ∈ deeds, d.Orderly) →
      let w := (Workspace.carryOut Workspace.start deeds).2
      ∃ seen, Runs {} seen ⟨w.heap, w.owned, w.pinned, []⟩) ∧
    ∀ seen e, Runs {} seen e →
      (∀ c, (∃ cell, e.heap.cell? c = some cell) ↔ e.heap.Reached e.roots c) ∧
      (∀ c, seen.countP (·.makes c) ≤ 1 ∧
        seen.countP (·.frees c) + (if (e.heap.cell? c).isSome then 1 else 0) =
          seen.countP (·.makes c)) ∧
      (∀ v, .freed v ∈ seen → .made v ∈ seen) ∧
      (seen.flatMap Deal.takesOff ++ e.going).Perm (seen.flatMap Deal.letsGo) ∧
      e.heap.overdrawn = 0 := by
  refine ⟨Workspace.deeds_are_moves, fun seen e run => ?_⟩
  have right := run.sound start_sound
  refine ⟨fun c => ⟨fun ⟨cell, at_c⟩ => right.weighed.reached_of_cell at_c,
    fun reached => right.weighed.cell_of_reached reached⟩, fun c => run.made_freed c,
    (run.made start_sound fun c => by simp [cell?]).2, ?_, right.weighed.solvent⟩
  simpa using run.going_perm

def letGo : List Workspace.Deed :=
  [.act (.make "s" (.shape (.str "s")) true), .act (.make "l" (.list [.named "s"]) true),
    .act (.make "w" (.waif 1 ⟨0⟩ ⟨0⟩ [.named "l", .named "s"]) true), .act (.release "s"),
    .act (.release "l"), .act (.release "w")]

theorem letGo_freed_by_pass :
    let w := (Workspace.carryOut Workspace.start letGo).2
    let w' := (Workspace.carryOut Workspace.start
      (letGo ++ [.drain (fun _ _ => {}) fun _ _ => []])).2
    w.owned = [] ∧ w.heap.Reached (w.owned ++ (w.pinned ++ w.heap.queued)) 0 ∧
    ∃ seen, Runs {} seen ⟨w'.heap, w'.owned, w'.pinned, []⟩ ∧
      ¬ w'.heap.Reached (w'.owned ++ (w'.pinned ++ w'.heap.queued)) 0 ∧
      seen.countP (·.frees 0) = seen.countP (·.makes 0) := by
  intro w w'
  obtain ⟨early, first⟩ := reached_and_freed_once.1 letGo (by simp [letGo, Workspace.Deed.Orderly])
  obtain ⟨seen, run⟩ := reached_and_freed_once.1 (letGo ++ [.drain (fun _ _ => {}) fun _ _ => []])
    (by simp [letGo, Workspace.Deed.Orderly, Workspace.Deed.LeavesQueue])
  have there : (w.heap.cell? 0).isSome = true := by decide
  have gone : (w'.heap.cell? 0).isSome = false := by decide
  have reached := (reached_and_freed_once.2 early _ first).1 0
  obtain ⟨unreached, counts, -⟩ := reached_and_freed_once.2 seen _ run
  refine ⟨by decide, reached.1 (Option.isSome_iff_exists.1 there), seen, run, fun leads => ?_, ?_⟩
  · obtain ⟨cell, at_0⟩ := (unreached 0).2 leads
    change w'.heap.cell? 0 = some cell at at_0
    simp [at_0] at gone
  · have balance := (counts 0).2
    change _ + (if (w'.heap.cell? 0).isSome then 1 else 0) = _ at balance
    rw [gone] at balance
    exact balance

end Estate
end MooCore
