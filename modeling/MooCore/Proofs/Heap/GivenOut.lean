import MooCore.Proofs.Heap.Dealings
/-!
# Given out once

A cell is made once, may be claimed or handed off once while it is there, and is freed at most once.
Whatever owners do, a value is given out for finalization at most once in its life.
-/

set_option autoImplicit false
namespace MooCore

/-! ## The life of a cell -/

inductive CellLife where
  | unborn | unclaimed | claimed | gone
deriving DecidableEq

namespace CellLife

/-- What a move does to one cell. -/
inductive Step (c : CellId) : CellLife → Deal → CellLife → Prop where
  | aside (l : CellLife) (d : Deal) (makes : d.makes c = false) (gives : d.gives c = false)
      (frees : d.frees c = false) : Step c l d l
  | made (d : Deal) (its : d.makes c = true) : Step c .unborn d .unclaimed
  | given (d : Deal) (its : d.gives c = true) : Step c .unclaimed d .claimed
  | freed (l : CellLife) (d : Deal) (alive : l = .unclaimed ∨ l = .claimed)
      (its : d.frees c = true) : Step c l d .gone

inductive Path (c : CellId) : CellLife → List Deal → CellLife → Prop where
  | nil (l : CellLife) : Path c l [] l
  | cons {l l' l'' : CellLife} {d : Deal} {ds : List Deal} (step : Step c l d l')
      (path : Path c l' ds l'') : Path c l (d :: ds) l''

variable {c : CellId} {l l' l'' : CellLife} {d : Deal} {ds ds' : List Deal}

theorem Step.path (step : Step c l d l') : Path c l [d] l' := .cons step (.nil l')

theorem Path.append (first : Path c l ds l') (second : Path c l' ds' l'') :
    Path c l (ds ++ ds') l'' := by
  induction first with
  | nil => exact second
  | cons step _ ih => exact .cons step (ih second)

/-! ### What is left to come -/

/-- How often the cell has been made. -/
def born : CellLife → Nat
  | unborn => 0
  | _ => 1

/-- How often it has been freed. -/
def ended : CellLife → Nat
  | gone => 1
  | _ => 0

/-- How often it can still be given out. -/
def left : CellLife → Nat
  | unborn | unclaimed => 1
  | claimed | gone => 0

theorem Step.born (step : Step c l d l') : (if d.makes c then 1 else 0) + l.born = l'.born := by
  cases step with
  | aside _ _ makes => simp [makes]
  | made _ its => simp [its, CellLife.born]
  | given _ its => cases d <;> simp_all [Deal.makes, Deal.gives, CellLife.born]
  | freed _ _ alive its =>
    have other : d.makes c = false := by cases d <;> simp_all [Deal.makes, Deal.frees]
    rcases alive with rfl | rfl <;> simp [other, CellLife.born]

theorem Step.ended (step : Step c l d l') : (if d.frees c then 1 else 0) + l.ended = l'.ended := by
  cases step with
  | aside _ _ _ _ frees => simp [frees]
  | made _ its => cases d <;> simp_all [Deal.makes, Deal.frees, CellLife.ended]
  | given _ its => cases d <;> simp_all [Deal.frees, Deal.gives, CellLife.ended]
  | freed _ _ alive its => rcases alive with rfl | rfl <;> simp [its, CellLife.ended]

theorem Step.left (step : Step c l d l') :
    (if d.gives c then 1 else 0) + l'.left = l.left ∨
      (d.gives c = false ∧ l' = .gone) := by
  cases step with
  | aside _ _ _ gives => simp [gives]
  | made _ its => cases d <;> simp_all [Deal.makes, Deal.gives, CellLife.left]
  | given _ its => simp [its, CellLife.left]
  | freed _ _ _ its => cases d <;> simp_all [Deal.frees, Deal.gives]

theorem Path.born (path : Path c l ds l') : ds.countP (·.makes c) + l.born = l'.born := by
  induction path with
  | nil => simp
  | cons step _ ih =>
    have one := step.born
    rw [List.countP_cons]
    omega

theorem Path.ended (path : Path c l ds l') : ds.countP (·.frees c) + l.ended = l'.ended := by
  induction path with
  | nil => simp
  | cons step _ ih =>
    have one := step.ended
    rw [List.countP_cons]
    omega

theorem Path.of_gone (path : Path c .gone ds l') : l' = .gone ∧ ds.countP (·.gives c) = 0 := by
  generalize start : CellLife.gone = l at path
  induction path with
  | nil => exact ⟨rfl, rfl⟩
  | cons step _ ih =>
    subst start
    cases step with
    | aside _ _ _ gives =>
      obtain ⟨ends, none⟩ := ih rfl
      exact ⟨ends, by rw [List.countP_cons, none, gives]; rfl⟩
    | freed _ _ alive => exact nomatch alive

/-- Over a whole life no more is given out than was left; while the cell is there, the rest is still
left. -/
theorem Path.left (path : Path c l ds l') :
    ds.countP (·.gives c) ≤ l.left ∧ (l' ≠ .gone → ds.countP (·.gives c) + l'.left = l.left) := by
  induction path with
  | nil => simp
  | cons step path ih =>
    rw [List.countP_cons]
    rcases step.left with used | ⟨none, rfl⟩
    · refine ⟨by omega, fun there => ?_⟩
      have rest := ih.2 there
      omega
    · obtain ⟨ends, none'⟩ := path.of_gone
      rw [none, none']
      exact ⟨Nat.zero_le _, fun there => absurd ends there⟩

end CellLife

namespace Heap
variable {h h' : Heap} {v : Value} {c d : CellId} {cell old : Cell} {own pin : List Value}

def lifeOf (h : Heap) (c : CellId) : CellLife :=
  match h.cell? c with
  | some cell => if cell.queued then .claimed else .unclaimed
  | none => if c < h.cells.size then .gone else .unborn

theorem lifeOf_of_cell (hc : h.cell? c = some cell) :
    h.lifeOf c = if cell.queued then .claimed else .unclaimed := by
  simp only [lifeOf, hc]

theorem lifeOf_put (hc : h.cell? d = some old) (cell : Cell) (c : CellId) :
    (h.put d cell).lifeOf c =
      if c = d then (if cell.queued then .claimed else .unclaimed) else h.lifeOf c := by
  unfold lifeOf
  rw [cell?_put hc, size_put]
  by_cases e : c = d
  · simp only [if_pos e]
  · simp only [if_neg e]

theorem lifeOf_put_same (hc : h.cell? d = some old) (same : cell.queued = old.queued) (c : CellId) :
    (h.put d cell).lifeOf c = h.lifeOf c := by
  rw [lifeOf_put hc]
  split
  · rename_i e
    rw [e, lifeOf_of_cell hc, same]
  · rfl

theorem lifeOf_erase (hc : h.cell? d = some old) (c : CellId) :
    (h.erase d).lifeOf c = if c = d then .gone else h.lifeOf c := by
  unfold lifeOf
  rw [cell?_erase hc, size_erase]
  by_cases e : c = d
  · subst e
    simp [cell?_lt hc]
  · simp [e]

theorem lifeOf_alloc (h : Heap) (make : CellId → Value) (c : CellId) :
    (h.alloc make).2.lifeOf c = if c = h.cells.size then .unclaimed else h.lifeOf c := by
  unfold lifeOf
  rw [cell?_alloc, size_alloc]
  by_cases e : c = h.cells.size
  · simp [e, Cell.fresh]
  · simp only [e, if_false]
    cases h.cell? c with
    | some cell => rfl
    | none =>
      have same : c < h.cells.size + 1 ↔ c < h.cells.size :=
        ⟨fun lt => Nat.lt_of_le_of_ne (Nat.le_of_lt_succ lt) e, Nat.lt_succ_of_lt⟩
      simp only [same]

theorem lifeOf_unborn (h : Heap) : h.lifeOf h.cells.size = .unborn := by
  have none : h.cell? h.cells.size = none := by
    cases at_c : h.cell? h.cells.size with
    | none => rfl
    | some cell => exact absurd (cell?_lt at_c) (Nat.lt_irrefl _)
  simp [lifeOf, none]

theorem lifeOf_modify (h : Heap) (v : Value) {f : Cell → Cell}
    (same : ∀ cell, (f cell).queued = cell.queued) (c : CellId) :
    (h.modify v f).lifeOf c = h.lifeOf c := by
  cases hv : v.cell? with
  | none => rw [modify_scalar hv]
  | some d =>
    cases hd : h.cell? d with
    | none => simp only [modify, hv, adjust, hd]
    | some cell => rw [modify_eq hv hd, lifeOf_put_same hd (same cell)]

end Heap

namespace Estate
open Heap
variable {e e' : Estate} {ds : List Deal}

theorem aside_path (l : CellLife) {d : Deal} {c : CellId} (makes : d.makes c = false)
    (gives : d.gives c = false) (frees : d.frees c = false) : CellLife.Path c l [d] l :=
  (CellLife.Step.aside l d makes gives frees).path

theorem freed_path {h : Heap} {v : Value} {c : CellId} {cell : Cell} (at_c : h.cell? c = some cell)
    (its : v.cell? = some c) (n : CellId) :
    CellLife.Path n (h.lifeOf n) [.freed v] ((h.erase c).lifeOf n) := by
  rw [lifeOf_erase at_c]
  refine CellLife.Step.path ?_
  split
  · rename_i same
    refine .freed _ _ ?_ (by simpa [Deal.frees, same] using its)
    rw [same, lifeOf_of_cell at_c]
    cases cell.queued <;> simp
  · rename_i other
    exact .aside _ _ rfl rfl (by simpa [Deal.frees, its] using Ne.symm other)

theorem given_path {h : Heap} {v : Value} {c : CellId} {old cell : Cell} {d : Deal}
    (at_c : h.cell? c = some old) (its : v.cell? = some c) (unclaimed : old.queued = false)
    (claimed : cell.queued = true) (kind : d = .claimed v ∨ d = .handedOff v) (n : CellId) :
    CellLife.Path n (h.lifeOf n) [d] ((h.put c cell).lifeOf n) := by
  have gives : d.gives n = decide (n = c) := by
    rcases kind with rfl | rfl <;> simp [Deal.gives, its, eq_comm]
  rw [lifeOf_put at_c, claimed]
  refine CellLife.Step.path ?_
  split
  · rename_i same
    rw [same, lifeOf_of_cell at_c, unclaimed]
    exact .given _ (by simpa [same] using gives)
  · rename_i other
    refine .aside _ _ ?_ (by simpa [other] using gives) ?_
    all_goals rcases kind with rfl | rfl <;> rfl

/-- What a move shows of a cell is what it does to the cell. -/
theorem Step.life (step : Step e ds e') (sound : e.Sound) (n : CellId) :
    CellLife.Path n (e.heap.lifeOf n) ds (e'.heap.lifeOf n) := by
  obtain ⟨b, kinds⟩ := sound
  have nothing {h h' : Heap} (same : h'.lifeOf n = h.lifeOf n) :
      CellLife.Path n (h.lifeOf n) [] (h'.lifeOf n) := same ▸ .nil _
  cases step with
  | regroup h | plain h | push h | take h | mark h | openQueue h | closeQueue h => exact .nil _
  | make h own pin going make named =>
    refine CellLife.Step.path ?_
    rw [lifeOf_alloc]
    split
    · rename_i its
      rw [its, lifeOf_unborn]
      exact .made _ (by simpa [Deal.makes] using named)
    · rename_i other
      refine .aside _ _ ?_ rfl rfl
      simpa [Deal.makes, named] using Ne.symm other
  | share h own pin going v seen =>
    exact nothing (h.lifeOf_modify v (f := fun cell => { cell with refs := cell.refs + 1 })
      (fun _ => rfl) n)
  | copy h own pin going v seen =>
    exact nothing (h.lifeOf_modify v (f := fun cell => { cell with pins := cell.pins + 1 })
      (fun _ => rfl) n)
  | giveUp h own pin going v => exact aside_path _ rfl rfl rfl
  | vanish h own pin going v scalar => exact aside_path _ rfl rfl rfl
  | drop h own pin going v c its =>
    obtain ⟨cell, at_c, -, pos⟩ := b.toCounted.cell_of_owned (List.mem_cons_self ..) its
    have outcome := dropRef_dropsTo (v := v) at_c pos
    generalize h.dropRef v c = after at outcome
    refine .cons (.aside _ _ rfl rfl rfl) ?_
    cases outcome with
    | fewer | kept =>
      simp only [Bool.false_eq_true, if_false, queued_put, Nat.lt_irrefl]
      refine nothing (lifeOf_put_same at_c ?_ n)
      rfl
    | handedOff last unclaimed s es awaited =>
      have queue : (h.put c { cell with refs := 0, queued := true, pins := cell.pins + 1 }).queue? s
          = some es := awaited.2
      have longer := (queued_putQueue queue (es ++ [⟨v, false⟩])).length_eq
      simp only [List.length_append, List.length_map, List.length_singleton, queued_put] at longer
      simp only [Bool.false_eq_true, if_false]
      rw [if_pos (by omega)]
      exact given_path at_c its unclaimed rfl (Or.inr rfl) n
    | freed =>
      exact freed_path at_c its n
  | claim h h' own pin going v seen granted =>
    have there : v ∈ ((going ++ own) ++ h.inside) ++ (pin ++ h.queued) := by
      simp only [List.mem_append] at seen ⊢
      tauto
    obtain ⟨c, cell, its, at_c, -, unclaimed, -, rfl⟩ := claim_ok b there granted
    exact given_path at_c its unclaimed rfl (Or.inl rfl) n
  | unpin h own pin going v c its =>
    obtain ⟨cell, at_c, -⟩ := b.toCounted.cell_of_held (List.mem_cons_self ..) its
    dsimp only
    rw [unpin_eq at_c]
    split
    · exact freed_path at_c its n
    · refine nothing (lifeOf_put_same at_c ?_ n)
      rfl

theorem Runs.life (run : Runs e ds e') (sound : e.Sound) (n : CellId) :
    CellLife.Path n (e.heap.lifeOf n) ds (e'.heap.lifeOf n) := by
  induction run with
  | nil => exact .nil _
  | snoc run step ih => exact ih.append (step.life (run.sound sound) n)

theorem start_life (c : CellId) : (({} : Estate).heap).lifeOf c = .unborn := by
  simp [lifeOf, cell?]

/-! ## The last reference -/

/-- What becomes of a value when its last reference is taken off the count. One that was never given
out goes to the end of its queue, and stays there without references, marked and pinned; if there is
no such queue it is freed. One that was given out before is in no queue for it, and is freed unless
it is pinned. -/
structure LastReference (h : Heap) (v : Value) (c : CellId) (cell : Cell) : Prop where
  handed_off : cell.queued = false → ∀ s es, v.sink? = some s → h.queue? s = some es →
    (h.dropRef v c).1 = false ∧ (h.dropRef v c).2.queue? s = some (es ++ [⟨v, false⟩]) ∧
      ∃ cell', (h.dropRef v c).2.cell? c = some cell' ∧ cell'.value = cell.value ∧
        cell'.refs = 0 ∧ cell'.queued = true ∧ 0 < cell'.pins
  just_freed : cell.queued = false → (∀ s, v.sink? = some s → h.queue? s = none) →
    (h.dropRef v c).1 = true ∧ (h.dropRef v c).2.cell? c = none ∧
      (h.dropRef v c).2.queues = h.queues
  never_again : cell.queued = true → (h.dropRef v c).2.queues = h.queues ∧
    ((h.dropRef v c).1 = true ↔ cell.pins = 0)

theorem lastReference {h : Heap} {v : Value} {c : CellId} {cell : Cell}
    (at_c : h.cell? c = some cell) (last : cell.refs = 1)
    (unpinned : cell.queued = false → cell.pins = 0) : LastReference h v c cell := by
  have outcome := dropRef_dropsTo (v := v) at_c (by rw [last]; exact Nat.one_pos)
  constructor
  · intro fresh s es sink there
    generalize h.dropRef v c = after at outcome
    cases outcome with
    | fewer more => omega
    | handedOff _ _ t es' awaited =>
      obtain rfl : s = t := Option.some.inj (sink.symm.trans awaited.1)
      obtain rfl : es = es' := Option.some.inj (there.symm.trans awaited.2)
      refine ⟨rfl, ?_, { cell with refs := 0, queued := true, pins := cell.pins + 1 }, ?_, rfl, rfl,
        rfl, Nat.succ_pos _⟩
      · have queue : (h.put c
            { cell with refs := 0, queued := true, pins := cell.pins + 1 }).queue? s = some es :=
          there
        dsimp only
        rw [queue?_putQueue queue, if_pos rfl]
      · rw [cell?_putQueue, cell?_put at_c, if_pos rfl]
    | kept _ pinned => exact absurd (unpinned fresh) (Nat.ne_of_gt pinned)
    | freed _ _ settled =>
      rcases settled with claimed | unawaited
      · rw [fresh] at claimed
        cases claimed
      · exact absurd ⟨sink, there⟩ (unawaited s es)
  · intro fresh gone
    generalize h.dropRef v c = after at outcome
    cases outcome with
    | fewer more => omega
    | handedOff _ _ s es awaited => exact nomatch (gone s awaited.1).symm.trans awaited.2
    | kept _ pinned => exact absurd (unpinned fresh) (Nat.ne_of_gt pinned)
    | freed =>
      refine ⟨rfl, ?_, rfl⟩
      rw [cell?_erase at_c, if_pos rfl]
  · intro claimed
    generalize h.dropRef v c = after at outcome
    cases outcome with
    | fewer more => omega
    | handedOff _ unclaimed =>
      rw [claimed] at unclaimed
      cases unclaimed
    | kept _ pinned => exact ⟨rfl, nofun, fun none => absurd none (Nat.ne_of_gt pinned)⟩
    | freed _ none => exact ⟨rfl, fun _ => none, fun _ => rfl⟩

/-- Whatever owners do, in whatever order, a value is claimed or handed off at most once in its
life. Its mark says whether that has happened, and once it has, nothing that is done later gives it
out again. What is pinned or waits in a queue is there. What a reference on its way out refers to,
from an owner or out of a cell that was freed, is there as well, and if it is the last one the value
is handed off or freed as said above. -/
theorem given_out_once {seen : List Deal} {e : Estate} (run : Runs {} seen e) :
    (∀ c, seen.countP (·.gives c) ≤ 1) ∧
    (∀ c cell, e.heap.cell? c = some cell →
      (cell.queued = true ↔ seen.countP (·.gives c) = 1)) ∧
    (∀ c, 0 < seen.countP (·.gives c) → ∀ later e', Runs e later e' →
      later.countP (·.gives c) = 0) ∧
    (∀ v ∈ e.pin ++ e.heap.queued, ∃ c cell, v.cell? = some c ∧ e.heap.cell? c = some cell ∧
      cell.value = v) ∧
    ∀ v ∈ e.going, ∀ c, v.cell? = some c → ∃ cell, e.heap.cell? c = some cell ∧ cell.value = v ∧
      0 < cell.refs ∧ (cell.refs = 1 → LastReference e.heap v c cell) := by
  have sound := run.sound start_sound
  have life (c : CellId) : CellLife.Path c .unborn seen (e.heap.lifeOf c) :=
    start_life c ▸ run.life start_sound c
  refine ⟨fun c => (life c).left.1, fun c cell at_c => ?_, fun c given later e' further => ?_,
    fun v hv => ?_, fun v hv c its => ?_⟩
  · have left := (life c).left
    rw [lifeOf_of_cell at_c] at left
    have used := left.2 (by split <;> simp)
    cases queued : cell.queued with
    | true => simpa [queued, CellLife.left] using used
    | false =>
      rw [queued] at used
      simp only [Bool.false_eq_true, if_false, CellLife.left] at used
      simp only [Bool.false_eq_true, false_iff]
      omega
  · have left := (life c).left
    have none_left : (e.heap.lifeOf c).left = 0 := by
      by_cases gone : e.heap.lifeOf c = .gone
      · rw [gone, CellLife.left]
      · have used := left.2 gone
        simp only [CellLife.left] at used ⊢
        omega
    have later_left := (further.life sound c).left.1
    omega
  · obtain ⟨c, its⟩ := Value.cell?_of_isFinalizable (sound.kinds v hv)
    obtain ⟨cell, at_c, value, -⟩ := sound.weighed.toCounted.cell_of_held hv its
    exact ⟨c, cell, its, at_c, value⟩
  · obtain ⟨cell, at_c, value, pos⟩ :=
      sound.weighed.toCounted.cell_of_owned (List.mem_append_left _ hv) its
    refine ⟨cell, at_c, value, pos, fun last => lastReference at_c last fun fresh => ?_⟩
    exact sound.weighed.toCounted.unpinned at_c fresh

def revived : List Workspace.Op :=
  [.make "a" (.shape (.anon 7 ⟨0⟩)) true, .release "a", .take "p", .revive "p" "a"]

theorem revived_not_given_out_again :
    let w := Workspace.start.run revived
    let w' := w.run [.dropPin "p", .release "a"]
    ∃ seen later, Runs {} seen ⟨w.heap, w.owned, w.pinned, []⟩ ∧
      Runs ⟨w.heap, w.owned, w.pinned, []⟩ later ⟨w'.heap, w'.owned, w'.pinned, []⟩ ∧
      seen.countP (·.gives 0) = 1 ∧ later.countP (·.gives 0) = 0 ∧ w'.entries.isEmpty ∧
      (w'.heap.cell? 0).isNone := by
  intro w w'
  obtain ⟨seen, run⟩ := Workspace.operations_are_moves revived
  have fair := Workspace.operations_fair Workspace.start_sound.fair revived
  have further := Workspace.run_leads fair [.dropPin "p", .release "a"]
  simp only [Workspace.estate, List.append_nil] at further
  obtain ⟨later, onward⟩ := further (run.sound start_sound)
  have marked : (w.heap.cell? 0).map Cell.queued = some true := by decide
  obtain ⟨cell, at_0, queued⟩ := Option.map_eq_some_iff.1 marked
  obtain ⟨-, marks, never_again, -⟩ := given_out_once run
  have given := (marks 0 cell at_0).1 queued
  exact ⟨seen, later, run, onward, given, never_again 0 (by omega) later _ onward, by decide,
    by decide⟩

end Estate
end MooCore
