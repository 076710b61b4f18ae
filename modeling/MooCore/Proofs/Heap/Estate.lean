import MooCore.Proofs.Heap.Release
/-!
# Owners, one move at a time

A heap with all that is held of it outside: references, pins, and references that have been given
up and are yet to be taken off their counts. Whatever owners do, several of them at once or in turn,
is made of small moves, and what a move does to the counts and to the life of a cell is told here.
-/

set_option autoImplicit false
namespace MooCore

namespace Heap

def copyPin (h : Heap) (v : Value) : Heap :=
  h.modify v fun cell => { cell with pins := cell.pins + 1 }

end Heap

/-- What is seen of a move. -/
inductive Deal where
  | made (v : Value)
  /-- an owner gives up a reference -/
  | gaveUp (v : Value)
  /-- a reference is taken off the count of its value -/
  | dropped (v : Value)
  | claimed (v : Value)
  | handedOff (v : Value)
  | freed (v : Value)

namespace Deal

def makes (c : CellId) : Deal → Bool
  | made v => v.cell? = some c
  | _ => false

/-- Whether a value is given out for finalization. -/
def gives (c : CellId) : Deal → Bool
  | claimed v | handedOff v => v.cell? = some c
  | _ => false

def frees (c : CellId) : Deal → Bool
  | freed v => v.cell? = some c
  | _ => false

end Deal

structure Estate where
  heap : Heap := {}
  own : List Value := []
  pin : List Value := []
  going : List Value := []

namespace Heap

/-- What is seen when a reference is taken off its count, with what outcome: the value is freed, or
handed off if there is more in the queues than before. -/
def dropDeals (h : Heap) (v : Value) (outcome : Bool × Heap) : List Deal :=
  .dropped v ::
    if outcome.1 then [.freed v]
    else if h.queued.length < outcome.2.queued.length then [.handedOff v]
    else []

def unpinDeals (v : Value) (outcome : Bool × Heap) : List Deal :=
  if outcome.1 then [.freed v] else []

end Heap

namespace Estate
open Heap

def roots (e : Estate) : List Value := (e.going ++ e.own) ++ (e.pin ++ e.heap.queued)

/-- A move, and what is seen of it. A value is made of parts that are owned until then. Whoever sees
a value, by itself or inside another, may have a reference of his own; he may also claim it. A pin
gives new references and new pins, and may be put into a queue and taken from there. What falls out
of a cell that is freed is given up with it. -/
inductive Step : Estate → List Deal → Estate → Prop where
  | regroup {own own' pin pin' going going' : List Value} (h : Heap) (owned : own.Perm own')
      (pinned : pin.Perm pin') (on_the_way : going.Perm going') :
      Step ⟨h, own, pin, going⟩ [] ⟨h, own', pin', going'⟩
  | plain (h : Heap) (own pin going : List Value) (v : Value) (scalar : v.cell? = none) :
      Step ⟨h, own, pin, going⟩ [] ⟨h, v :: own, pin, going⟩
  | make (h : Heap) (own pin going : List Value) (make : CellId → Value)
      (named : (make h.cells.size).cell? = some h.cells.size) :
      Step ⟨h, (make h.cells.size).children ++ own, pin, going⟩ [.made (make h.cells.size)]
        ⟨(h.alloc make).2, (h.alloc make).1 :: own, pin, going⟩
  | share (h : Heap) (own pin going : List Value) (v : Value)
      (seen : v ∈ (own ++ h.inside) ++ (pin ++ h.queued)) :
      Step ⟨h, own, pin, going⟩ [] ⟨h.share v, v :: own, pin, going⟩
  | giveUp (h : Heap) (own pin going : List Value) (v : Value) :
      Step ⟨h, v :: own, pin, going⟩ [.gaveUp v] ⟨h, own, pin, v :: going⟩
  | vanish (h : Heap) (own pin going : List Value) (v : Value) (scalar : v.cell? = none) :
      Step ⟨h, own, pin, v :: going⟩ [.dropped v] ⟨h, own, pin, going⟩
  | drop (h : Heap) (own pin going : List Value) (v : Value) (c : CellId)
      (its : v.cell? = some c) :
      Step ⟨h, own, pin, v :: going⟩ (h.dropDeals v (h.dropRef v c))
        ⟨(h.dropRef v c).2, own, pin, spill (h.dropRef v c).1 v ++ going⟩
  | claim (h h' : Heap) (own pin going : List Value) (v : Value)
      (seen : v ∈ own ++ h.inside) (granted : h.claim v = .ok h') :
      Step ⟨h, own, pin, going⟩ [.claimed v] ⟨h', own, v :: pin, going⟩
  | copy (h : Heap) (own pin going : List Value) (v : Value) (seen : v ∈ pin ++ h.queued) :
      Step ⟨h, own, pin, going⟩ [] ⟨h.copyPin v, own, v :: pin, going⟩
  | unpin (h : Heap) (own pin going : List Value) (v : Value) (c : CellId)
      (its : v.cell? = some c) :
      Step ⟨h, own, v :: pin, going⟩ (unpinDeals v (h.unpin c))
        ⟨(h.unpin c).2, own, pin, spill (h.unpin c).1 v ++ going⟩
  | push (h : Heap) (own pin going : List Value) (s : SinkId) (es : List Entry) (e : Entry)
      (there : h.queue? s = some es) :
      Step ⟨h, own, e.value :: pin, going⟩ [] ⟨h.pushEntry s e, own, pin, going⟩
  | take (h : Heap) (own pin going : List Value) (s : SinkId) (before after : List Entry)
      (e : Entry) (there : h.queue? s = some (before ++ e :: after)) :
      Step ⟨h, own, pin, going⟩ []
        ⟨h.putQueue s (before ++ after), own, e.value :: pin, going⟩
  | mark (h : Heap) (own pin going : List Value) (s : SinkId) (es es' : List Entry)
      (there : h.queue? s = some es) (same : es'.map Entry.value = es.map Entry.value) :
      Step ⟨h, own, pin, going⟩ [] ⟨h.putQueue s es', own, pin, going⟩
  | openQueue (h : Heap) (own pin going : List Value) :
      Step ⟨h, own, pin, going⟩ [] ⟨h.newQueue.2, own, pin, going⟩
  | closeQueue (h : Heap) (own pin going : List Value) (s : SinkId) (es : List Entry)
      (there : h.queue? s = some es) :
      Step ⟨h, own, pin, going⟩ []
        ⟨h.closeQueue s, own, es.map Entry.value ++ pin, going⟩

/-- Moves one after another, and all that is seen. -/
inductive Runs : Estate → List Deal → Estate → Prop where
  | nil (e : Estate) : Runs e [] e
  | snoc {e e' e'' : Estate} {ds ds' : List Deal} (run : Runs e ds e') (step : Step e' ds' e'') :
      Runs e (ds ++ ds') e''

variable {e e' e'' : Estate} {ds ds' : List Deal}

theorem Step.runs (step : Step e ds e') : Runs e ds e' := .snoc (.nil e) step

theorem Runs.trans (first : Runs e ds e') (second : Runs e' ds' e'') : Runs e (ds ++ ds') e'' := by
  induction second with
  | nil => rwa [List.append_nil]
  | snoc _ step ih =>
    rw [← List.append_assoc]
    exact .snoc ih step

end Estate

/-! ## Balance -/

namespace Heap
variable {many : Prop} {h h' : Heap} {own pin : List Value} {v : Value} {c : CellId} {cell : Cell}
  {s : SinkId}

theorem copyPin_balanced (b : Weighed True h own pin) (hv : v ∈ pin ++ h.queued)
    (cv : v.cell? = some c) : Weighed True (h.copyPin v) own (v :: pin) := by
  obtain ⟨cell, at_c, rfl, queued, -⟩ := b.toCounted.cell_of_held hv cv
  rw [copyPin, modify_eq cv at_c]
  exact b.pinned at_c rfl rfl rfl queued (Or.inr trivial)

theorem newQueue_queued (h : Heap) : h.newQueue.2.queued = h.queued := by
  simp [newQueue, queued, entriesOf]

end Heap

/-! ## What one move does -/

namespace Heap
variable {many : Prop} {h h' : Heap} {own pin : List Value} {v : Value} {c : CellId} {cell : Cell}
  {s : SinkId}

def Awaited (h : Heap) (v : Value) (s : SinkId) (es : List Entry) : Prop :=
  v.sink? = some s ∧ h.queue? s = some es

/-- What becomes of a reference that is taken off its count. -/
inductive DropsTo (h : Heap) (v : Value) (c : CellId) (cell : Cell) : Bool × Heap → Prop where
  | fewer (more : 1 < cell.refs) (color : Color) :
      DropsTo h v c cell (false, h.put c { cell with refs := cell.refs - 1, color })
  | handedOff (last : cell.refs = 1) (unclaimed : cell.queued = false) (s : SinkId)
      (es : List Entry) (awaited : h.Awaited v s es) :
      DropsTo h v c cell (false,
        (h.put c { cell with refs := 0, queued := true, pins := cell.pins + 1 }).putQueue s
          (es ++ [⟨v, false⟩]))
  | kept (last : cell.refs = 1) (pinned : 0 < cell.pins)
      (settled : cell.queued = true ∨ ∀ s es, ¬ h.Awaited v s es) :
      DropsTo h v c cell (false, h.put c { cell with refs := 0 })
  | freed (last : cell.refs = 1) (unpinned : cell.pins = 0)
      (settled : cell.queued = true ∨ ∀ s es, ¬ h.Awaited v s es) :
      DropsTo h v c cell (true, h.erase c)

theorem handOff_cases (h : Heap) (v : Value) (c : CellId) (cell : Cell) :
    (cell.queued = false ∧ ∃ s es, h.Awaited v s es ∧ h.handOff v c cell =
      (h.put c { cell with queued := true, pins := cell.pins + 1 }).putQueue s
        (es ++ [⟨v, false⟩])) ∨
    ((cell.queued = true ∨ ∀ s es, ¬ h.Awaited v s es) ∧ h.handOff v c cell = h) := by
  unfold handOff
  cases sink : v.sink? with
  | none => exact Or.inr ⟨Or.inr fun s es awaited => (nomatch sink.symm.trans awaited.1), rfl⟩
  | some s =>
    cases there : h.queue? s with
    | none =>
      refine Or.inr ⟨Or.inr fun t es awaited => ?_, by simp only [there]⟩
      obtain rfl : s = t := Option.some.inj (sink.symm.trans awaited.1)
      exact nomatch there.symm.trans awaited.2
    | some es =>
      cases queued : cell.queued with
      | true => exact Or.inr ⟨Or.inl rfl, by simp [there]⟩
      | false => exact Or.inl ⟨rfl, s, es, ⟨sink, there⟩, by simp [there]⟩

theorem dropRef_dropsTo (hc : h.cell? c = some cell) (pos : 0 < cell.refs) :
    DropsTo h v c cell (h.dropRef v c) := by
  simp only [dropRef, hc]
  rw [if_neg (Nat.ne_of_gt pos)]
  by_cases last : cell.refs = 1
  · rw [if_pos last]
    have at_c : (h.put c { cell with refs := 0 }).cell? c = some { cell with refs := 0 } := by
      rw [cell?_put hc, if_pos rfl]
    rcases handOff_cases (h.put c { cell with refs := 0 }) v c { cell with refs := 0 } with
      ⟨unclaimed, s, es, awaited, eq⟩ | ⟨settled, eq⟩
    · rw [eq, put_put]
      simp only [reap, cell?_putQueue, cell?_put hc, if_pos]
      rw [if_neg fun idle => Nat.succ_ne_zero _ idle.2]
      exact .handedOff last unclaimed s es awaited
    · rw [eq]
      simp only [reap, at_c]
      by_cases unpinned : cell.pins = 0
      · rw [if_pos ⟨trivial, unpinned⟩, erase_put]
        exact .freed last unpinned settled
      · rw [if_neg fun idle => unpinned idle.2]
        exact .kept last (Nat.pos_of_ne_zero unpinned) settled
  · rw [if_neg last]
    exact .fewer (by omega) _

theorem modify_queues (h : Heap) (v : Value) (f : Cell → Cell) :
    (h.modify v f).queues = h.queues := by
  unfold modify
  split
  · unfold adjust
    split <;> rfl
  · rfl

theorem modify_queued (h : Heap) (v : Value) (f : Cell → Cell) :
    (h.modify v f).queued = h.queued := by
  rw [queued, modify_queues, queued]

theorem claim_queued (granted : h.claim v = .ok h') : h'.queued = h.queued := by
  unfold claim at granted
  split at granted
  · split at granted
    · cases granted
    · cases granted
      exact h.modify_queued v _
  · cases granted

theorem mem_queued_putQueue {old es : List Entry} {u : Value} (hs : h.queue? s = some old)
    (hu : u ∈ (h.putQueue s es).queued) : u ∈ es.map Entry.value ∨ u ∈ h.queued :=
  List.mem_append.1 ((queued_putQueue hs es).mem_iff.2 (List.mem_append_right _ hu))

theorem mem_queued_of_queue {es : List Entry} {u : Value} (hs : h.queue? s = some es)
    (hu : u ∈ es.map Entry.value) : u ∈ h.queued := by
  obtain ⟨e, he, rfl⟩ := List.mem_map.1 hu
  exact mem_queued hs he

end Heap

namespace Estate
open Heap
variable {e e' : Estate} {ds : List Deal}

/-- The counts are right, and only what has a finalizer is pinned. -/
structure Sound (e : Estate) : Prop where
  weighed : Weighed True e.heap (e.going ++ e.own) e.pin
  kinds : ∀ v ∈ e.pin ++ e.heap.queued, v.isFinalizable = true

theorem start_sound : Sound {} := by
  refine ⟨⟨⟨nofun, ?_, ?_, ?_, ?_, ?_, rfl⟩, ?_⟩, nofun⟩
  all_goals
    intro c cell hc
    simp [cell?] at hc

/-- Every move keeps the counts right. -/
theorem Step.sound (step : Step e ds e') (sound : e.Sound) : e'.Sound := by
  obtain ⟨b, kinds⟩ := sound
  cases step with
  | regroup h owned pinned on_the_way =>
    refine ⟨b.perm (on_the_way.append owned).symm pinned.symm, fun v hv => kinds v ?_⟩
    exact (pinned.append_right _).mem_iff.2 hv
  | plain h own pin going v scalar =>
    exact ⟨(b.plain scalar).perm List.perm_middle (.refl _), kinds⟩
  | make h own pin going make named =>
    have taken : (going ++ ((make h.cells.size).children ++ own)).Perm
        ((make h.cells.size).children ++ (going ++ own)) := List.perm_append_comm_assoc _ _ _
    exact ⟨(b.alloc named taken).perm List.perm_middle (.refl _), kinds⟩
  | share h own pin going v seen =>
    refine ⟨(share_balanced b ?_).perm List.perm_middle (.refl _), ?_⟩
    · simp only [List.mem_append] at seen ⊢
      tauto
    · rw [Heap.share, modify_queued]
      exact kinds
  | giveUp h own pin going v => exact ⟨b.perm List.perm_middle.symm (.refl _), kinds⟩
  | vanish h own pin going v scalar => exact ⟨b.vanish scalar, kinds⟩
  | drop h own pin going v c its =>
    have dropped : Weighed True _ (spill (h.dropRef v c).1 v ++ (going ++ own)) pin :=
      dropRef_balanced b its
    rw [← List.append_assoc] at dropped
    refine ⟨dropped, fun u hu => ?_⟩
    obtain ⟨cell, at_c, -, pos⟩ := b.toCounted.cell_of_owned (List.mem_cons_self ..) its
    have outcome := dropRef_dropsTo (v := v) at_c pos
    generalize h.dropRef v c = after at outcome hu
    cases outcome with
    | fewer | kept | freed => exact kinds u hu
    | handedOff last unclaimed s es awaited =>
      rcases List.mem_append.1 hu with held | queued
      · exact kinds u (List.mem_append_left _ held)
      · rcases mem_queued_putQueue awaited.2 queued with new | old
        · rw [List.map_append, List.mem_append] at new
          rcases new with old | new
          · exact kinds u (List.mem_append_right _ (mem_queued_of_queue awaited.2 old))
          · exact List.mem_singleton.1 new ▸ Value.isFinalizable_of_sink? awaited.1
        · exact kinds u (List.mem_append_right _ old)
  | claim h h' own pin going v seen granted =>
    have there : v ∈ ((going ++ own) ++ h.inside) ++ (pin ++ h.queued) := by
      simp only [List.mem_append] at seen ⊢
      tauto
    obtain ⟨c, cell, -, -, -, -, kind, -⟩ := claim_ok b there granted
    refine ⟨claim_balanced b there granted, fun u hu => ?_⟩
    rw [claim_queued granted] at hu
    rcases List.mem_cons.1 hu with rfl | old
    · exact kind
    · exact kinds u old
  | copy h own pin going v seen =>
    obtain ⟨c, its⟩ := Value.cell?_of_isFinalizable (kinds v seen)
    refine ⟨copyPin_balanced b seen its, fun u hu => ?_⟩
    rw [copyPin, modify_queued] at hu
    rcases List.mem_cons.1 hu with rfl | old
    · exact kinds _ seen
    · exact kinds u old
  | unpin h own pin going v c its =>
    have left := unpin_balanced b its
    rw [← List.append_assoc] at left
    obtain ⟨cell, at_c, -⟩ := b.toCounted.cell_of_held (List.mem_cons_self ..) its
    refine ⟨left, fun u hu => kinds u (List.mem_cons_of_mem _ ?_)⟩
    rw [unpin_eq at_c] at hu
    split at hu <;> exact hu
  | push h own pin going s es e there =>
    refine ⟨pushEntry_balanced b there, fun u hu => kinds u ?_⟩
    rw [pushEntry, entries_eq there] at hu
    rcases List.mem_append.1 hu with held | queued
    · exact List.mem_cons_of_mem _ (List.mem_append_left _ held)
    · rcases mem_queued_putQueue there queued with new | old
      · rw [List.map_append, List.mem_append] at new
        rcases new with old | new
        · exact List.mem_cons_of_mem _ (List.mem_append_right _ (mem_queued_of_queue there old))
        · exact List.mem_singleton.1 new ▸ List.mem_cons_self ..
      · exact List.mem_cons_of_mem _ (List.mem_append_right _ old)
  | take h own pin going s before after e there =>
    have moved : (e.value :: pin ++ (h.putQueue s (before ++ after)).queued).Perm
        (pin ++ h.queued) := by
      refine putQueue_moved there ?_
      simp only [List.map_append, List.map_cons]
      refine (List.perm_middle.symm.trans ?_ : (e.value :: (pin ++ _)).Perm _)
      exact List.perm_middle.symm.append_left pin
    exact ⟨b.requeue rfl rfl moved, fun u hu => kinds u (moved.mem_iff.1 hu)⟩
  | mark h own pin going s es es' there same =>
    have moved : (pin ++ (h.putQueue s es').queued).Perm (pin ++ h.queued) :=
      putQueue_moved there (same ▸ List.Perm.refl _)
    exact ⟨b.requeue rfl rfl moved, fun u hu => kinds u (moved.mem_iff.1 hu)⟩
  | openQueue h own pin going =>
    have moved : (pin ++ h.newQueue.2.queued).Perm (pin ++ h.queued) :=
      h.newQueue_queued ▸ List.Perm.refl _
    exact ⟨b.requeue rfl rfl moved, fun u hu => kinds u (moved.mem_iff.1 hu)⟩
  | closeQueue h own pin going s es there =>
    have moved := closeQueue_moved there pin
    exact ⟨b.requeue rfl rfl moved, fun u hu => kinds u (moved.mem_iff.1 hu)⟩

theorem Runs.sound (run : Runs e ds e') (sound : e.Sound) : e'.Sound := by
  induction run with
  | nil => exact sound
  | snoc _ step ih => exact step.sound ih

end Estate
end MooCore
