import MooCore.Proofs.Finalization.Owners
/-!
# Counts are references

Whatever owners do to a workspace, its queue included, the count of every cell is the number of
references to it: those that stand under a name and those that stand inside a cell. Pins and
queues hold none. So whoever gives up a reference finds it there.
-/

set_option autoImplicit false
namespace MooCore

namespace Heap

variable {h : Heap} {own pin : List Value} {s : SinkId}

theorem dropPins_balanced {vs : List Value} (b : Balanced h own (vs ++ pin)) :
    Balanced (h.dropPins vs) own pin := by
  induction vs generalizing h with
  | nil => exact b
  | cons v vs ih => exact ih (dropPin_balanced b)

theorem dropQueue_balanced {es : List Entry} (b : Balanced h own pin)
    (hs : h.queue? s = some es) : Balanced (h.dropQueue s) own pin := by
  have fallen : Balanced (h.closeQueue s) own (es.map Entry.value ++ pin) :=
    b.requeue rfl rfl (closeQueue_moved hs pin)
  rw [dropQueue, entries_eq hs]
  exact dropPins_balanced fallen

end Heap

namespace Workspace

open Heap

variable {w : Workspace} {own pin : List Value}

theorem take_fair (fair : Fair w own pin) (name : String) : Fair (w.take name).2 own pin := by
  unfold take
  split
  · exact fair
  · rename_i s queue
    obtain ⟨old, hs⟩ := fair.present s queue
    split
    · exact fair
    · rename_i e es found
      obtain rfl : old = e :: es := by rw [← entries_eq hs, found]
      have moved : (e.value :: (w.pinned ++ pin) ++ es.map Entry.value).Perm
          (w.pinned ++ pin ++ (e :: es).map Entry.value) := List.perm_middle.symm
      have pinned : Balanced (w.heap.putQueue s es) (w.owned ++ own)
          (e.value :: (w.pinned ++ pin)) := fair.balanced.requeue rfl rfl (putQueue_moved hs moved)
      have present : Present { w with heap := w.heap.putQueue s es } := fun t at_t => by
        rw [queue?_putQueue hs]
        split
        · exact ⟨es, rfl⟩
        · exact fair.present t at_t
      have stored : _ ∧ Later (fun _ => False) _ _ := storePin_fair pinned present name
      exact stored.1

theorem dropQueue_fair (fair : Fair w own pin) : Fair w.dropQueue.2 own pin := by
  unfold dropQueue
  cases queue : w.queue with
  | none => exact fair
  | some s =>
    obtain ⟨es, hs⟩ := fair.present s queue
    exact ⟨dropQueue_balanced fair.balanced hs, nofun⟩

theorem operation_fair (fair : Fair w own pin) (op : Op) : Fair (w.apply op).2 own pin := by
  cases op with
  | take name => exact take_fair fair name
  | dropQueue => exact dropQueue_fair fair
  | make _ _ _ | discard _ | share _ _ | release _ | child _ _ _ | claim _ _ | enqueue _
  | revive _ _ | dropPin _ => exact (apply_fair fair (by trivial)).1

theorem operations_fair (fair : Fair w own pin) (ops : List Op) : Fair (w.run ops) own pin := by
  induction ops generalizing w with
  | nil => exact fair
  | cons op ops ih => exact ih (operation_fair fair op)

/-- After any operations the count of every cell is the number of references to it, one for each
name that stands for it and one for each time that it stands inside a cell; whatever is referred to
is there, as it is referred to; and no reference was ever given up that was not there. -/
theorem counts_are_references (ops : List Op) :
    let w := start.run ops
    (∀ c cell, w.heap.cell? c = some cell →
      cell.refs = mentions c w.owned + mentions c w.heap.inside) ∧
    (∀ v ∈ w.owned ++ w.heap.inside, ∀ c, v.cell? = some c →
      ∃ cell, w.heap.cell? c = some cell ∧ cell.value = v) ∧
    w.heap.overdrawn = 0 := by
  intro w
  have balanced : Balanced w.heap (w.owned ++ []) (w.pinned ++ []) :=
    (operations_fair start_sound.fair ops).balanced
  rw [List.append_nil, List.append_nil] at balanced
  refine ⟨fun c cell at_c => ?_, fun v hv => ?_, balanced.solvent⟩
  · rw [balanced.refs c cell at_c, mentions_append]
  · exact balanced.present v (List.mem_append_left _ hv)

/-- A value under a name, twice in a list and once in a waif that only a pin keeps. -/
example :
    let w := start.run [.make "v" (.shape (.str "v")) true,
      .make "l" (.list [.named "v", .named "v"]) true,
      .make "w" (.waif 1 ⟨0⟩ ⟨0⟩ [.named "v"]) true, .release "w", .take "p"]
    w.heap.cells.toList.filterMap (·.map Cell.refs) = [4, 1, 0] := by
  decide

end Workspace
end MooCore
