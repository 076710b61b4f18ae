import MooCore.Proofs.Heap.Estate
import MooCore.Proofs.Heap.References
/-!
# Operations are moves

Making, releasing, claiming and unpinning, and with them every operation on a workspace, is a run of
moves at whose end nothing is on its way. So what is proved of all runs of moves holds between any
two operations.
-/

set_option autoImplicit false
namespace MooCore

namespace Estate
open Heap

def Leads (e e' : Estate) : Prop := e.Sound → ∃ ds, Runs e ds e'

variable {e e' e'' : Estate} {ds : List Deal}

theorem Leads.refl (e : Estate) : Leads e e := fun _ => ⟨[], .nil e⟩

theorem Step.leads (step : Step e ds e') : Leads e e' := fun _ => ⟨ds, step.runs⟩

theorem Leads.trans (first : Leads e e') (second : Leads e' e'') : Leads e e'' := fun sound => by
  obtain ⟨ds, run⟩ := first sound
  obtain ⟨ds', further⟩ := second (run.sound sound)
  exact ⟨ds ++ ds', run.trans further⟩

variable {h h' : Heap} {own own' pin pin' going : List Value} {v : Value} {s : SinkId}

theorem regroup_leads (h : Heap) (owned : own.Perm own') (pinned : pin.Perm pin') :
    Leads ⟨h, own, pin, going⟩ ⟨h, own', pin', going⟩ :=
  (Step.regroup h owned pinned (.refl going)).leads

/-! ## Letting go -/

theorem falls_leads {vs : List Value} (falls : Falls h vs h') :
    Leads ⟨h, own, pin, vs ++ going⟩ ⟨h', own, pin, going⟩ := by
  induction falls with
  | done h => exact .refl _
  | scalar scalar _ ih => exact (Step.vanish _ own pin _ _ scalar).leads.trans ih
  | drop its _ ih =>
    rw [List.append_assoc] at ih
    exact (Step.drop _ own pin _ _ _ its).leads.trans ih

theorem release_leads (h : Heap) (own : List Value) (v : Value) :
    Leads ⟨h, v :: own, pin, going⟩ ⟨h.release v, own, pin, going⟩ :=
  (Step.giveUp h own pin going v).leads.trans (falls_leads (release_falls h v))

theorem crafts_leads (pin going : List Value) :
    Crafts fun h own h' own' => Leads ⟨h, own, pin, going⟩ ⟨h', own', pin, going⟩ where
  refl _ _ := .refl _
  trans first second := first.trans second
  regroup h _ _ same := regroup_leads h same (.refl pin)
  plain h own v scalar := (Step.plain h own pin going v scalar).leads
  alloc h own make named := (Step.make h own pin going make named).leads
  share h own v held :=
    (Step.share h own pin going v (List.mem_append_left _ (List.mem_append_left _ held))).leads
  release h own v := release_leads h own v

theorem dropPin_leads (h : Heap) (pin : List Value) (v : Value) :
    Leads ⟨h, own, v :: pin, going⟩ ⟨h.dropPin v, own, pin, going⟩ := fun sound => by
  obtain ⟨c, its⟩ := Value.cell?_of_isFinalizable (sound.kinds v (List.mem_cons_self ..))
  rw [dropPin_eq h its]
  exact (Step.unpin h own pin going v c its).leads.trans (falls_leads (releaseAll_falls _ _)) sound

theorem dropPins_leads (h : Heap) (vs pin : List Value) :
    Leads ⟨h, own, vs ++ pin, going⟩ ⟨h.dropPins vs, own, pin, going⟩ := by
  induction vs generalizing h with
  | nil => exact .refl _
  | cons v vs ih => exact (dropPin_leads h (vs ++ pin) v).trans (ih _)

theorem dropQueue_leads {es : List Entry} (there : h.queue? s = some es) :
    Leads ⟨h, own, pin, going⟩ ⟨h.dropQueue s, own, pin, going⟩ := by
  rw [dropQueue, entries_eq there]
  exact (Step.closeQueue h own pin going s es there).leads.trans (dropPins_leads _ _ pin)

/-! ## Claims -/

theorem claim_queue? (granted : h.claim v = .ok h') (s : SinkId) : h'.queue? s = h.queue? s := by
  unfold claim at granted
  split at granted
  · split at granted
    · cases granted
    · cases granted
      rw [queue?, modify_queues, queue?]
  · cases granted

theorem enqueue_leads {es : List Entry} (seen : v ∈ own ++ h.inside)
    (there : h.queue? s = some es) (granted : h.enqueue s v = .ok h') :
    Leads ⟨h, own, pin, going⟩ ⟨h', own, pin, going⟩ := by
  unfold enqueue at granted
  cases claimed : h.claim v with
  | error e =>
    rw [claimed] at granted
    cases granted
  | ok mid =>
    rw [claimed] at granted
    cases granted
    have queue : mid.queue? s = some es := (claim_queue? claimed s).trans there
    exact (Step.claim h mid own pin going v seen claimed).leads.trans
      (Step.push mid own pin going s es ⟨v, false⟩ queue).leads

end Estate

/-! ## A workspace -/

namespace Workspace
open Heap Estate

def estate (w : Workspace) (own pin : List Value) : Estate :=
  ⟨w.heap, w.owned ++ own, w.pinned ++ pin, []⟩

variable {w : Workspace} {own pin : List Value} {v : Value} {s : SinkId}

theorem store_leads (w : Workspace) (v : Value) (own pin : List Value) (name : String) :
    Leads ⟨w.heap, v :: (w.owned ++ own), w.pinned ++ pin, []⟩
      ((w.store name v).estate own pin) := by
  have moved := (w.slots.set_values_perm name v).symm
  unfold store
  cases found : w.slots.get? name with
  | none =>
    rw [found] at moved
    exact regroup_leads _ (moved.append_right own) (.refl _)
  | some old =>
    rw [found] at moved
    exact (regroup_leads _ (moved.append_right own) (.refl _)).trans (release_leads _ _ old)

theorem storePin_leads (w : Workspace) (v : Value) (own pin : List Value) (name : String) :
    Leads ⟨w.heap, w.owned ++ own, v :: (w.pinned ++ pin), []⟩
      ((w.storePin name v).estate own pin) := by
  have moved := (w.pins.set_values_perm name v).symm
  unfold storePin
  cases found : w.pins.get? name with
  | none =>
    rw [found] at moved
    exact regroup_leads _ (.refl _) (moved.append_right pin)
  | some old =>
    rw [found] at moved
    exact (regroup_leads _ (.refl _) (moved.append_right pin)).trans (dropPin_leads _ _ old)

theorem make_leads (w : Workspace) (own pin : List Value) (attached : Bool) (r : Recipe) :
    Leads (w.estate own pin) ⟨(w.make attached r).2.heap, (w.make attached r).1 :: (w.owned ++ own),
      w.pinned ++ pin, []⟩ :=
  (crafts_leads _ _).make w.slots (if attached then w.queue else none) w.heap
    (fun _ held => List.mem_append_left _ held) r

theorem shared_leads (seen : v ∈ ((w.owned ++ own) ++ w.heap.inside) ++
      ((w.pinned ++ pin) ++ w.heap.queued)) (target : String) :
    Leads (w.estate own pin)
      (({ w with heap := w.heap.share v }.store target v).estate own pin) :=
  (Step.share w.heap (w.owned ++ own) (w.pinned ++ pin) [] v seen).leads.trans
    (store_leads { w with heap := w.heap.share v } v own pin target)

theorem release_leads (w : Workspace) (own pin : List Value) (slot : String) :
    Leads (w.estate own pin) ((w.release slot).2.estate own pin) := by
  unfold release
  split
  · rename_i v found
    have moved := (Named.erase_values_perm found).symm
    exact (regroup_leads _ (moved.append_right own) (.refl _)).trans
      (Estate.release_leads _ _ v)
  · exact .refl _

theorem dropPin_leads (w : Workspace) (own pin : List Value) (name : String) :
    Leads (w.estate own pin) ((w.dropPin name).2.estate own pin) := by
  unfold dropPin
  split
  · rename_i v found
    have moved := (Named.erase_values_perm found).symm
    exact (regroup_leads _ (.refl _) (moved.append_right pin)).trans
      (Estate.dropPin_leads _ _ v)
  · exact .refl _

theorem claim_leads (w : Workspace) (own pin : List Value) (slot name : String) :
    Leads (w.estate own pin) ((w.claim slot name).2.estate own pin) := by
  unfold claim
  split
  · exact .refl _
  · rename_i v found
    have seen : v ∈ (w.owned ++ own) ++ w.heap.inside := by simp [mem_owned_of_get? found]
    split
    · rename_i heap granted
      exact (Step.claim w.heap heap _ _ _ v seen granted).leads.trans
        (storePin_leads { w with heap } v own pin name)
    · exact .refl _

theorem enqueue_leads (fair : Fair w own pin) (slot : String) :
    Leads (w.estate own pin) ((w.enqueue slot).2.estate own pin) := by
  unfold enqueue
  split
  · rename_i v s found queue
    obtain ⟨es, there⟩ := fair.present s queue
    split
    · rename_i heap granted
      exact Estate.enqueue_leads (by simp [mem_owned_of_get? found]) there granted
    · exact .refl _
  · exact .refl _

theorem take_leads (fair : Fair w own pin) (name : String) :
    Leads (w.estate own pin) ((w.take name).2.estate own pin) := by
  unfold take
  split
  · exact .refl _
  · rename_i s queue
    obtain ⟨old, there⟩ := fair.present s queue
    split
    · exact .refl _
    · rename_i e es found
      obtain rfl : old = [] ++ e :: es := by rw [← entries_eq there, found, List.nil_append]
      exact (Step.take w.heap _ _ [] s [] es e there).leads.trans
        (storePin_leads { w with heap := w.heap.putQueue s es } e.value own pin name)

theorem dropQueue_leads (fair : Fair w own pin) :
    Leads (w.estate own pin) (w.dropQueue.2.estate own pin) := by
  unfold dropQueue
  cases queue : w.queue with
  | none => exact .refl _
  | some s =>
    obtain ⟨es, there⟩ := fair.present s queue
    exact Estate.dropQueue_leads there

/-- An operation of an owner is a run of moves. -/
theorem apply_leads (fair : Fair w own pin) (op : Op) :
    Leads (w.estate own pin) ((w.apply op).2.estate own pin) := by
  cases op with
  | make slot r attached =>
    exact (make_leads w own pin attached r).trans (store_leads (w.make attached r).2 _ own pin slot)
  | discard r =>
    exact (make_leads w own pin true r).trans (Estate.release_leads _ _ (w.make true r).1)
  | share source target =>
    simp only [apply, share]
    split
    · rename_i v found
      exact shared_leads (by simp [mem_owned_of_get? found]) target
    · exact .refl _
  | release slot => exact release_leads w own pin slot
  | child slot place target =>
    simp only [apply, child]
    split
    · rename_i u found
      obtain ⟨v, hv, hu⟩ := Option.bind_eq_some_iff.1 found
      have inner := child_mem_inside fair hv hu
      exact shared_leads (List.mem_append_left _ (List.mem_append_right _ inner)) target
    · exact .refl _
  | claim slot name => exact claim_leads w own pin slot name
  | enqueue slot => exact enqueue_leads fair slot
  | take name => exact take_leads fair name
  | revive name slot =>
    simp only [apply, revive]
    split
    · rename_i v found
      exact shared_leads (by simp [mem_pinned_of_get? found]) slot
    · exact .refl _
  | dropPin name => exact dropPin_leads w own pin name
  | dropQueue => exact dropQueue_leads fair

theorem run_leads (fair : Fair w own pin) (ops : List Op) :
    Leads (w.estate own pin) ((w.run ops).estate own pin) := by
  induction ops generalizing w with
  | nil => exact .refl _
  | cons op ops ih => exact (apply_leads fair op).trans (ih (operation_fair fair op))

theorem operations_are_moves (ops : List Op) :
    let w := start.run ops
    ∃ seen, Runs {} seen ⟨w.heap, w.owned, w.pinned, []⟩ := by
  intro w
  have opened : Leads {} (start.estate [] []) := (Step.openQueue {} [] [] []).leads
  have run := opened.trans (run_leads start_sound.fair ops)
  rw [estate, List.append_nil, List.append_nil] at run
  exact run Estate.start_sound

end Workspace
end MooCore
