import MooCore.Proofs.Heap.Making
import MooCore.Proofs.Named
/-!
# What owners do to a workspace

The names of a workspace are its owners: slots hold references, pins hold pins. Every operation
that leaves the queue to the passes keeps the heap balanced for the owners, lets the queue grow
only by values that were never queued, and wakes nothing that is pinned from elsewhere.
-/

set_option autoImplicit false
namespace MooCore

namespace Workspace

open Heap

def owned (w : Workspace) : List Value := w.slots.map Prod.snd

def pinned (w : Workspace) : List Value := w.pins.map Prod.snd

/-- Operations that take nothing out of the queue. -/
def Op.LeavesQueue : Op → Prop
  | .take _ | .dropQueue => False
  | _ => True

def Present (w : Workspace) : Prop := ∀ s, w.queue = some s → ∃ es, w.heap.queue? s = some es

/-- A heap that is balanced for the owners under names, together with references and pins that are
held elsewhere. -/
structure Fair (w : Workspace) (own pin : List Value) : Prop where
  balanced : Balanced w.heap (w.owned ++ own) (w.pinned ++ pin)
  present : Present w

/-- A heap that is balanced for the owners under names, together with the references and pins that
a pass holds, and a queue that is there. -/
structure Sound (s : SinkId) (w : Workspace) (own pin : List Value) : Prop where
  balanced : Balanced w.heap (w.owned ++ own) (w.pinned ++ pin)
  queue : w.queue = some s
  alive : ∃ es, w.heap.queue? s = some es

def Held (pin : List Value) (c : CellId) : Prop := 0 < mentions c pin

variable {s : SinkId} {w w' : Workspace} {own pin : List Value} {still : CellId → Prop}

theorem alive_of_later {h h' : Heap} (later : Later still h h')
    (alive : ∃ es, h.queue? s = some es) : ∃ es, h'.queue? s = some es := by
  obtain ⟨es, hs⟩ := alive
  obtain ⟨new, hs', -⟩ := later.queues s es hs
  exact ⟨_, hs'⟩

theorem mem_owned_of_get? {name : String} {v : Value} (found : w.slots.get? name = some v) :
    v ∈ w.owned := mem_values_of_get? found

theorem mem_pinned_of_get? {name : String} {v : Value} (found : w.pins.get? name = some v) :
    v ∈ w.pinned := mem_values_of_get? found

theorem Present.later (present : Present w) (later : Later still w.heap w'.heap)
    (queue : w'.queue = w.queue) : Present w' :=
  fun s at_s => alive_of_later later (present s (queue ▸ at_s))

theorem Fair.sound (fair : Fair w own pin) (queue : w.queue = some s) : Sound s w own pin :=
  ⟨fair.balanced, queue, fair.present s queue⟩

theorem Sound.fair (sound : Sound s w own pin) : Fair w own pin := by
  refine ⟨sound.balanced, fun t at_t => ?_⟩
  obtain rfl : s = t := Option.some.inj (sound.queue.symm.trans at_t)
  exact sound.alive

/-! ## Names -/

theorem store_queue (v : Value) (name : String) : (w.store name v).queue = w.queue := by
  unfold store
  cases w.slots.get? name <;> rfl

theorem storePin_queue (v : Value) (name : String) : (w.storePin name v).queue = w.queue := by
  unfold storePin
  cases w.pins.get? name <;> rfl

theorem store_fair {v : Value} (b : Balanced w.heap (v :: (w.owned ++ own)) (w.pinned ++ pin))
    (present : Present w) (name : String) :
    Fair (w.store name v) own pin ∧ Later still w.heap (w.store name v).heap := by
  have moved := w.slots.set_values_perm name v
  unfold store
  cases found : w.slots.get? name with
  | none =>
    rw [found] at moved
    refine ⟨⟨b.perm ?_ (List.Perm.refl _), present⟩, Later.refl _⟩
    exact moved.append_right own
  | some old =>
    rw [found] at moved
    have later : Later still w.heap (w.heap.release old) := release_later _ _
    refine ⟨⟨release_balanced (b.perm ?_ (List.Perm.refl _)), present.later later rfl⟩, later⟩
    exact moved.append_right own

theorem store_sound {v : Value} (b : Balanced w.heap (v :: (w.owned ++ own)) (w.pinned ++ pin))
    (queue : w.queue = some s) (alive : ∃ es, w.heap.queue? s = some es) (name : String) :
    Sound s (w.store name v) own pin ∧ Later still w.heap (w.store name v).heap := by
  have present : Present w := fun t at_t => by
    obtain rfl : s = t := Option.some.inj (queue.symm.trans at_t)
    exact alive
  have stored : _ ∧ Later still _ _ := store_fair b present name
  exact ⟨stored.1.sound ((store_queue v name).trans queue), stored.2⟩

theorem storePin_fair {v : Value} (b : Balanced w.heap (w.owned ++ own) (v :: (w.pinned ++ pin)))
    (present : Present w) (name : String) :
    Fair (w.storePin name v) own pin ∧ Later still w.heap (w.storePin name v).heap := by
  have moved := w.pins.set_values_perm name v
  unfold storePin
  cases found : w.pins.get? name with
  | none =>
    rw [found] at moved
    refine ⟨⟨b.perm (List.Perm.refl _) ?_, present⟩, Later.refl _⟩
    exact moved.append_right pin
  | some old =>
    rw [found] at moved
    have later : Later still w.heap (w.heap.dropPin old) := dropPin_later _ _
    refine ⟨⟨dropPin_balanced (b.perm (List.Perm.refl _) ?_), present.later later rfl⟩, later⟩
    exact moved.append_right pin

/-! ## Operations -/

theorem make_fair (fair : Fair w own pin) (attached : Bool) (r : Recipe) :
    let (v, w') := w.make attached r
    Balanced w'.heap (v :: (w'.owned ++ own)) (w'.pinned ++ pin) ∧ Later still w.heap w'.heap :=
  make_yields w.slots (if attached then w.queue else none) fair.balanced
    (fun _ hv => List.mem_append_left _ hv) r

theorem discard_fair (fair : Fair w own pin) (r : Recipe) :
    Fair (w.discard r) own pin ∧ Later still w.heap (w.discard r).heap := by
  obtain ⟨b, later⟩ := @make_fair _ _ _ still fair true r
  have gone : Later still w.heap (w.discard r).heap := later.trans (release_later _ _)
  exact ⟨⟨release_balanced b, fair.present.later gone rfl⟩, gone⟩

theorem shared_fair (fair : Fair w own pin) {v : Value}
    (hv : v ∈ (w.owned ++ own) ++ w.heap.inside) (target : String) :
    let w' := { w with heap := w.heap.share v }.store target v
    Fair w' own pin ∧ Later still w.heap w'.heap := by
  have later : Later still w.heap (w.heap.share v) := by
    refine share_later fun c hc _ => ?_
    obtain ⟨cell, at_c, -⟩ := fair.balanced.present v (List.mem_append_left _ hv) c hc
    refine ⟨cell, at_c, ?_⟩
    rw [fair.balanced.refs c cell at_c]
    exact mentions_pos hv hc
  have shared := share_balanced fair.balanced (List.mem_append_left _ hv)
  have stored := @store_fair { w with heap := w.heap.share v } _ _ still _ shared
    (fair.present.later later rfl) target
  exact ⟨stored.1, later.trans stored.2⟩

theorem child?_mem {v u : Value} {i : Nat} (found : v.child? i = some u) : u ∈ v.children := by
  cases v with
  | list c xs => exact List.mem_of_getElem? found
  | map c kvs =>
    obtain ⟨kv, hkv, rfl⟩ := Option.map_eq_some_iff.1 found
    exact List.mem_flatMap.2 ⟨kv, List.mem_of_getElem? hkv, by simp⟩
  | waif c s id cls owner ps => exact List.mem_of_getElem? found
  | none | int _ | float _ | obj _ | err _ | str _ _ | anon _ _ _ _ => cases found

theorem child_mem_inside (fair : Fair w own pin) {v u : Value} {name : String} {i : Nat}
    (found : w.slots.get? name = some v) (child : v.child? i = some u) : u ∈ w.heap.inside := by
  have hv : v ∈ w.owned ++ own := List.mem_append_left _ (mem_owned_of_get? found)
  cases hc : v.cell? with
  | none =>
    have inner := child?_mem child
    rw [Value.children_eq_nil hc] at inner
    cases inner
  | some c =>
    obtain ⟨cell, at_c, rfl, -⟩ := fair.balanced.toCounted.cell_of_owned hv hc
    exact mem_inside_of_child at_c (child?_mem child)

theorem not_held_of_pinned (fair : Fair w own pin) {v : Value} {c : CellId}
    (hv : v ∈ w.pinned) (hc : v.cell? = some c) : ¬ Held pin c := by
  intro held
  have le := fair.balanced.toCounted.mentions_pin_le c
  have pos := mentions_pos hv hc
  rw [mentions_append, mentions_append] at le
  unfold Held at held
  omega

theorem revived_fair (fair : Fair w own pin) {v : Value} (hv : v ∈ w.pinned) (slot : String) :
    let w' := { w with heap := w.heap.share v }.store slot v
    Fair w' own pin ∧ Later (Held pin) w.heap w'.heap := by
  have later : Later (Held pin) w.heap (w.heap.share v) :=
    share_later fun c hc held => absurd held (not_held_of_pinned fair hv hc)
  have shared := share_balanced fair.balanced (v := v) (by simp [hv])
  have stored := @store_fair { w with heap := w.heap.share v } _ _ (Held pin) _ shared
    (fair.present.later later rfl) slot
  exact ⟨stored.1, later.trans stored.2⟩

theorem release_fair (fair : Fair w own pin) (slot : String) :
    Fair (w.release slot).2 own pin ∧ Later still w.heap (w.release slot).2.heap := by
  unfold release
  split
  · rename_i v found
    have later : Later still w.heap (w.heap.release v) := release_later _ _
    refine ⟨⟨release_balanced (fair.balanced.perm ?_ (List.Perm.refl _)),
      fair.present.later later rfl⟩, later⟩
    exact (Named.erase_values_perm found).append_right own
  · exact ⟨fair, Later.refl _⟩

theorem dropPin_fair (fair : Fair w own pin) (name : String) :
    Fair (w.dropPin name).2 own pin ∧ Later still w.heap (w.dropPin name).2.heap := by
  unfold dropPin
  split
  · rename_i v found
    have later : Later still w.heap (w.heap.dropPin v) := dropPin_later _ _
    refine ⟨⟨dropPin_balanced (fair.balanced.perm (List.Perm.refl _) ?_),
      fair.present.later later rfl⟩, later⟩
    exact (Named.erase_values_perm found).append_right pin
  · exact ⟨fair, Later.refl _⟩

theorem claim_fair (fair : Fair w own pin) (slot name : String) :
    Fair (w.claim slot name).2 own pin ∧ Later still w.heap (w.claim slot name).2.heap := by
  unfold claim
  split
  · exact ⟨fair, Later.refl _⟩
  · rename_i v found
    have hv : v ∈ ((w.owned ++ own) ++ w.heap.inside) ++ ((w.pinned ++ pin) ++ w.heap.queued) := by
      simp [mem_owned_of_get? found]
    split
    · rename_i heap granted
      have later : Later still w.heap heap := claim_later fair.balanced hv granted
      have stored := @storePin_fair { w with heap } _ _ still _
        (claim_balanced fair.balanced hv granted) (fair.present.later later rfl) name
      exact ⟨stored.1, later.trans stored.2⟩
    · exact ⟨fair, Later.refl _⟩

theorem enqueue_fair (fair : Fair w own pin) (slot : String) :
    Fair (w.enqueue slot).2 own pin ∧ Later still w.heap (w.enqueue slot).2.heap := by
  unfold enqueue
  split
  · rename_i v s found queue
    obtain ⟨es, hs⟩ := fair.present s queue
    split
    · rename_i heap granted
      have queued : _ ∧ Later still _ _ := enqueue_ok fair.balanced
        (v := v) (by simp [mem_owned_of_get? found]) hs granted
      exact ⟨⟨queued.1, fair.present.later queued.2 rfl⟩, queued.2⟩
    · exact ⟨fair, Later.refl _⟩
  · exact ⟨fair, Later.refl _⟩

/-- One operation of an owner. -/
theorem apply_fair (fair : Fair w own pin) {op : Op} (leaves : op.LeavesQueue) :
    Fair (w.apply op).2 own pin ∧ Later (Held pin) w.heap (w.apply op).2.heap := by
  cases op with
  | make slot r attached =>
    obtain ⟨b, later⟩ := @make_fair _ _ _ (Held pin) fair attached r
    have stored : _ ∧ Later (Held pin) _ _ := store_fair b (fair.present.later later rfl) slot
    exact ⟨stored.1, later.trans stored.2⟩
  | discard r => exact discard_fair fair r
  | share source target =>
    simp only [apply, share]
    split
    · rename_i v found
      exact shared_fair fair (by simp [mem_owned_of_get? found]) target
    · exact ⟨fair, Later.refl _⟩
  | release slot => exact release_fair fair slot
  | child slot place target =>
    simp only [apply, child]
    split
    · rename_i u found
      obtain ⟨v, hv, hu⟩ := Option.bind_eq_some_iff.1 found
      exact shared_fair fair (List.mem_append_right _ (child_mem_inside fair hv hu)) target
    · exact ⟨fair, Later.refl _⟩
  | claim slot name => exact claim_fair fair slot name
  | enqueue slot => exact enqueue_fair fair slot
  | take _ => exact leaves.elim
  | revive name slot =>
    simp only [apply, revive]
    split
    · rename_i v found
      exact revived_fair fair (mem_pinned_of_get? found) slot
    · exact ⟨fair, Later.refl _⟩
  | dropPin name => exact dropPin_fair fair name
  | dropQueue => exact leaves.elim

theorem apply_queue {op : Op} (leaves : op.LeavesQueue) : (w.apply op).2.queue = w.queue := by
  cases op with
  | make slot r attached => exact store_queue _ _
  | discard r => rfl
  | share source target =>
    simp only [apply, share]
    split
    · exact store_queue _ _
    · rfl
  | release slot =>
    simp only [apply, release]
    split <;> rfl
  | child slot place target =>
    simp only [apply, child]
    split
    · exact store_queue _ _
    · rfl
  | claim slot name =>
    simp only [apply, claim]
    split
    · rfl
    · split
      · exact storePin_queue _ _
      · rfl
  | enqueue slot =>
    simp only [apply, enqueue]
    split
    · split <;> rfl
    · rfl
  | take _ => exact leaves.elim
  | revive name slot =>
    simp only [apply, revive]
    split
    · exact store_queue _ _
    · rfl
  | dropPin name =>
    simp only [apply, dropPin]
    split <;> rfl
  | dropQueue => exact leaves.elim

theorem apply_sound (sound : Sound s w own pin) {op : Op} (leaves : op.LeavesQueue) :
    Sound s (w.apply op).2 own pin ∧ Later (Held pin) w.heap (w.apply op).2.heap := by
  obtain ⟨fair, later⟩ := apply_fair sound.fair leaves
  exact ⟨fair.sound ((apply_queue leaves).trans sound.queue), later⟩

theorem run_sound {ops : List Op} (leave : ∀ op ∈ ops, op.LeavesQueue)
    (sound : Sound s w own pin) :
    Sound s (w.run ops) own pin ∧ Later (Held pin) w.heap (w.run ops).heap := by
  induction ops generalizing w with
  | nil => exact ⟨sound, Later.refl _⟩
  | cons op ops ih =>
    have first := apply_sound sound (leave op (by simp))
    have rest := ih (fun o ho => leave o (List.mem_cons_of_mem _ ho)) first.1
    exact ⟨rest.1, first.2.trans rest.2⟩

theorem start_sound : Sound 0 start [] [] := by
  refine ⟨⟨⟨?_, ?_, ?_, ?_, ?_, ?_, rfl⟩, ?_⟩, rfl, ⟨[], rfl⟩⟩
  · intro v hv
    simp [owned, pinned, start, newQueue, inside, contents, queued, entriesOf] at hv
  all_goals
    intro c cell hc
    simp [start, newQueue, cell?] at hc

end Workspace
end MooCore
