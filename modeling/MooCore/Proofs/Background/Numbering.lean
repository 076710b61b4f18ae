import MooCore.Proofs.Named
import MooCore.Background.Gateway
/-!
# Handles that do not collide

As long as fewer waiters are registered in a row than there are handles, the handles in the table
are different and the next one is none of them.
-/

set_option autoImplicit false
namespace MooCore.Background.Gateway

/-- One less than there are handles in all. -/
def handleLimit : Nat := 0xffffffff

/-- The handles in the table are different and counted by the streak. -/
structure Numbered (g : Gateway) : Prop where
  distinct : g.handles.Nodup
  counted : g.waiters ≠ [] → g.next.toNat = g.streak + 1 ∧ ∀ h ∈ g.handles, h.toNat ≤ g.streak
  recorded : g.streak ≤ g.longest

variable {g g' : Gateway} {w : Waiter} {h : Handle} {n : Nat} {task : TaskId}

theorem mem_handles (hw : w ∈ g.waiters) : w.handle ∈ g.handles := List.mem_map_of_mem hw

theorem Numbered.of_sublist (numbered : Numbered g) (fewer : g'.handles.Sublist g.handles)
    (next : g'.next = g.next) (streak : g'.streak = g.streak) (longest : g'.longest = g.longest) :
    Numbered g' := by
  refine ⟨numbered.distinct.sublist fewer, fun some_left => ?_, ?_⟩
  · have some_before : g.waiters ≠ [] := by
      intro none_before
      have none_left : g'.handles = [] := by
        rw [show g.handles = [] by rw [handles, none_before, List.map_nil]] at fewer
        exact List.sublist_nil.1 fewer
      exact some_left (List.map_eq_nil_iff.1 none_left)
    obtain ⟨next', bound⟩ := numbered.counted some_before
    rw [next, streak]
    exact ⟨next', fun h hh => bound h (fewer.subset hh)⟩
  · rw [streak, longest]
    exact numbered.recorded

theorem Numbered.fresh_unused (numbered : Numbered g) : g.fresh ∉ g.handles := by
  intro used
  have some_there : g.waiters ≠ [] := by
    intro none_there
    rw [handles, none_there] at used
    cases used
  obtain ⟨next, bound⟩ := numbered.counted some_there
  have le := bound _ used
  rw [fresh, if_neg (by simpa using some_there), next] at le
  omega

theorem waiter?_isSome (used : (g.waiter? h).isSome = true) : h ∈ g.handles := by
  obtain ⟨w, found⟩ := Option.isSome_iff_exists.1 used
  have same : w.handle = h := by simpa using List.find?_some found
  exact same ▸ mem_handles (List.mem_of_find?_eq_some found)

theorem waiter?_of_mem (distinct : g.handles.Nodup) (hw : w ∈ g.waiters) :
    g.waiter? w.handle = some w := Named.find?_of_nodup distinct hw

theorem isActive_of_mem (distinct : g.handles.Nodup) (hw : w ∈ g.waiters) :
    g.isActive w.handle = w.active := by
  rw [isActive, waiter?_of_mem distinct hw, Option.all_some]

/-! ## Registering -/

theorem register_unused (unused : g.fresh ∉ g.handles) (now : Instant) (n : Nat) (task : TaskId)
    (title : String) :
    (g.register now n task title).2.waiters =
      g.waiters ++ [{ handle := g.fresh, request := n, task, title, started := now }] := by
  have nobody : (g.waiter? g.fresh).isSome = false := by
    rw [Bool.eq_false_iff]
    exact fun used => unused (waiter?_isSome used)
  simp only [register, nobody, Bool.false_eq_true, if_false]

theorem Numbered.register_waiters (numbered : Numbered g) (now : Instant) (n : Nat)
    (task : TaskId) (title : String) :
    (g.register now n task title).2.waiters =
      g.waiters ++ [{ handle := g.fresh, request := n, task, title, started := now }] :=
  register_unused numbered.fresh_unused now n task title

theorem register_longest (g : Gateway) (now : Instant) (n : Nat) (task : TaskId) (title : String) :
    g.longest ≤ (g.register now n task title).2.longest := Nat.le_max_left _ _

theorem successor_toNat (room : h.toNat + 1 < 0x100000000) : (successor h).toNat = h.toNat + 1 := by
  have value : (h + 1).toNat = h.toNat + 1 := by
    rw [UInt32.toNat_add]
    exact Nat.mod_eq_of_lt room
  have ne : h + 1 ≠ 0 := by
    intro zero
    rw [zero] at value
    exact absurd value (by simp)
  rw [successor, if_neg ne, value]

theorem Numbered.register (numbered : Numbered g) (now : Instant) (n : Nat) (task : TaskId)
    (title : String) (few : (g.register now n task title).2.longest < handleLimit) :
    Numbered (g.register now n task title).2 := by
  have waiters := numbered.register_waiters now n task title
  have handles' : (g.register now n task title).2.handles = g.handles ++ [g.fresh] := by
    simp only [handles, waiters, List.map_append, List.map_cons, List.map_nil]
  have streak_le : (g.register now n task title).2.streak ≤
      (g.register now n task title).2.longest := Nat.le_max_right _ _
  have given : g.fresh.toNat = (g.register now n task title).2.streak := by
    by_cases empty : g.waiters = []
    · simp [fresh, Gateway.register, empty]
    · have next := (numbered.counted empty).1
      simpa [fresh, Gateway.register, empty] using next
  have before : ∀ h ∈ g.handles, h.toNat ≤ (g.register now n task title).2.streak := by
    intro h used
    have some_there : g.waiters ≠ [] := fun none_there => by
      rw [handles, none_there] at used
      cases used
    have le := (numbered.counted some_there).2 h used
    have streak : (g.register now n task title).2.streak = g.streak + 1 := by
      simp [Gateway.register, some_there]
    omega
  refine ⟨?_, fun _ => ⟨?_, ?_⟩, streak_le⟩
  · rw [handles', List.nodup_append]
    refine ⟨numbered.distinct, by simp, ?_⟩
    rintro h used _ last rfl
    rw [List.mem_singleton.1 last] at used
    exact numbered.fresh_unused used
  · change (successor g.fresh).toNat = _
    rw [successor_toNat, given]
    rw [given]
    unfold handleLimit at few
    omega
  · intro h used
    rw [handles'] at used
    rcases List.mem_append.1 used with old | new
    · exact before h old
    · rw [List.mem_singleton.1 new, given]

/-! ## Removing and marking -/

theorem Numbered.remove (numbered : Numbered g) (h : Handle) : Numbered (g.remove h) :=
  numbered.of_sublist (List.filter_sublist.map _) rfl rfl rfl

theorem register_remove_unused (unused : g.fresh ∉ g.handles) (now : Instant) (n : Nat)
    (task : TaskId) (title : String) :
    ((g.register now n task title).2.remove g.fresh).waiters = g.waiters := by
  rw [Gateway.remove]
  simp only [register_unused unused]
  rw [List.filter_append, List.filter_eq_self.2 fun w hw => ?_]
  · simp
  · have ne : w.handle ≠ g.fresh := fun same => unused (same ▸ mem_handles hw)
    simpa using ne

theorem Numbered.register_remove (numbered : Numbered g) (now : Instant) (n : Nat) (task : TaskId)
    (title : String) :
    ((g.register now n task title).2.remove g.fresh).waiters = g.waiters :=
  register_remove_unused numbered.fresh_unused now n task title

theorem kill_handles (g : Gateway) (task : TaskId) : (g.kill task).2.handles = g.handles := by
  simp only [kill, handles, List.map_map]
  refine List.map_congr_left fun w _ => ?_
  simp only [Function.comp_apply]
  split <;> rfl

theorem deactivate_handles (g : Gateway) (h : Handle) : (g.deactivate h).handles = g.handles := by
  simp only [deactivate, handles, List.map_map]
  refine List.map_congr_left fun w _ => ?_
  simp only [Function.comp_apply]
  split <;> rfl

theorem Numbered.kill (numbered : Numbered g) (task : TaskId) : Numbered (g.kill task).2 :=
  numbered.of_sublist (by rw [kill_handles]) rfl rfl rfl

theorem Numbered.deactivate (numbered : Numbered g) (h : Handle) : Numbered (g.deactivate h) :=
  numbered.of_sublist (by rw [deactivate_handles]) rfl rfl rfl

/-! ## Who is active -/

theorem waiter?_deactivate (g : Gateway) (h k : Handle) :
    (g.deactivate h).waiter? k =
      (g.waiter? k).map fun w => if w.handle = h then { w with active := false } else w := by
  rw [waiter?, waiter?, deactivate, List.find?_map]
  congr 1
  refine congrArg (fun p => List.find? p g.waiters) (funext fun w => ?_)
  simp only [Function.comp_apply]
  split <;> rfl

theorem isActive_deactivate_ne {k : Handle} (ne : k ≠ h) :
    (g.deactivate h).isActive k = g.isActive k := by
  rw [isActive, isActive, waiter?_deactivate]
  cases found : g.waiter? k with
  | none => rfl
  | some w =>
    have same : w.handle = k := by simpa using List.find?_some found
    simp [same, ne]

theorem isActive_deactivate_self (there : h ∈ g.handles) :
    (g.deactivate h).isActive h = false := by
  obtain ⟨w, hw, rfl⟩ := List.mem_map.1 there
  rw [isActive, waiter?_deactivate]
  cases found : g.waiter? w.handle with
  | none =>
    exact absurd (List.find?_eq_none.1 found w hw) (by simp)
  | some v =>
    have same : v.handle = w.handle := by simpa using List.find?_some found
    simp [same]

theorem isActive_remove_ne {k : Handle} (ne : k ≠ h) : (g.remove h).isActive k = g.isActive k := by
  have found : (g.remove h).waiter? k = g.waiter? k := by
    rw [waiter?, waiter?, remove, List.find?_filter]
    refine congrArg (fun p => List.find? p g.waiters) (funext fun w => ?_)
    by_cases same : w.handle = k <;> simp [same, ne]
  rw [isActive, isActive, found]

theorem Numbered.isActive_register_old (numbered : Numbered g) (now : Instant) (n : Nat)
    (task : TaskId) (title : String) {k : Handle} (there : k ∈ g.handles) :
    (g.register now n task title).2.isActive k = g.isActive k := by
  obtain ⟨w, hw, rfl⟩ := List.mem_map.1 there
  have old := waiter?_of_mem numbered.distinct hw
  have found : (g.register now n task title).2.waiter? w.handle = some w := by
    rw [waiter?, numbered.register_waiters, List.find?_append]
    rw [waiter?] at old
    rw [old, Option.some_or]
  rw [isActive, isActive, found, old]

theorem Numbered.waiter?_register (numbered : Numbered g) (now : Instant) (n : Nat)
    (task : TaskId) (title : String) :
    (g.register now n task title).2.waiter? g.fresh =
      some { handle := g.fresh, request := n, task, title, started := now } := by
  have unused : g.waiters.find? (fun w => w.handle = g.fresh) = none := by
    refine List.find?_eq_none.2 fun w hw same => numbered.fresh_unused ?_
    simp only [decide_eq_true_eq] at same
    exact same ▸ mem_handles hw
  rw [waiter?, numbered.register_waiters, List.find?_append, unused]
  simp

theorem Numbered.isActive_register_new (numbered : Numbered g) (now : Instant) (n : Nat)
    (task : TaskId) (title : String) :
    (g.register now n task title).2.isActive g.fresh = true := by
  rw [isActive, numbered.waiter?_register, Option.all_some]

end MooCore.Background.Gateway
