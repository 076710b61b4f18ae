import MooCore.Proofs.Background.Numbering
/-!
# When a handle is given twice

Handles are numbers of 32 bits and start again at 1 only when the table is empty. While a waiter
stays, the waiters that come after it have other handles until all have been used. The one that
comes then gets the handle of the first, and takes its place.
-/

set_option autoImplicit false
namespace MooCore.Background

/-- A waiter comes, or one leaves. -/
inductive Entry where
  | comes (now : Instant) (task : TaskId) (title : String)
  | leaves (handle : Handle)

/-- A table and the number of waiters that have come. -/
structure Booth where
  gateway : Gateway
  come : Nat := 0

namespace Booth

open Gateway (handleLimit successor)

/-- Waiters are numbered in the order in which they come. -/
def take (b : Booth) : Entry → Booth
  | .comes now task title =>
    { gateway := (b.gateway.register now b.come task title).2, come := b.come + 1 }
  | .leaves handle => { b with gateway := b.gateway.remove handle }

def run (b : Booth) (entries : List Entry) : Booth := entries.foldl take b

def start (max : Nat) (threading : Bool) : Booth := { gateway := { max, threading } }

/-- The handles count from the waiter with the number `base`, over and over. -/
structure Counted (b : Booth) (base : Nat) : Prop where
  within : base ≤ b.come
  given : ∀ w ∈ b.gateway.waiters, base ≤ w.request ∧ w.request < b.come ∧
    w.handle.toNat = (w.request - base) % handleLimit + 1
  fresh : b.gateway.fresh.toNat = (b.come - base) % handleLimit + 1

variable {b : Booth} {base n : Nat} {h : Handle}

theorem counted_of_empty (empty : b.gateway.waiters = []) : b.Counted b.come := by
  constructor
  · exact Nat.le_refl _
  · simp [empty]
  · simp [Gateway.fresh, empty]

theorem successor_counts (counts : h.toNat = n % handleLimit + 1) :
    (successor h).toNat = (n + 1) % handleLimit + 1 := by
  have bound : n % handleLimit < handleLimit := Nat.mod_lt _ (by decide)
  by_cases last : h.toNat + 1 < 0x100000000
  · rw [Gateway.successor_toNat last, counts]
    unfold handleLimit at *
    omega
  · have zero : h + 1 = 0 := by
      apply UInt32.toNat_inj.1
      rw [UInt32.toNat_add]
      unfold handleLimit at *
      simp
      omega
    rw [successor, if_pos zero]
    change 1 = _
    unfold handleLimit at *
    omega

theorem mem_register {g : Gateway} {now : Instant} {task : TaskId} {title : String} {w : Waiter}
    (mem : w ∈ (g.register now n task title).2.waiters) :
    w ∈ g.waiters ∨ w.request = n ∧ w.handle = g.fresh := by
  simp only [Gateway.register] at mem
  split at mem
  · obtain ⟨old, there, same⟩ := List.mem_map.1 mem
    split at same
    · exact Or.inr (same ▸ ⟨rfl, rfl⟩)
    · exact Or.inl (same ▸ there)
  · obtain there | new := List.mem_append.1 mem
    · exact Or.inl there
    · exact Or.inr (List.mem_singleton.1 new ▸ ⟨rfl, rfl⟩)

theorem register_some_left (g : Gateway) (now : Instant) (n : Nat) (task : TaskId)
    (title : String) : (g.register now n task title).2.waiters ≠ [] := by
  simp only [Gateway.register]
  split
  · rename_i used
    have there := Gateway.waiter?_isSome used
    intro empty
    rw [Gateway.handles, List.map_eq_nil_iff.1 empty] at there
    cases there
  · simp

theorem take_leaves (b : Booth) (h : Handle) :
    (b.take (.leaves h)).gateway.waiters = b.gateway.waiters.filter (·.handle ≠ h) := rfl

theorem Counted.comes (counted : b.Counted base) (now : Instant) (task : TaskId)
    (title : String) : (b.take (.comes now task title)).Counted base := by
  obtain ⟨within, given, fresh⟩ := counted
  refine ⟨Nat.le_succ_of_le within, fun w mem => ?_, ?_⟩
  · obtain old | ⟨request, handle⟩ := mem_register mem
    · obtain ⟨after, before, handle⟩ := given w old
      exact ⟨after, Nat.lt_succ_of_lt before, handle⟩
    · rw [request, handle]
      exact ⟨within, Nat.lt_succ_self _, fresh⟩
  · have some_there := register_some_left b.gateway now b.come task title
    have next : (b.take (.comes now task title)).gateway.fresh = successor b.gateway.fresh := by
      rw [take, Gateway.fresh, if_neg (by simpa using some_there)]
      rfl
    rw [next, successor_counts fresh]
    change _ = (b.come + 1 - base) % handleLimit + 1
    rw [Nat.succ_sub within]

theorem Counted.leaves_others (counted : b.Counted base) (handle : Handle)
    (others : (b.take (.leaves handle)).gateway.waiters ≠ []) :
    (b.take (.leaves handle)).Counted base := by
  obtain ⟨within, given, fresh⟩ := counted
  refine ⟨within, fun w mem => given w (List.mem_of_mem_filter mem), ?_⟩
  have before : b.gateway.waiters ≠ [] := by
    intro none
    simp [take, Gateway.remove, none] at others
  have next : (b.take (.leaves handle)).gateway.fresh = b.gateway.fresh := by
    rw [Gateway.fresh, Gateway.fresh, if_neg (by simpa using others),
      if_neg (by simpa using before)]
    rfl
  rw [next]
  exact fresh

theorem run_counted (entries : List Entry) (counted : b.Counted base) :
    ∃ base, (b.run entries).Counted base := by
  induction entries generalizing b base with
  | nil => exact ⟨base, counted⟩
  | cons entry entries ih =>
    cases entry with
    | comes now task title => exact ih (counted.comes now task title)
    | leaves handle =>
      by_cases empty : (b.take (.leaves handle)).gateway.waiters = []
      · exact ih (counted_of_empty empty)
      · exact ih (counted.leaves_others handle empty)

/-- The next handle is in use exactly if all handles have been given since somebody came who is
still there, once or several times. -/
theorem Counted.fresh_used_iff (counted : b.Counted base) :
    b.gateway.fresh ∈ b.gateway.handles ↔
      ∃ w ∈ b.gateway.waiters, ∃ rounds, b.come = w.request + rounds * handleLimit := by
  have same : ∀ w ∈ b.gateway.waiters, (w.handle = b.gateway.fresh ↔
      ∃ rounds, b.come = w.request + rounds * handleLimit) := by
    intro w there
    obtain ⟨after, before, handle⟩ := counted.given w there
    rw [← UInt32.toNat_inj, handle, counted.fresh]
    unfold handleLimit
    constructor
    · intro same
      exact ⟨(b.come - w.request) / 0xffffffff, by omega⟩
    · rintro ⟨rounds, come⟩
      omega
  rw [Gateway.handles, List.mem_map]
  constructor
  · rintro ⟨w, there, handle⟩
    exact ⟨w, there, (same w there).1 handle⟩
  · rintro ⟨w, there, rounds⟩
    exact ⟨w, there, (same w there).2 rounds⟩

theorem Counted.register_used (counted : b.Counted base) (now : Instant) (task : TaskId)
    (title : String) (used : b.gateway.fresh ∈ b.gateway.handles) :
    (b.gateway.register now b.come task title).2.handles = b.gateway.handles ∧
      ∀ w ∈ b.gateway.waiters, w ∈ (b.gateway.register now b.come task title).2.waiters ↔
        w.handle ≠ b.gateway.fresh := by
  obtain ⟨there, mem, same⟩ := List.mem_map.1 used
  have taken : (b.gateway.waiter? b.gateway.fresh).isSome = true := by
    rw [Gateway.waiter?, List.find?_isSome]
    exact ⟨there, mem, by simpa using same⟩
  simp only [Gateway.register, taken, if_true, Gateway.handles, List.map_map]
  constructor
  · apply List.map_congr_left
    intro w _
    by_cases here : w.handle = b.gateway.fresh <;> simp [here]
  · intro w before
    rw [List.mem_map]
    constructor
    · rintro ⟨old, _, became⟩ here
      split at became
      · -- the newcomer has a number that nobody had before
        have young := (counted.given w before).2.1
        rw [← became] at young
        exact Nat.lt_irrefl _ young
      · rename_i other
        exact other (became ▸ here)
    · intro other
      exact ⟨w, before, if_neg other⟩

/-- Over every run of waiters that come and leave: the next handle is never 0. It is the handle of
a waiter in the table exactly if all handles have been given, once or several times, since that
waiter came. If so the newcomer takes that waiter's place, and otherwise the table grows by one. -/
theorem handle_given_again_iff (max : Nat) (threading : Bool) (entries : List Entry)
    (now : Instant) (task : TaskId) (title : String) :
    let b := (start max threading).run entries
    let handle := (b.gateway.register now b.come task title).1
    let g := (b.gateway.register now b.come task title).2
    1 ≤ handle.toNat ∧
    (handle ∈ b.gateway.handles ↔
      ∃ w ∈ b.gateway.waiters, ∃ rounds, b.come = w.request + rounds * handleLimit) ∧
    (handle ∉ b.gateway.handles →
      g.waiters =
        b.gateway.waiters ++ [{ handle, request := b.come, task, title, started := now }]) ∧
    (handle ∈ b.gateway.handles →
      g.handles = b.gateway.handles ∧
        ∀ w ∈ b.gateway.waiters, w ∈ g.waiters ↔ w.handle ≠ handle) := by
  intro b
  obtain ⟨base, counted⟩ : ∃ base, b.Counted base := run_counted entries (counted_of_empty rfl)
  refine ⟨?_, counted.fresh_used_iff, ?_, ?_⟩
  · exact counted.fresh ▸ Nat.succ_pos _
  · exact fun unused => Gateway.register_unused unused now b.come task title
  · exact counted.register_used now task title

/-! ## The first waiter stays -/

def longWait (others : Nat) : List Entry :=
  .comes 0 1 "work" :: (List.range others).flatMap fun i =>
    [.comes 0 2 "work", .leaves (UInt32.ofNat (i + 2))]

/-- Who waits alone, with all who came counted from it. -/
structure Alone (b : Booth) (w : Waiter) : Prop where
  counted : b.Counted 0
  waiters : b.gateway.waiters = [w]
  first : w.request = 0

theorem Alone.handle {w : Waiter} (alone : b.Alone w) : w.handle = 1 := by
  have given := (alone.counted.given w (by simp [alone.waiters])).2.2
  rw [alone.first] at given
  exact UInt32.toNat_inj.1 given

theorem Alone.fresh_used_iff {w : Waiter} (alone : b.Alone w) :
    b.gateway.fresh ∈ b.gateway.handles ↔ ∃ rounds, b.come = rounds * handleLimit := by
  rw [alone.counted.fresh_used_iff, alone.waiters]
  simp [alone.first]

theorem Alone.fresh_eq {w : Waiter} (alone : b.Alone w) (few : b.come < handleLimit) :
    b.gateway.fresh = UInt32.ofNat (b.come + 1) := by
  apply UInt32.toNat_inj.1
  rw [alone.counted.fresh, UInt32.toNat_ofNat']
  unfold handleLimit at *
  omega

theorem Alone.passes {w : Waiter} (alone : b.Alone w) (some : 0 < b.come)
    (few : b.come < handleLimit) (now : Instant) (task : TaskId) (title : String) :
    (b.run [.comes now task title, .leaves b.gateway.fresh]).Alone w := by
  have unused : b.gateway.fresh ∉ b.gateway.handles := by
    rw [alone.fresh_used_iff]
    rintro ⟨rounds, come⟩
    unfold handleLimit at *
    omega
  have other : w.handle ≠ b.gateway.fresh := by
    rw [alone.handle]
    intro same
    exact unused (by simp [Gateway.handles, alone.waiters, alone.handle, ← same])
  have came : (b.take (.comes now task title)).gateway.waiters =
      [w, { handle := b.gateway.fresh, request := b.come, task, title, started := now }] := by
    rw [take, Gateway.register_unused unused, alone.waiters]
    rfl
  have left : ((b.take (.comes now task title)).take
      (.leaves b.gateway.fresh)).gateway.waiters = [w] := by
    rw [take_leaves, came]
    simp [other]
  have others := left ▸ List.cons_ne_nil w []
  exact ⟨(alone.counted.comes now task title).leaves_others _ others, left, alone.first⟩

theorem Alone.replaced {w : Waiter} (alone : b.Alone w) (come : b.come = handleLimit)
    (now : Instant) (task : TaskId) (title : String) :
    (b.gateway.register now b.come task title).1 = w.handle ∧
      w ∉ (b.gateway.register now b.come task title).2.waiters ∧
      (b.gateway.register now b.come task title).2.waiters.length = b.gateway.waiters.length := by
  have used : b.gateway.fresh ∈ b.gateway.handles :=
    alone.fresh_used_iff.2 ⟨1, come.trans (Nat.one_mul _).symm⟩
  have same : b.gateway.fresh = w.handle := by
    rw [Gateway.handles, alone.waiters] at used
    exact List.mem_singleton.1 used
  have there : w ∈ b.gateway.waiters := alone.waiters ▸ List.mem_singleton_self _
  obtain ⟨handles, stays⟩ := alone.counted.register_used now task title used
  refine ⟨same, fun left => (stays w there).1 left same.symm, ?_⟩
  simpa [Gateway.handles] using congrArg List.length handles

def lasting : Waiter := { handle := 1, request := 0, task := 1, title := "work", started := 0 }

theorem longWait_succ (others : Nat) :
    longWait (others + 1) =
      longWait others ++ [.comes 0 2 "work", .leaves (UInt32.ofNat (others + 2))] := by
  simp [longWait, List.range_succ, List.flatMap_append]

theorem longWait_alone (max : Nat) (threading : Bool) (others : Nat) (few : others < handleLimit) :
    ((start max threading).run (longWait others)).Alone lasting ∧
      ((start max threading).run (longWait others)).come = others + 1 := by
  induction others with
  | zero =>
    have counted := (counted_of_empty (b := start max threading) rfl).comes 0 1 "work"
    exact ⟨⟨counted, rfl, rfl⟩, rfl⟩
  | succ others ih =>
    obtain ⟨alone, come⟩ := ih (by omega)
    have passes := alone.passes (by omega) (by omega) 0 2 "work"
    rw [longWait_succ, run, List.foldl_append, ← run]
    rw [alone.fresh_eq (by omega), come] at passes
    exact ⟨passes, congrArg (· + 1) come⟩

/-- While the first waiter stays, all other handles are given and taken back. Then its own handle is
given to another task, which replaces it in the table. -/
theorem lasting_replaced :
    let b := (start 20 true).run (longWait (handleLimit - 1))
    let registered := b.gateway.register 0 b.come 2 "work"
    lasting ∈ b.gateway.waiters ∧ lasting.active = true ∧ registered.1 = lasting.handle ∧
      lasting ∉ registered.2.waiters ∧
      registered.2.waiters.length = b.gateway.waiters.length := by
  obtain ⟨alone, come⟩ := longWait_alone 20 true (handleLimit - 1) (by decide)
  have all : handleLimit - 1 + 1 = handleLimit := by
    unfold handleLimit
    omega
  exact ⟨alone.waiters ▸ List.mem_singleton_self _, rfl, alone.replaced (come.trans all) 0 2 "work"⟩

end Booth
end MooCore.Background
