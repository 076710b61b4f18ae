import MooCore.Proofs.Finalization.Restore
/-!
# Finalized once, destroyed once

The ledger is kept by every deed that leaves the queue to the passes, and with it, over every
course of work from an empty workspace: a finalizer is started once, a value is destroyed once,
after that and without references, and nothing leaves the queue otherwise.
-/

set_option autoImplicit false
namespace MooCore.Workspace

open Heap

/-- A workspace between two deeds. -/
structure Resting (s : SinkId) (past : List Happening) (w : Workspace) : Prop where
  sound : Sound s w [] []
  ledger : Ledger s past w.heap [] []

variable {s : SinkId} {past : List Happening} {w : Workspace}

theorem entries_of_queue (queue : w.queue = some s) : w.entries = w.heap.entries s := by
  simp only [entries, queue]

def Followed (e : Entry) (events : List Happening) (w : Workspace) : Prop :=
  e.value ∈ w.entries.map Entry.value ∨ ∃ refs, .pass (.destroy e.value refs) ∈ events

theorem Resting.carryOut_one (rest : Resting s past w) {d : Deed} (leaves : d.LeavesQueue) :
    Resting s (past ++ (d.carryOut w).1) (d.carryOut w).2 ∧
      ∀ e ∈ w.entries, Followed e (d.carryOut w).1 (d.carryOut w).2 := by
  cases d with
  | act op =>
    obtain ⟨sound, later⟩ := apply_sound rest.sound leaves
    simp only [Deed.carryOut, List.append_nil]
    refine ⟨⟨sound, rest.ledger.later later rest.sound.alive⟩, fun e he => Or.inl ?_⟩
    rw [entries_of_queue rest.sound.queue] at he
    rw [entries_of_queue sound.queue]
    exact values_of_later later rest.sound.alive (List.mem_map_of_mem he)
  | drain dispatch farewell =>
    obtain ⟨sound, ledger, followed⟩ := drain_underway rest.sound rest.ledger leaves
    refine ⟨⟨sound, ledger⟩, fun e he => ?_⟩
    rw [entries_of_queue rest.sound.queue] at he
    rcases followed e he with queued | ⟨refs, destroyed⟩
    · refine Or.inl ?_
      change e.value ∈ (w.drain dispatch farewell).workspace.entries.map Entry.value
      rw [entries_of_queue sound.queue]
      exact queued
    · exact Or.inr ⟨refs, List.mem_map_of_mem destroyed⟩
  | restore source =>
    obtain ⟨⟨balanced, alive, new, entries', ledger⟩, frame⟩ :=
      restore_arrived rest.sound rest.ledger source
    have queue : (w.restore source).2.2.queue = some s := by
      rw [frame]
      exact rest.sound.queue
    have sound : Sound s (w.restore source).2.2 [] [] := by
      refine ⟨?_, queue, alive⟩
      rw [frame]
      exact balanced
    have read : (w.restore source).2.2.entries = w.entries ++ new := by
      rw [entries_of_queue queue, entries_of_queue rest.sound.queue, entries']
    simp only [Deed.carryOut]
    rw [read, List.drop_left]
    refine ⟨⟨sound, ledger⟩, fun e he => Or.inl ?_⟩
    rw [read, List.map_append]
    exact List.mem_append_left _ (List.mem_map_of_mem he)

theorem Resting.carryOut (rest : Resting s past w) (ds : List Deed)
    (leave : ∀ d ∈ ds, d.LeavesQueue) :
    Resting s (past ++ (carryOut w ds).1) (carryOut w ds).2 ∧
      ∀ e ∈ w.entries, Followed e (carryOut w ds).1 (carryOut w ds).2 := by
  induction ds generalizing past w with
  | nil =>
    simp only [Workspace.carryOut, List.append_nil]
    exact ⟨rest, fun e he => Or.inl (List.mem_map_of_mem he)⟩
  | cons d ds ih =>
    obtain ⟨now, follow⟩ := rest.carryOut_one (leave d (by simp))
    obtain ⟨done, follow'⟩ := ih now fun d hd => leave d (List.mem_cons_of_mem _ hd)
    simp only [Workspace.carryOut]
    rw [← List.append_assoc]
    refine ⟨done, fun e he => ?_⟩
    rcases follow e he with queued | ⟨refs, destroyed⟩
    · obtain ⟨e', he', same⟩ := List.mem_map.1 queued
      rcases follow' e' he' with queued' | ⟨refs, destroyed⟩
      · exact Or.inl (same ▸ queued')
      · exact Or.inr ⟨refs, List.mem_append_right _ (same ▸ destroyed)⟩
    · exact Or.inr ⟨refs, List.mem_append_left _ destroyed⟩

theorem start_resting : Resting 0 [] start := ⟨start_sound, Ledger.empty rfl⟩

/-- Over every course of work that leaves the queue to passes: each finalizer is started at most
once and each value is destroyed at most once; a value is destroyed when nothing refers to it,
after its finalizer was started or was read back as started, and its finalizer is not started after
that; what was read back as started is not finalized again; and what is in the queue stays there,
with its cell, until it is destroyed. -/
theorem finalized_and_destroyed_once (deeds : List Deed) (leave : ∀ d ∈ deeds, d.LeavesQueue) :
    let past := (carryOut start deeds).1
    (∀ c, past.countP (Finalizes c) ≤ 1 ∧ past.countP (Destroys c) ≤ 1) ∧
    (∀ v refs, .pass (.finalize v refs) ∈ past → v.isFinalizable = true) ∧
    (∀ before after v refs, past = before ++ .pass (.destroy v refs) :: after →
      refs = 0 ∧ Started before v ∧ ∀ c, v.cell? = some c → after.countP (Finalizes c) = 0) ∧
    (∀ v c, .restored v ∈ past → v.cell? = some c → past.countP (Finalizes c) = 0) ∧
    ∀ first second, deeds = first ++ second → ∀ e ∈ (carryOut start first).2.entries,
      let (events, w) := carryOut (carryOut start first).2 second
      (e.value ∈ w.entries.map Entry.value ∧ (w.heap.cellOf? e.value).isSome = true) ∨
        ∃ refs, .pass (.destroy e.value refs) ∈ events := by
  have lawful : Lawful (carryOut start deeds).1 := by
    simpa using (start_resting.carryOut deeds leave).1.ledger.lawful
  refine ⟨fun c => ⟨lawful.finalized_once c, lawful.destroyed_once c⟩, ?_, ?_,
    fun v c restored hc => lawful.restored_not_finalized restored hc, ?_⟩
  · intro v refs hx
    obtain ⟨before, after, split⟩ := List.append_of_mem hx
    exact (lawful before _ after split).1
  · intro before after v refs split
    obtain ⟨zero, started, -⟩ := lawful before _ after split
    rw [split] at lawful
    exact ⟨zero, started, fun c hc => lawful.not_finalized_after hc⟩
  · rintro first second rfl e he
    have reached := (start_resting.carryOut first fun d hd => leave d (by simp [hd])).1
    obtain ⟨resting, followed⟩ := reached.carryOut second fun d hd => leave d (by simp [hd])
    rcases followed e he with queued | destroyed
    · refine Or.inl ⟨queued, ?_⟩
      obtain ⟨e', he', same⟩ := List.mem_map.1 queued
      rw [entries_of_queue resting.sound.queue] at he'
      obtain ⟨c, hc⟩ := Value.cell?_of_isFinalizable (resting.ledger.kind e' he')
      obtain ⟨cell, at_c, -⟩ := resting.sound.balanced.present e'.value (by
        simp only [List.mem_append]
        exact Or.inr (Or.inr (mem_queued_of_entry he'))) c hc
      rw [← same]
      simp [cellOf?, hc, at_c]
    · exact Or.inr destroyed

/-- A queued anonymous object in a waif: both are let go of, kept by finalizers that fail, let go of
again, and destroyed one after the other. -/
def keptAgain : List Deed :=
  [.act (.make "a" (.shape (.anon 1 ⟨0⟩)) true),
    .act (.make "w" (.waif 2 ⟨0⟩ ⟨0⟩ [.named "a"]) true), .act (.enqueue "a"),
    .act (.release "a"), .act (.release "w"),
    .drain (fun _ _ => { keepAs := some "k", failure := some ⟨"E_PERM"⟩ }) fun _ _ => [],
    .act (.release "k"), .drain (fun _ _ => {}) fun _ _ => [],
    .drain (fun _ _ => {}) fun _ _ => []]

theorem keptAgain_once :
    (∀ d ∈ keptAgain, d.LeavesQueue) ∧
      let past := (carryOut start keptAgain).1
      past.countP (Finalizes 0) = 1 ∧ past.countP (Destroys 0) = 1 := by
  have leave : ∀ d ∈ keptAgain, d.LeavesQueue := by
    simp [keptAgain, Deed.LeavesQueue, Op.LeavesQueue]
  obtain ⟨finalized, destroyed⟩ := (finalized_and_destroyed_once keptAgain leave).1 0
  refine ⟨leave, Nat.le_antisymm finalized ?_, Nat.le_antisymm destroyed ?_⟩
  · decide
  · decide

end MooCore.Workspace
