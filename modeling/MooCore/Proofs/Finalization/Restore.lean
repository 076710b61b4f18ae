import MooCore.Proofs.Finalization.Passes
/-!
# Queues read back

Whatever the source holds, reading a queue back keeps the heap balanced and the ledger in order:
each value that is read is new, claimed and pinned, and only those that were written as started
count as started.
-/

set_option autoImplicit false
namespace MooCore

open Heap

namespace Intake

variable {still : CellId → Prop} {own pin : List Value} {i i' : Intake} {sink : Option SinkId}

theorem readFlag_heap (i : Intake) : i.readFlag.2.heap = i.heap := by
  simp only [readFlag, read]
  generalize Reader.readInteger i.source = got
  obtain ⟨result, source⟩ := got
  cases result with
  | error e => rfl
  | ok k =>
    by_cases zero : k = 0
    · simp [zero]
    · by_cases one : k = 1 <;> simp [zero, one]

theorem readValue_crafts {r : Heap → List Value → Heap → List Value → Prop} (crafts : Crafts r)
    (i : Intake) (own : List Value) (sink : Option SinkId) :
    match i.readValue sink with
    | (.ok v, i') => r i.heap own i'.heap (v :: own)
    | (.error _, i') => r i.heap own i'.heap own := by
  unfold readValue
  cases read : Reader.readShape i.source with
  | mk result source =>
    cases result with
    | ok shape => exact crafts.build sink i.heap own shape
    | error u => exact crafts.discardFrames sink i.heap own u.frames

theorem readPinned_spec (b : Balanced i.heap own pin) (sink : Option SinkId) :
    match i.readPinned sink with
    | (.ok v, i') => Balanced i'.heap own (v :: pin) ∧ Later still i.heap i'.heap ∧
        i.heap.Unclaimed ⟨v, false⟩
    | (.error _, i') => Balanced i'.heap own pin ∧ Later still i.heap i'.heap := by
  have value := readValue_crafts (crafts_balanced still pin) i own sink
  unfold readPinned
  cases read : i.readValue sink with
  | mk result mid =>
    rw [read] at value
    cases result with
    | error e => exact value b
    | ok v =>
      obtain ⟨owned, later⟩ := value b
      cases granted : mid.heap.claim v with
      | error e =>
        simp only [granted]
        exact ⟨release_balanced owned, later.trans (release_later _ _)⟩
      | ok heap =>
        simp only [granted]
        have claimed := claim_balanced owned (by simp) granted
        obtain ⟨c, cell, cv, at_c, -, fresh, kind, -⟩ := claim_ok owned (by simp) granted
        have step : Later still mid.heap heap := claim_later owned (by simp) granted
        refine ⟨release_balanced claimed, (later.trans step).trans (release_later _ _), rfl, kind,
          c, cv, fun old => ?_⟩
        rw [(later.claimed c old).2 cell at_c] at fresh
        cases fresh

end Intake

namespace Workspace

variable {s : SinkId} {past : List Happening} {h : Heap} {own pin : List Value}

/-- An entry is read back. -/
theorem Ledger.push (ledger : Ledger s past h [] []) {e : Entry}
    (b : Balanced h own (e.value :: pin)) (alive : ∃ es, h.queue? s = some es)
    (kind : e.value.isFinalizable = true) (silent : Silent past e.value) :
    Ledger s (past ++ readBack [e]) (h.pushEntry s e) [] [] := by
  obtain ⟨es, hs⟩ := alive
  obtain ⟨v, flag⟩ := e
  have entries' : (h.pushEntry s ⟨v, flag⟩).entries s = h.entries s ++ [⟨v, flag⟩] := by
    refine entries_eq ?_
    rw [pushEntry, queue?_putQueue hs, if_pos rfl]
  have elsewhere : ∀ e ∈ h.entries s, ∀ c, e.value.cell? = some c → v.cell? ≠ some c :=
    fun e he c hc hc' => entry_not_pinned b he (by simp) hc' hc
  have lawful : Lawful (past ++ readBack [⟨v, flag⟩]) := by
    cases flag with
    | false => simpa [readBack] using ledger.lawful
    | true => exact ledger.lawful.snoc silent
  have about : ∀ x ∈ readBack [⟨v, flag⟩], x.value = v ∧ ∀ c, Destroys c x = false := by
    intro x hx
    cases flag with
    | false => simp [readBack] at hx
    | true =>
      obtain rfl : x = .restored v := by simpa [readBack] using hx
      exact ⟨rfl, fun _ => rfl⟩
  have quiet : ∀ e ∈ h.entries s, Silent (readBack [⟨v, flag⟩]) e.value := by
    intro e he x hx c hc
    rw [(about x hx).1]
    exact elsewhere e he c hc
  refine ⟨lawful, ?_, ?_, ?_, ?_, by simp, List.Pairwise.nil, by simp⟩
  · intro x hx c hc
    rcases List.mem_append.1 hx with hx | hx
    · exact ledger.claimed x hx c hc
    · rw [(about x hx).1] at hc
      exact claimed_of_pinned b (v := v) (by simp) hc
  · intro e he
    rw [entries'] at he
    rcases List.mem_append.1 he with he | he
    · exact ledger.kind e he
    · obtain rfl := List.mem_singleton.1 he
      exact kind
  · intro e he unstarted
    rw [entries'] at he
    rcases List.mem_append.1 he with he | he
    · exact (ledger.waiting e he unstarted).append (quiet e he)
    · obtain rfl := List.mem_singleton.1 he
      obtain rfl : flag = false := unstarted
      simpa [readBack] using silent
  · intro e he started
    rw [entries'] at he
    refine Or.inr ?_
    rcases List.mem_append.1 he with he | he
    · obtain ⟨begun, undestroyed⟩ := (ledger.started e he started).resolve_left (by simp)
      refine ⟨begun.mono _, fun x hx c hc => ?_⟩
      rcases List.mem_append.1 hx with hx | hx
      · exact undestroyed x hx c hc
      · exact (about x hx).2 c
    · obtain rfl := List.mem_singleton.1 he
      obtain rfl : flag = true := started
      refine ⟨Or.inr (by simp [readBack]), fun x hx c hc => ?_⟩
      rcases List.mem_append.1 hx with hx | hx
      · exact silent.undestroyed x hx c hc
      · exact (about x hx).2 c

theorem readBack_append (es es' : List Entry) :
    readBack (es ++ es') = readBack es ++ readBack es' := by
  simp [readBack]

theorem readBack_unclaimed {new : List Entry} (unclaimed : ∀ e ∈ new, h.Unclaimed e) :
    readBack new = [] := by
  rw [readBack, List.map_eq_nil_iff, List.filter_eq_nil_iff]
  intro e he
  simp [(unclaimed e he).1]

/-- What reading comes to: the queue has got some entries more. -/
structure Arrived (s : SinkId) (past : List Happening) (own pin : List Value) (h h' : Heap) :
    Prop where
  balanced : Balanced h' own pin
  alive : ∃ es, h'.queue? s = some es
  arrived : ∃ new, h'.entries s = h.entries s ++ new ∧ Ledger s (past ++ readBack new) h' [] []

theorem Arrived.of_later {h' : Heap} (ledger : Ledger s past h [] [])
    (alive : ∃ es, h.queue? s = some es) (b : Balanced h' own pin) (later : Later (Held []) h h') :
    Arrived s past own pin h h' := by
  obtain ⟨new, entries', unclaimed⟩ := entries_of_later later alive
  refine ⟨b, alive_of_later later alive, new, entries', ?_⟩
  rw [readBack_unclaimed unclaimed, List.append_nil]
  exact ledger.later later alive

theorem restoreEntries_arrived {i : Intake} (ledger : Ledger s past i.heap [] [])
    (alive : ∃ es, i.heap.queue? s = some es) (b : Balanced i.heap own pin) (n : Nat) :
    Arrived s past own pin i.heap (i.restoreEntries s n).2.heap := by
  induction n generalizing i past with
  | zero => exact Arrived.of_later ledger alive b (Later.refl _)
  | succ n ih =>
    unfold Intake.restoreEntries
    have same := i.readFlag_heap
    cases flag : i.readFlag with
    | mk result j =>
      rw [flag] at same
      change j.heap = i.heap at same
      cases result with
      | error e =>
        rw [← same] at b ledger alive ⊢
        exact Arrived.of_later ledger alive b (Later.refl _)
      | ok finalized =>
        rw [← same] at b ledger alive ⊢
        have pinned := @Intake.readPinned_spec (Held []) _ _ _ b (some s)
        simp only
        cases read : j.readPinned (some s) with
        | mk result k =>
          rw [read] at pinned
          cases result with
          | error e => exact Arrived.of_later ledger alive pinned.1 pinned.2
          | ok v =>
            obtain ⟨claimed, later, unclaimed⟩ := pinned
            obtain ⟨-, kind, c, hc, free⟩ := unclaimed
            obtain ⟨new, entries', quiet⟩ := entries_of_later later alive
            have alive' := alive_of_later later alive
            have silent : Silent past v := by
              intro x hx d hd hx'
              rw [hc] at hd
              cases hd
              exact free (ledger.claimed x hx c hx')
            have pushed := (ledger.later later alive).push (e := ⟨v, finalized⟩) claimed alive' kind
              silent
            obtain ⟨es, hs⟩ := alive'
            have balanced : Balanced (k.heap.pushEntry s ⟨v, finalized⟩) own pin :=
              pushEntry_balanced claimed hs
            have queue : (k.heap.pushEntry s ⟨v, finalized⟩).queue? s =
                some (k.heap.entries s ++ [⟨v, finalized⟩]) := by
              rw [pushEntry, queue?_putQueue hs, if_pos rfl]
            obtain ⟨b', alive'', more, entries'', ledger'⟩ :=
              ih (i := { k with heap := k.heap.pushEntry s ⟨v, finalized⟩ }) pushed ⟨_, queue⟩
                balanced
            refine ⟨b', alive'', new ++ ([⟨v, finalized⟩] ++ more), ?_, ?_⟩
            · rw [entries'', entries_eq queue, entries']
              simp
            · rw [readBack_append, readBack_unclaimed quiet, List.nil_append, readBack_append,
                ← List.append_assoc]
              exact ledger'

theorem restore_arrived {w : Workspace} (sound : Sound s w own pin)
    (ledger : Ledger s past w.heap [] []) (source : Text.Source) :
    Arrived s past (w.owned ++ own) (w.pinned ++ pin) w.heap (w.restore source).2.2.heap ∧
      (w.restore source).2.2 = { w with heap := (w.restore source).2.2.heap } := by
  have unchanged := Arrived.of_later ledger sound.alive sound.balanced (Later.refl _)
  simp only [restore, sound.queue]
  refine ⟨?_, trivial⟩
  simp only [Intake.restore, Intake.read]
  cases line : Reader.readLine source with
  | mk result rest =>
    cases result with
    | error e => exact unchanged
    | ok header =>
      simp only
      cases Intake.countBefore? pendingSuffix header with
      | none => exact unchanged
      | some n =>
        have arrived := restoreEntries_arrived (i := { source := rest, heap := w.heap }) ledger
          sound.alive sound.balanced n
        simp only
        cases restored : Intake.restoreEntries s { source := rest, heap := w.heap } n with
        | mk result i =>
          rw [restored] at arrived
          cases result with
          | error e => exact arrived
          | ok u => exact arrived

end Workspace
end MooCore
