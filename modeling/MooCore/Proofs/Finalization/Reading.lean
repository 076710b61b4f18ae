import MooCore.Proofs.Finalization.Gathering
import MooCore.Proofs.Finalization.PassOrder
/-!
# Nothing that was read is lost

What a source holds for a queue is read here without a heap: complete entries up to the first fault,
and the values that were complete when the fault showed but belong to no entry. Whatever the source
is, the queue then holds what it held before, the complete entries in their order, and whatever else
was made of it.
-/

set_option autoImplicit false
namespace MooCore

open Heap

/-- What a source holds for a queue: its complete entries, each with its flag, and what was read
after them and is in no entry. -/
structure Reading where
  entries : List (Bool × Shape)
  rest : List Shape

namespace Reading

def nothing : Reading := ⟨[], []⟩

def flag? (source : Text.Source) : Option (Bool × Text.Source) :=
  match Reader.readInteger source with
  | (.ok n, source) =>
    if n = 0 then some (false, source) else if n = 1 then some (true, source) else none
  | (.error _, _) => none

def ofEntries : Nat → Text.Source → Reading
  | 0, _ => nothing
  | n + 1, source =>
    match flag? source with
    | none => nothing
    | some (flag, source) =>
      match Reader.readShape source with
      | (.error u, _) => ⟨[], u.frames.reverse.flatMap frameMembers⟩
      | (.ok t, source) =>
        if t.id?.isSome then
          let more := ofEntries n source
          ⟨(flag, t) :: more.entries, more.rest⟩
        else ⟨[], [t]⟩

def ofQueue (source : Text.Source) : Reading :=
  match Reader.readLine source with
  | (.error _, _) => nothing
  | (.ok header, source) =>
    match Intake.countBefore? pendingSuffix header with
    | none => nothing
    | some n => ofEntries n source

def parts (r : Reading) : List Shape := Shape.partsAll (r.entries.map Prod.snd ++ r.rest)

end Reading

/-- Entries as they were read, each behind what was let go of on the way to it, and behind the last
one what was let go of after it. -/
inductive Follows : List (Bool × Shape) → List Entry → Prop
  | rest {loose : List Entry} (unstarted : ∀ e ∈ loose, e.finalized = false) : Follows [] loose
  | entry {loose more : List Entry} {read : List (Bool × Shape)} {t : Shape} {e : Entry}
      (unstarted : ∀ e ∈ loose, e.finalized = false) (shape : e.value.shape = t.merged)
      (later : Follows read more) : Follows ((e.finalized, t) :: read) (loose ++ e :: more)

theorem Shape.merged_id? (t : Shape) : t.merged.id? = t.id? := by
  cases t <;> simp only [merged] <;> rfl

namespace Intake

variable {s : SinkId} {h h₀ : Heap} {own pin : List Value} {ts : List Shape} {i : Intake}
  {source : Text.Source}

theorem readFlag_some {flag : Bool} (read : Reading.flag? i.source = some (flag, source)) :
    i.readFlag = (.ok flag, ⟨source, i.heap⟩) := by
  unfold Reading.flag? at read
  unfold readFlag Intake.read
  cases got : Reader.readInteger i.source with
  | mk result rest =>
    rw [got] at read
    cases result with
    | error e => cases read
    | ok n =>
      simp only at read ⊢
      split at read
      · rename_i zero
        cases read
        rw [if_pos zero]
      · rename_i nonzero
        split at read
        · rename_i one
          cases read
          rw [if_neg nonzero, if_pos one]
        · cases read

theorem readFlag_none (read : Reading.flag? i.source = none) :
    ∃ e source, i.readFlag = (.error e, ⟨source, i.heap⟩) := by
  unfold Reading.flag? at read
  unfold readFlag Intake.read
  cases got : Reader.readInteger i.source with
  | mk result rest =>
    rw [got] at read
    cases result with
    | error e => exact ⟨e, rest, rfl⟩
    | ok n =>
      simp only at read ⊢
      split at read
      · cases read
      · rename_i nonzero
        split at read
        · cases read
        · rename_i other
          rw [if_neg nonzero, if_neg other]
          exact ⟨_, rest, rfl⟩

theorem restoreEntries_stops (read : Reading.flag? i.source = none) (s : SinkId) (n : Nat) :
    ∃ e source, i.restoreEntries s (n + 1) = (.error e, ⟨source, i.heap⟩) := by
  obtain ⟨e, source, flag⟩ := readFlag_none read
  exact ⟨e, source, by simp only [restoreEntries, flag]⟩

/-! ## One entry -/

section
variable {flag : Bool} (marked : Reading.flag? i.source = some (flag, source))
include marked

theorem restoreEntries_unfinished {u : Reader.Unfinished} {more : Text.Source}
    (read : Reader.readShape source = (.error u, more)) (s : SinkId) (n : Nat) :
    i.restoreEntries s (n + 1) =
      (.error u.error, ⟨more, i.heap.discardFrames (some s) u.frames⟩) := by
  simp only [restoreEntries, readFlag_some marked, readPinned, readValue, read]

theorem restoreEntries_other {t : Shape} {more : Text.Source}
    (read : Reader.readShape source = (.ok t, more)) (other : t.id? = none) (s : SinkId) (n : Nat) :
    i.restoreEntries s (n + 1) = (.error (.notFinalizable more.line),
      ⟨more, (i.heap.build (some s) t).2.release (i.heap.build (some s) t).1⟩) := by
  have kind : (i.heap.build (some s) t).1.isFinalizable = false := by
    rw [Value.isFinalizable, ← Value.shape_id?, build_shape, Shape.merged_id?, other]
    rfl
  simp only [restoreEntries, readFlag_some marked, readPinned, readValue, read, claim, kind,
    Bool.false_eq_true, if_false]

theorem restoreEntries_entry {t : Shape} {x : UInt64} {more : Text.Source}
    (g : Gathered s h₀ own pin i.heap [] ts)
    (read : Reader.readShape source = (.ok t, more)) (some_id : t.id? = some x) (n : Nat) :
    ∃ v h', v.shape = t.merged ∧ Later (fun _ => False) i.heap h' ∧
      Gathered s h₀ own pin (h'.pushEntry s ⟨v, flag⟩) [] (ts ++ t.parts) ∧
      i.restoreEntries s (n + 1) =
        restoreEntries s ⟨more, h'.pushEntry s ⟨v, flag⟩⟩ n := by
  obtain ⟨c, hv, -, -, fresh⟩ := build_cell (s := s) i.heap some_id
  have granted := claim_built (s := s) i.heap some_id
  have spec := @readPinned_spec (fun _ => False) _ _ ⟨source, i.heap⟩ g.balanced (some s)
  simp only [readPinned, readValue, read, granted] at spec
  refine ⟨_, _, build_shape (some s) i.heap t, spec.2.1,
    (g.build t).enter hv fresh granted flag, ?_⟩
  simp only [restoreEntries, readFlag_some marked, readPinned, readValue, read, granted]

end

/-! ## Entry after entry -/

/-- What becomes of a heap into which a reading goes. -/
structure Takes (s : SinkId) (h₀ : Heap) (own pin : List Value) (ts : List Shape) (r : Reading)
    (h h' : Heap) (new : List Entry) : Prop where
  entries : h'.entries s = h.entries s ++ new
  follows : Follows r.entries new
  gathered : Gathered s h₀ own pin h' [] (ts ++ r.parts)

theorem Takes.fault {h' : Heap} (later : Later (fun _ => False) h h')
    (alive : ∃ es, h.queue? s = some es) {rest : List Shape}
    (g : Gathered s h₀ own pin h' [] (ts ++ Shape.partsAll rest)) :
    ∃ new, Takes s h₀ own pin ts ⟨[], rest⟩ h h' new := by
  obtain ⟨new, entries, unclaimed⟩ := Workspace.entries_of_later later alive
  exact ⟨new, entries, .rest fun e he => (unclaimed e he).1, g⟩

theorem Takes.nothing (g : Gathered s h₀ own pin h [] ts) :
    ∃ new, Takes s h₀ own pin ts .nothing h h new :=
  Takes.fault (Later.refl _) g.tended.alive (by rwa [Shape.partsAll, List.append_nil])

theorem restoreEntries_takes (g : Gathered s h₀ own pin i.heap [] ts) (n : Nat) :
    (∃ new, Takes s h₀ own pin ts (Reading.ofEntries n i.source) i.heap
      (i.restoreEntries s n).2.heap new) ∧
    ((i.restoreEntries s n).1 = .ok () →
      (Reading.ofEntries n i.source).entries.length = n ∧
        (Reading.ofEntries n i.source).rest = []) := by
  induction n generalizing i ts with
  | zero => exact ⟨Takes.nothing g, fun _ => ⟨rfl, rfl⟩⟩
  | succ n ih =>
    cases marked : Reading.flag? i.source with
    | none =>
      obtain ⟨e, source, stops⟩ := restoreEntries_stops marked s n
      simp only [Reading.ofEntries, marked, stops]
      exact ⟨Takes.nothing g, fun done => by cases done⟩
    | some got =>
      obtain ⟨flag, source⟩ := got
      cases read : Reader.readShape source with
      | mk result more =>
        cases result with
        | error u =>
          have crafted := (crafts_balanced (fun _ => False) pin).discardFrames (some s) i.heap own
            u.frames g.balanced
          simp only [Reading.ofEntries, marked, read, restoreEntries_unfinished marked read s n]
          exact ⟨Takes.fault crafted.2 g.tended.alive (g.discardFrames u.frames),
            fun done => by cases done⟩
        | ok t =>
          cases some_id : t.id? with
          | none =>
            have crafted := (crafts_balanced (fun _ => False) pin).build (some s) i.heap own t
              g.balanced
            have later := crafted.2.trans (release_later _ (i.heap.build (some s) t).1)
            simp only [Reading.ofEntries, marked, read, some_id,
              restoreEntries_other marked read some_id s n]
            refine ⟨Takes.fault later g.tended.alive ?_, fun done => by cases done⟩
            simpa only [Shape.partsAll, List.append_nil] using (g.build t).release
          | some x =>
            -- What was let go of while the entry was read stands before it, the others behind it.
            obtain ⟨v, h', shape, later, g', next⟩ := restoreEntries_entry marked g read some_id n
            obtain ⟨⟨new, took⟩, complete⟩ := ih (i := ⟨more, h'.pushEntry s ⟨v, flag⟩⟩) g'
            obtain ⟨loose, entries, unclaimed⟩ := Workspace.entries_of_later later g.tended.alive
            obtain ⟨es, there⟩ := Workspace.alive_of_later later g.tended.alive
            simp only [Reading.ofEntries, marked, read, some_id, next]
            refine ⟨⟨loose ++ ⟨v, flag⟩ :: new, ?_, ?_, ?_⟩, ?_⟩
            · have pushed : (h'.pushEntry s ⟨v, flag⟩).entries s = h'.entries s ++ [⟨v, flag⟩] := by
                exact entries_eq ((queue?_putQueue there _ s).trans (if_pos rfl))
              rw [took.entries, pushed, entries, List.append_assoc, List.append_assoc,
                List.singleton_append]
            · exact .entry (e := ⟨v, flag⟩) (fun e he => (unclaimed e he).1) shape took.follows
            · have all := took.gathered
              rw [List.append_assoc] at all
              exact all
            · exact fun done => ⟨congrArg (· + 1) (complete done).1, (complete done).2⟩

end Intake

namespace Workspace

variable {s : SinkId} {past : List Happening} {w : Workspace}

/-- What reading a queue back comes to. The entries that were there stay and come first; no value is
an entry twice; whatever came is new, claimed and pinned, and nothing refers to it; complete entries
come in their order. All anonymous objects and waifs that were read are there, and all that is new
is an entry that came, or in one. -/
structure ReadInto (s : SinkId) (r : Reading) (result : Except DecodingError Nat) (h h' : Heap)
    (new : List Entry) : Prop where
  entries : h'.entries s = h.entries s ++ new
  apart : (h'.entries s).Pairwise fun e e' =>
    ∀ c, e'.value.cell? = some c → e.value.cell? ≠ some c
  came : ∀ e ∈ new, e.value.isFinalizable = true ∧ ∃ c cell, e.value.cell? = some c ∧
    h.cells.size ≤ c ∧ h'.cell? c = some cell ∧ cell.value = e.value ∧ cell.queued = true ∧
      cell.pins = 1 ∧ cell.refs = 0
  in_order : Follows r.entries new
  complete : ∀ n, result = .ok n → r.entries.length = n ∧ r.rest = []
  untouched : ∀ c, c < h.cells.size → h'.cell? c = h.cell? c
  all_made : h'.made h.cells.size = r.parts
  none_lost : ∀ c cell, h'.cell? c = some cell → h.cells.size ≤ c →
    ∃ e ∈ new, cell.value.Within e.value

theorem restore_takes (sound : Sound s w [] []) (source : Text.Source) :
    (∃ new, Intake.Takes s w.heap w.owned w.pinned [] (Reading.ofQueue source) w.heap
      (w.restore source).2.2.heap new) ∧
    ∀ n, (w.restore source).1 = .ok n →
      (Reading.ofQueue source).entries.length = n ∧ (Reading.ofQueue source).rest = [] := by
  have b : Balanced w.heap w.owned w.pinned := by simpa using sound.balanced
  have g : Gathered s w.heap w.owned w.pinned w.heap [] [] := Gathered.start b sound.alive
  simp only [restore, sound.queue, Intake.restore, Intake.read, Reading.ofQueue]
  cases line : Reader.readLine source with
  | mk result rest =>
    cases result with
    | error e => exact ⟨Intake.Takes.nothing g, fun n done => by cases done⟩
    | ok header =>
      cases count : Intake.countBefore? pendingSuffix header with
      | none =>
        simp only [count]
        exact ⟨Intake.Takes.nothing g, fun n done => by cases done⟩
      | some n =>
        have takes := Intake.restoreEntries_takes (i := ⟨rest, w.heap⟩) g n
        simp only [count]
        cases restored : Intake.restoreEntries s ⟨rest, w.heap⟩ n with
        | mk result i =>
          rw [restored] at takes
          cases result with
          | error e => exact ⟨takes.1, fun n done => by cases done⟩
          | ok done =>
            refine ⟨takes.1, fun m same => ?_⟩
            cases same
            exact takes.2 rfl

theorem Resting.read_into (rest : Resting s past w) (source : Text.Source) :
    ∃ new, ReadInto s (Reading.ofQueue source) (w.restore source).1 w.heap
      (w.restore source).2.2.heap new := by
  obtain ⟨⟨new, entries, follows, g⟩, complete⟩ := restore_takes rest.sound source
  have b₀ : Balanced w.heap w.owned w.pinned := by simpa using rest.sound.balanced
  obtain ⟨-, -, more, entries', ledger⟩ := (restore_arrived rest.sound rest.ledger source).1
  have apart := apart_of_mentions fun c => by
    have le := mentions_entries_le (s := s) g.balanced c
    rw [mentions_append] at le
    exact Nat.le_of_add_left_le le
  have fresh : ∀ e ∈ new, e ∉ w.heap.entries s := by
    intro e he old
    obtain ⟨c, hc⟩ := Value.cell?_of_isFinalizable (rest.ledger.kind e old)
    rw [entries, List.pairwise_append] at apart
    exact apart.2.2 e old e he c hc hc
  refine ⟨new, entries, apart, fun e he => ?_, follows, complete, g.untouched, g.made, ?_⟩
  · have mem : e ∈ (w.restore source).2.2.heap.entries s := entries ▸ List.mem_append_right _ he
    have kind := ledger.kind e mem
    obtain ⟨c, hc⟩ := Value.cell?_of_isFinalizable kind
    obtain ⟨recent, cell, arrived⟩ := g.arrived b₀ mem hc (fresh e he)
    exact ⟨kind, c, cell, hc, recent, arrived⟩
  · intro c cell at_c recent
    obtain ⟨e, he, came, within⟩ := g.none_lost b₀ at_c recent
    rw [entries, List.mem_append] at he
    exact ⟨e, he.resolve_left came, within⟩

/-- Whatever was done to a workspace before and whatever the source is, well formed or not: what is
read into the queue does it no harm, and nothing of it is lost. -/
theorem read_back_without_loss (deeds : List Deed) (orderly : ∀ d ∈ deeds, d.Orderly)
    (queue : (carryOut start deeds).2.queue = some s) (source : Text.Source) :
    let w := (carryOut start deeds).2
    ∃ new, ReadInto s (Reading.ofQueue source) (w.restore source).1 w.heap
      (w.restore source).2.2.heap new := by
  obtain ⟨fair, right⟩ := carryOut_fair start_sound.fair start_right deeds orderly
  have rest : Resting s _ (carryOut start deeds).2 :=
    ⟨fair.sound queue, Fair.ledger (fair.sound queue) right⟩
  exact rest.read_into source

def oneWaiting : List Deed :=
  [.act (.make "a" (.shape (.anon 7 ⟨0⟩)) true), .act (.release "a")]

/-- Three entries are announced. The first is a waif with a map in which a key comes twice; the
second is a list in which a waif is still open when the source ends. -/
def cutShort : Text.Source :=
  .ofText (textOfLines (
    ["3 values pending finalization".toList, ['1']] ++
    (Shape.waif 1 ⟨0⟩ ⟨0⟩ [.map [(.int 7, .anon 2 ⟨0⟩), (.int 7, .anon 3 ⟨0⟩)]]).lines ++
    [['0'], ['4'], ['3']] ++ (Shape.anon 4 ⟨0⟩).lines ++
    [['1', '3'], ['5'], ['0'], ['0'], ['2']] ++ (Shape.anon 6 ⟨0⟩).lines))

/-- The value that was overwritten in the map comes before the waif, and what was complete in the
list comes behind it. -/
theorem cutShort_read_back :
    let w := (carryOut start oneWaiting).2
    ∃ new, ReadInto 0 (Reading.ofQueue cutShort) (w.restore cutShort).1 w.heap
        (w.restore cutShort).2.2.heap new ∧
      new.map (fun e => (e.value.finalizableId?, e.finalized)) =
        [(some 2, false), (some 1, true), (some 6, false), (some 4, false)] ∧
      (Reading.ofQueue cutShort).parts.map Shape.id? =
        [some 2, some 3, some 1, some 4, some 6] := by
  intro w
  obtain ⟨new, read⟩ := read_back_without_loss oneWaiting (by simp [oneWaiting, Deed.Orderly])
    (s := 0) (by decide +kernel) cutShort
  have before : (w.heap.entries 0).map (fun e => (e.value.finalizableId?, e.finalized)) =
      [(some 7, false)] := by decide +kernel
  have after : ((w.restore cutShort).2.2.heap.entries 0).map
      (fun e => (e.value.finalizableId?, e.finalized)) =
        [(some 7, false), (some 2, false), (some 1, true), (some 6, false), (some 4, false)] := by
    decide +kernel
  rw [read.entries, List.map_append, before] at after
  exact ⟨new, read, (List.cons.inj after).2, by decide +kernel⟩

end Workspace
end MooCore
