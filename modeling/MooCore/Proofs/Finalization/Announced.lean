import MooCore.Proofs.Finalization.Restart
import MooCore.Proofs.Value.Progress
/-!
# Reading ends with its source

Values, values from a queue and whole queues are read with at most one call for a line more than
there are lines, whatever lengths the source announces. Where more is announced than is there, in
front or somewhere inside, reading ends in a fault.
-/

set_option autoImplicit false
namespace MooCore

open Text

namespace Intake

variable {sink : Option SinkId} {s : SinkId}

/-- Reading asks for one line after the other, at most once more than there are lines, and each was
given if it succeeds; to succeed takes a line. -/
def Bounded {α : Type} (r : Intake → Except DecodingError α × Intake) : Prop :=
  ∀ i, ∃ k, i.source.Calls k (r i).2.source ∧ k ≤ lineCount i.source.rest + 1 ∧
    ∀ a, (r i).1 = .ok a → i.source.Lines k (r i).2.source ∧ 1 ≤ k

theorem bounded_of_asked {α : Type} {r : Intake → Except DecodingError α × Intake}
    (asked : ∀ i, Asked 1 i.source (r i).1 (r i).2.source) : Bounded r := by
  intro i
  obtain ⟨k, calls, success⟩ := asked i
  exact ⟨k, calls, calls.le, success⟩

theorem readFlag_asked (i : Intake) : Asked 1 i.source i.readFlag.1 i.readFlag.2.source := by
  have asked := Reader.readInteger_asks i.source
  unfold readFlag read
  rcases e : Reader.readInteger i.source with ⟨e | n, rest⟩
  · rw [e] at asked
    exact asked.fails _
  · rw [e] at asked
    by_cases zero : n = 0
    · simpa only [if_pos zero] using asked.map false
    · by_cases one : n = 1
      · simpa only [if_neg zero, if_pos one] using asked.map true
      · simpa only [if_neg zero, if_neg one] using asked.reject _

theorem readValue_asked (sink : Option SinkId) (i : Intake) :
    Asked 1 i.source (i.readValue sink).1 (i.readValue sink).2.source := by
  have asked := Reader.resume_asks [] i.source
  unfold readValue Reader.readShape
  rcases e : Reader.resume [] i.source with ⟨u | shape, rest⟩
  · rw [e] at asked
    exact asked.fails _
  · rw [e] at asked
    exact asked.map _

theorem readPinned_asked (sink : Option SinkId) (i : Intake) :
    Asked 1 i.source (i.readPinned sink).1 (i.readPinned sink).2.source := by
  have asked := readValue_asked sink i
  unfold readPinned
  rcases e : i.readValue sink with ⟨e | v, j⟩
  · rw [e] at asked
    exact asked
  · rw [e] at asked
    cases claimed : j.heap.claim v with
    | ok heap => simpa only [claimed] using asked
    | error e => simpa only [claimed] using asked.reject _

theorem restoreEntries_asked (s : SinkId) (n : Nat) (i : Intake) :
    Asked (2 * n) i.source (restoreEntries s i n).1 (restoreEntries s i n).2.source := by
  induction n generalizing i with
  | zero => exact .ok ()
  | succ n ih =>
    have flagged := readFlag_asked i
    rw [restoreEntries]
    rcases e : i.readFlag with ⟨e | finalized, j⟩
    · rw [e] at flagged
      exact flagged.fails _
    · rw [e] at flagged
      have pinned := readPinned_asked (some s) j
      rcases e : j.readPinned (some s) with ⟨e | v, k⟩
      · rw [e] at pinned
        simp only [e]
        exact (flagged.trans pinned).fails _
      · rw [e] at pinned
        simp only [e]
        exact ((flagged.trans pinned).trans
          (ih { k with heap := k.heap.pushEntry s { value := v, finalized } })).mono (by omega)

theorem restore_asked (s : SinkId) (i : Intake) :
    Asked 1 i.source (restore s i).1 (restore s i).2.source := by
  have first := Reader.readLine_asks i.source
  unfold restore read
  rcases e : Reader.readLine i.source with ⟨e | header, rest⟩
  · rw [e] at first
    exact first.fails _
  · rw [e] at first
    cases count : countBefore? Heap.pendingSuffix header with
    | none => simpa only [count] using first.reject _
    | some n =>
      have entries := restoreEntries_asked s n { i with source := rest }
      simp only [count]
      rcases e : restoreEntries s { i with source := rest } n with ⟨e | _, k⟩
      · rw [e] at entries
        exact (first.trans entries).fails _
      · rw [e] at entries
        exact ((first.trans entries).map n).mono (by omega)

/-! ## Announcements -/

/-- Some container in the value that begins here announces more members than there are lines. -/
def Overstated (src : Source) : Prop :=
  ∃ head rest, Reader.Announces src head rest ∧ lineCount rest.rest < head.members

theorem readValue_of_overstated (sink : Option SinkId) {i : Intake} (h : Overstated i.source) :
    ∃ e, (i.readValue sink).1 = .error e := by
  obtain ⟨head, rest, announced, few⟩ := h
  obtain ⟨u, failed⟩ := Reader.readShape_of_announces announced few
  refine ⟨u.error, ?_⟩
  unfold readValue
  rcases e : Reader.readShape i.source with ⟨u' | shape, mid⟩
  · rw [e] at failed
    cases failed
    rfl
  · rw [e] at failed
    cases failed

theorem readPinned_of_overstated (sink : Option SinkId) {i : Intake} (h : Overstated i.source) :
    ∃ e, (i.readPinned sink).1 = .error e := by
  obtain ⟨e, failed⟩ := readValue_of_overstated sink h
  refine ⟨e, ?_⟩
  unfold readPinned
  rcases read : i.readValue sink with ⟨e' | v, j⟩
  · rw [read] at failed
    exact failed
  · rw [read] at failed
    cases failed

/-- In reading some entries the value of one of them is come to. -/
inductive Enters (s : SinkId) : Nat → Intake → Intake → Prop
  | here {n : Nat} {i j : Intake} {flag : Bool} (read : i.readFlag = (.ok flag, j)) :
      Enters s (n + 1) i j
  | later {n : Nat} {i j k m : Intake} {flag : Bool} {v : Value} (read : i.readFlag = (.ok flag, j))
      (value : j.readPinned (some s) = (.ok v, k))
      (others : Enters s n { k with heap := k.heap.pushEntry s ⟨v, flag⟩ } m) : Enters s (n + 1) i m

/-- A queue announces more entries than there are lines, or a container in one of its values more
members. -/
def QueueOverstated (s : SinkId) (i : Intake) : Prop :=
  ∃ header mid n, i.read Reader.readLine = (.ok header, mid) ∧
    countBefore? Heap.pendingSuffix header = some n ∧
    (lineCount mid.source.rest < 2 * n ∨ ∃ j, Enters s n mid j ∧ Overstated j.source)

theorem restoreEntries_of_enters {n : Nat} {i j : Intake} (h : Enters s n i j)
    (tall : Overstated j.source) : ∃ e, (restoreEntries s i n).1 = .error e := by
  induction h with
  | @here n i j flag read =>
    obtain ⟨e, failed⟩ := readPinned_of_overstated (some s) tall
    refine ⟨e, ?_⟩
    rw [restoreEntries, read]
    rcases pinned : j.readPinned (some s) with ⟨e' | v, k⟩
    · rw [pinned] at failed
      cases failed
      simp only [pinned]
    · rw [pinned] at failed
      cases failed
  | later read value _ ih =>
    obtain ⟨e, failed⟩ := ih tall
    refine ⟨e, ?_⟩
    rw [restoreEntries, read]
    simp only [value]
    exact failed

theorem restore_of_overstated {i : Intake} (h : QueueOverstated s i) :
    ∃ e, (restore s i).1 = .error e := by
  obtain ⟨header, mid, n, read, count, tall⟩ := h
  have failed : ∃ e, (restoreEntries s mid n).1 = .error e := by
    rcases tall with few | ⟨j, enters, tall⟩
    · exact (restoreEntries_asked s n mid).fault few
    · exact restoreEntries_of_enters enters tall
  obtain ⟨e, failed⟩ := failed
  refine ⟨e, ?_⟩
  unfold restore
  simp only [read, count]
  rcases entries : restoreEntries s mid n with ⟨e' | _, k⟩
  · rw [entries] at failed
    cases failed
    rfl
  · rw [entries] at failed
    cases failed

/-- Whatever a source holds, reading a value, a value from a queue or a queue ends after at most one
call for a line more than there are lines, and takes a line to succeed. Where a container or a queue
announces more than there are lines, no value and no queue is read. -/
theorem reading_bounded (sink : Option SinkId) (s : SinkId) :
    Bounded (readValue sink) ∧ Bounded (readPinned sink) ∧ Bounded (restore s) ∧
    (∀ i : Intake, Overstated i.source →
      (∃ e, (i.readValue sink).1 = .error e) ∧ ∃ e, (i.readPinned sink).1 = .error e) ∧
    ∀ i, QueueOverstated s i → ∃ e, (restore s i).1 = .error e :=
  ⟨bounded_of_asked (readValue_asked sink), bounded_of_asked (readPinned_asked sink),
    bounded_of_asked (restore_asked s),
    fun _ tall => ⟨readValue_of_overstated sink tall, readPinned_of_overstated sink tall⟩,
    fun _ tall => restore_of_overstated tall⟩

/-- A list of one map that announces as many pairs as a signed word can say; one line is left. -/
def hugeMap : Source :=
  ⟨lineBytes [Shape.kindLine .list, digits 1] ++
    (lineBytes [Shape.kindLine .map, digits 0x7fffffffffffffff] ++ lineBytes [['6']]), 0⟩

/-- A queue that announces as many entries as a word can say; three lines are left. -/
def hugeQueue : Source :=
  ⟨lineBytes [digits Text.wordLimit ++ Heap.pendingSuffix] ++ lineBytes [['1'], ['6'], ['0']], 0⟩

theorem huge_fail :
    Overstated hugeMap ∧ QueueOverstated 0 ⟨hugeQueue, {}⟩ ∧
    (∃ e, (readValue none ⟨hugeMap, {}⟩).1 = .error e) ∧
    (∃ e, (readPinned none ⟨hugeMap, {}⟩).1 = .error e) ∧
    ∃ e, (restore 0 ⟨hugeQueue, {}⟩).1 = .error e := by
  have nested : Overstated hugeMap := by
    have outer := Reader.readHead_list (show 1 < Shape.lengthLimit by decide)
      (lineBytes [Shape.kindLine .map, digits 0x7fffffffffffffff] ++ lineBytes [['6']]) 0
    have inner := Reader.readHead_map (show 0x7fffffffffffffff < Shape.lengthLimit by decide)
      (lineBytes [['6']]) 2
    exact ⟨_, _, ⟨_, _, .single ⟨_, outer, rfl⟩, inner⟩, by decide⟩
  have queue : QueueOverstated 0 ⟨hugeQueue, {}⟩ := by
    have header : Reader.Reads Reader.readLine [digits Text.wordLimit ++ Heap.pendingSuffix] _ :=
      countLine_reads (by decide) (c := 'n') rfl (by decide) Text.wordLimit
    have count := countBefore?_written Heap.pendingSuffix (Nat.le_refl Text.wordLimit)
    refine ⟨_, ⟨⟨lineBytes [['1'], ['6'], ['0']], 1⟩, {}⟩, _, ?_, count, .inl ?_⟩
    · rw [read, hugeQueue, header _ 0]
      rfl
    · decide
  have bounded := reading_bounded none 0
  exact ⟨nested, queue, (bounded.2.2.2.1 _ nested).1, (bounded.2.2.2.1 _ nested).2,
    bounded.2.2.2.2 _ queue⟩

end Intake
end MooCore
