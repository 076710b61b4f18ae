import MooCore.Proofs.Finalization.Idle
import MooCore.Proofs.Finalization.Creation
import MooCore.Proofs.Value.Faithful
/-!
# Restart

A queue is written down, and read back into an empty workspace. Reading succeeds, and what is read
back has no cell in common any more: every occurrence of an identity number in the written queue
comes back as a value of its own.
-/

set_option autoImplicit false
namespace MooCore

namespace Shape

theorem echo_id? (s : Shape) : s.echo.id? = s.id? := by
  cases s <;> simp only [echo] <;> rfl

mutual

theorem echo_ids (s : Shape) : s.echo.ids = s.ids := by
  cases s with
  | none | int _ | float _ | obj _ | err _ | str _ | anon _ _ => rfl
  | list xs => exact echoAll_ids xs
  | map kvs => exact echoPairs_ids kvs
  | waif id cls owner ps => exact congrArg (id :: ·) (echoAll_ids ps)

theorem echoAll_ids (xs : List Shape) : idsAll (echoAll xs) = idsAll xs := by
  cases xs with
  | nil => rfl
  | cons x xs =>
    simp only [echoAll, idsAll]
    rw [echo_ids x, echoAll_ids xs]

theorem echoPairs_ids (kvs : List (Shape × Shape)) : idsPairs (echoPairs kvs) = idsPairs kvs := by
  cases kvs with
  | nil => rfl
  | cons kv kvs =>
    obtain ⟨k, v⟩ := kv
    simp only [echoPairs, idsPairs]
    rw [echo_ids k, echo_ids v, echoPairs_ids kvs]

end

end Shape

namespace Heap

variable {s : SinkId} {h : Heap} {own pin : List Value}

def renew (s : SinkId) (h : Heap) (e : Entry) : Heap :=
  let (v, h) := h.build (some s) e.value.shape.echo
  let h := h.modify v fun cell => { cell with queued := true, pins := cell.pins + 1 }
  (h.release v).pushEntry s ⟨v, e.finalized⟩

theorem build_fresh (h : Heap) {t : Shape} {x : UInt64} (hx : t.id? = some x) :
    (h.build (some s) t).1.finalizableId? = some x ∧
      (h.build (some s) t).2.cellOf? (h.build (some s) t).1 =
        some (Cell.fresh (h.build (some s) t).1) := by
  cases t with
  | none | int _ | float _ | obj _ | err _ | str _ | list _ | map _ => cases hx
  | anon id parent =>
    refine ⟨hx, ?_⟩
    change (h.alloc fun c => .anon c (some s) id parent).2.cell? h.cells.size = _
    rw [cell?_alloc, if_pos rfl]
    rfl
  | waif id cls owner ps =>
    refine ⟨hx, ?_⟩
    let mid := h.buildAll (some s) ps
    change (mid.2.alloc fun c => .waif c (some s) id cls owner mid.1).2.cell? mid.2.cells.size = _
    rw [cell?_alloc, if_pos rfl]
    rfl

theorem claim_built (h : Heap) {t : Shape} {x : UInt64} (hx : t.id? = some x) :
    (h.build (some s) t).2.claim (h.build (some s) t).1 =
      .ok ((h.build (some s) t).2.modify (h.build (some s) t).1
        fun cell => { cell with queued := true, pins := cell.pins + 1 }) := by
  obtain ⟨kind, fresh⟩ := build_fresh (s := s) h hx
  have finalizable : (h.build (some s) t).1.isFinalizable = true := by
    simp [Value.isFinalizable, kind]
  have unqueued : (h.build (some s) t).2.isQueued (h.build (some s) t).1 = false := by
    simp only [isQueued, fresh]
    rfl
  simp [claim, finalizable, unqueued]

def startedIds (h : Heap) (s : SinkId) : List (Option UInt64) :=
  ((h.entries s).filter Entry.finalized).map fun e => e.value.finalizableId?

structure Renewed (s : SinkId) (own pin : List Value) (h : Heap) (e : Entry) (h' : Heap) :
    Prop where
  balanced : Balanced h' own pin
  guarded : Guarded s h'
  census : ∀ x, h'.census x = h.census x + e.value.shape.ids.count x
  started : h'.startedIds s = h.startedIds s ++
    if e.finalized = true then [e.value.finalizableId?] else []

theorem renew_renewed (b : Balanced h own pin) (guarded : Guarded s h) {e : Entry}
    (kind : e.value.isFinalizable = true) : Renewed s own pin h e (h.renew s e) := by
  obtain ⟨x, hx⟩ := Option.isSome_iff_exists.1 kind
  have id : e.value.shape.echo.id? = some x := by
    rw [Shape.echo_id?, Value.shape_id?, hx]
  have built := build_adds b guarded e.value.shape.echo
  have granted := claim_built (s := s) h id
  have kept := (build_fresh (s := s) h id).1
  unfold renew
  generalize h.build (some s) e.value.shape.echo = made at built granted kept
  obtain ⟨v, mid⟩ := made
  have pinned := claim_balanced built.yields.1 (v := v) (by simp) granted
  obtain ⟨c, cell, cv, at_c, -, -, -, claimed⟩ := claim_ok built.yields.1 (v := v) (by simp) granted
  have step : Later (fun _ => False) mid _ := claim_later built.yields.1 (v := v) (by simp) granted
  have spared : Spares s mid (mid.modify v fun cell =>
      { cell with queued := true, pins := cell.pins + 1 }) := by
    rw [claimed]
    exact built.guarded.put at_c rfl fun _ => Nat.succ_pos _
  have spared' := spared.trans (release_spares pinned spared.guarded)
  have later := (built.yields.2.trans step).trans (release_later _ v)
  have released := release_balanced pinned
  dsimp only at spared' later released kept ⊢
  generalize (mid.modify v fun cell => { cell with queued := true, pins := cell.pins + 1 }).release v
    = last at spared' later released
  obtain ⟨es, hs⟩ := spared'.guarded.alive
  obtain ⟨new, entries', unclaimed⟩ := Workspace.entries_of_later later guarded.alive
  have pushed : (last.pushEntry s ⟨v, e.finalized⟩).entries s =
      h.entries s ++ (new ++ [⟨v, e.finalized⟩]) := by
    rw [← List.append_assoc, ← entries']
    refine entries_eq ?_
    rw [pushEntry, queue?_putQueue hs, if_pos rfl]
  refine ⟨pushEntry_balanced released hs, (spared'.guarded.putQueue _).guarded, fun x => ?_, ?_⟩
  · have same : (last.pushEntry s ⟨v, e.finalized⟩).census x = last.census x := rfl
    rw [same, spared'.census, built.census, Shape.echo_ids]
  · have quiet : new.filter Entry.finalized = [] :=
      List.filter_eq_nil_iff.2 fun e he => by simp [(unclaimed e he).1]
    rw [startedIds, pushed, List.filter_append, List.filter_append, quiet, List.nil_append,
      List.map_append, startedIds]
    congr 1
    cases flag : e.finalized <;> simp [kept, hx]

def renewAll (s : SinkId) (h : Heap) (es : List Entry) : Heap := es.foldl (renew s) h

theorem renewAll_renewed (b : Balanced h own pin) (guarded : Guarded s h) {es : List Entry}
    (kind : ∀ e ∈ es, e.value.isFinalizable = true) :
    Guarded s (h.renewAll s es) ∧
      (∀ x, (h.renewAll s es).census x =
        h.census x + (es.flatMap fun e => e.value.shape.ids).count x) ∧
      (h.renewAll s es).startedIds s =
        h.startedIds s ++ (es.filter Entry.finalized).map fun e => e.value.finalizableId? := by
  induction es generalizing h with
  | nil => exact ⟨guarded, fun x => by simp [renewAll], by simp [renewAll]⟩
  | cons e es ih =>
    have first := renew_renewed b guarded (kind e (by simp))
    obtain ⟨guarded', census, started⟩ :=
      ih first.balanced first.guarded fun e he => kind e (List.mem_cons_of_mem _ he)
    refine ⟨guarded', fun x => (census x).trans ?_, started.trans ?_⟩
    · rw [first.census, List.flatMap_cons, List.count_append, Nat.add_assoc]
    · rw [first.started, List.append_assoc]
      cases flag : e.finalized <;> simp [flag]

end Heap

/-! ## Reading what was written -/

namespace Intake

open Heap Text Reader

variable {s : SinkId}

theorem digits_bit (b : Bool) : [if b then '1' else '0'] = digits (if b then 1 else 0) := by
  cases b <;> · rw [digits]; rfl

theorem readFlag_written (b : Bool) (more : List UInt8) (n : Nat) (h : Heap) :
    readFlag ⟨{ rest := lineBytes [[if b then '1' else '0']] ++ more, line := n }, h⟩ =
      (.ok b, ⟨{ rest := more, line := n + 1 }, h⟩) := by
  have read : Reads readInteger [[if b then '1' else '0']] (if b then 1 else 0) := by
    have number := readInteger_reads (if b then 1 else 0)
    have text : integerChars (if b then (1 : Int64) else 0).toInt = [if b then '1' else '0'] := by
      rw [digits_bit]
      cases b <;> rfl
    rwa [text] at number
  have got := read more n
  simp only [readFlag, Intake.read, got]
  cases b <;> rfl

theorem readPinned_written {t : Shape} (fits : t.Fits) {x : UInt64} (hx : t.echo.id? = some x)
    (more : List UInt8) (n : Nat) (h : Heap) :
    readPinned (some s) ⟨{ rest := lineBytes t.lines ++ more, line := n }, h⟩ =
      (.ok (h.build (some s) t.echo).1, ⟨{ rest := more, line := n + t.lines.length },
        ((h.build (some s) t.echo).2.modify (h.build (some s) t.echo).1
          fun cell => { cell with queued := true, pins := cell.pins + 1 }).release
            (h.build (some s) t.echo).1⟩) := by
  have granted := claim_built (s := s) h hx
  simp only [readPinned, readValue, readShape_lines fits more n, granted]

theorem restoreEntries_written {es : List Entry}
    (kind : ∀ e ∈ es, e.value.isFinalizable = true) (fits : ∀ e ∈ es, e.value.shape.Fits)
    (more : List UInt8) (n : Nat) (h : Heap) :
    restoreEntries s ⟨{ rest := lineBytes (es.flatMap entryLines) ++ more, line := n }, h⟩
        es.length =
      (.ok (), ⟨{ rest := more, line := n + (es.flatMap entryLines).length }, h.renewAll s es⟩) := by
  induction es generalizing n h with
  | nil => rfl
  | cons e es ih =>
    obtain ⟨x, hx⟩ := Option.isSome_iff_exists.1 (kind e (by simp))
    have id : e.value.shape.echo.id? = some x := by
      rw [Shape.echo_id?, Value.shape_id?, hx]
    have lines : lineBytes ((e :: es).flatMap entryLines) ++ more =
        lineBytes [[if e.finalized then '1' else '0']] ++ (lineBytes e.value.shape.lines ++
          (lineBytes (es.flatMap entryLines) ++ more)) := by
      rw [List.flatMap_cons, entryLines, ← List.singleton_append, lineBytes_append,
        lineBytes_append, List.append_assoc, List.append_assoc]
    have rest := ih (fun e he => kind e (List.mem_cons_of_mem _ he))
      (fun e he => fits e (List.mem_cons_of_mem _ he)) (n + 1 + e.value.shape.lines.length)
      (h.renew s e)
    rw [lines, List.length_cons, restoreEntries, readFlag_written]
    simp only
    rw [readPinned_written (fits e (by simp)) id]
    simp only
    refine Eq.trans rest ?_
    simp only [renewAll, List.foldl_cons, List.flatMap_cons, entryLines, List.length_append,
      List.length_cons]
    congr 3
    omega

theorem countLine_reads {suffix : List Char} {c : Char} (newline : '\n' ∉ suffix)
    (ending : suffix.getLast? = some c) (plain : c ≠ '\r') (n : Nat) :
    Reads readLine [digits n ++ suffix] (String.ofList (digits n ++ suffix)) := by
  have clean : '\n' ∉ digits n ++ suffix := by
    intro mem
    rcases List.mem_append.1 mem with mem | mem
    · exact (digits_allDigits _).solid.newline mem
    · exact newline mem
  have kept : dropReturn (digits n ++ suffix) = digits n ++ suffix := by
    rw [Shape.dropReturn_eq_iff, List.getLast?_append, ending]
    exact fun same => plain (Option.some.inj same)
  have read := readLine_reads clean
  rwa [kept] at read

theorem countBefore?_written (suffix : List Char) {n : Nat} (small : n ≤ wordLimit) :
    countBefore? suffix (String.ofList (digits n ++ suffix)) = some n := by
  simp only [countBefore?, String.toList_ofList, dropSuffix?_append,
    (digits_allDigits n).solid.trimBlanks_eq, readNat_digits small]
  rfl

theorem restore_queueLines {es : List Entry} (few : es.length ≤ wordLimit)
    (kind : ∀ e ∈ es, e.value.isFinalizable = true) (fits : ∀ e ∈ es, e.value.shape.Fits)
    (more : List UInt8) (n : Nat) (h : Heap) :
    restore s ⟨{ rest := lineBytes (queueLines es) ++ more, line := n }, h⟩ =
      (.ok es.length, ⟨{ rest := more, line := n + (queueLines es).length }, h.renewAll s es⟩) := by
  have header : Reads readLine [digits es.length ++ pendingSuffix] _ :=
    countLine_reads (by decide) (c := 'n') rfl (by decide) es.length
  have entries := restoreEntries_written (s := s) kind fits more
    (n + [digits es.length ++ pendingSuffix].length) h
  have bytes : lineBytes (queueLines es) ++ more =
      lineBytes [digits es.length ++ pendingSuffix] ++
        (lineBytes (es.flatMap entryLines) ++ more) := by
    rw [← List.append_assoc, ← lineBytes_append]
    rfl
  rw [bytes]
  simp only [restore, Intake.read]
  rw [header]
  simp only [countBefore?_written pendingSuffix few, entries]
  simp only [queueLines, List.length_cons, List.length_nil]
  congr 3
  omega

theorem restore_written {es : List Entry} (few : es.length < Shape.lengthLimit)
    (kind : ∀ e ∈ es, e.value.isFinalizable = true) (fits : ∀ e ∈ es, e.value.shape.Fits)
    (h : Heap) :
    (restore s ⟨.ofText (textOfLines (queueLines es)), h⟩).1 = .ok es.length ∧
      (restore s ⟨.ofText (textOfLines (queueLines es)), h⟩).2.heap = h.renewAll s es := by
  have small : es.length ≤ wordLimit := Nat.le_trans (Nat.le_of_lt few) (by decide)
  have read := restore_queueLines (s := s) small kind fits [] 0 h
  rw [List.append_nil] at read
  rw [ofText_textOfLines, read]
  exact ⟨rfl, rfl⟩

end Intake

namespace Workspace

open Heap

/-- A queue as it is written down. -/
def written (w : Workspace) : Text.Source := .ofText (textOfLines (queueLines w.entries))

/-- An empty workspace into which the queue of another one is read. -/
def restart (w : Workspace) : Workspace := (start.restore w.written).2.2

def writtenIds (w : Workspace) : List UInt64 := w.entries.flatMap fun e => e.value.shape.ids

/-- A queue that can be written: no length in it is past what a machine word holds. -/
structure Writable (w : Workspace) : Prop where
  few : w.entries.length < Shape.lengthLimit
  fits : ∀ e ∈ w.entries, e.value.shape.Fits

variable {s : SinkId} {past : List Happening} {w : Workspace} {x : UInt64}

/-! ## The restarted workspace -/

theorem start_guarded : Guarded 0 start.heap := by
  refine ⟨?_, ?_, ⟨[], rfl⟩, ?_⟩
  · intro c cell hc
    simp [start, newQueue, cell?] at hc
  · intro c cell hc
    simp [start, newQueue, cell?] at hc
  · intro t es ht
    have lt := queue?_lt ht
    exact Nat.lt_one_iff.1 lt

theorem restore_written_eq (writable : w.Writable)
    (kind : ∀ e ∈ w.entries, e.value.isFinalizable = true) :
    (start.restore w.written).1 = .ok w.entries.length ∧
      w.restart = { start with heap := start.heap.renewAll 0 w.entries } := by
  obtain ⟨result, heap⟩ := Intake.restore_written (s := 0) writable.few kind writable.fits start.heap
  refine ⟨result, ?_⟩
  rw [← heap]
  rfl

structure Restarted (w : Workspace) : Prop where
  complete : (start.restore w.written).1 = .ok w.entries.length
  resting : Resting 0 (readBack w.restart.entries) w.restart
  free : Ownerless 0 w.restart
  census : ∀ x, w.restart.heap.census x = w.writtenIds.count x
  started : w.restart.heap.startedIds 0 =
    (w.entries.filter Entry.finalized).map fun e => e.value.finalizableId?

theorem restarted (writable : w.Writable) (kind : ∀ e ∈ w.entries, e.value.isFinalizable = true) :
    Restarted w := by
  obtain ⟨result, frame⟩ := restore_written_eq writable kind
  obtain ⟨guarded, census, started⟩ :=
    @renewAll_renewed 0 start.heap [] [] start_sound.balanced start_guarded _ kind
  have rest := (start_resting.carryOut_one (d := .restore w.written) trivial).1
  refine ⟨result, rest, ?_, fun x => ?_, ?_⟩
  · rw [frame]
    exact ⟨rfl, rfl, guarded⟩
  · rw [frame]
    refine (census x).trans ?_
    rw [show start.heap.census x = 0 from rfl, Nat.zero_add]
    rfl
  · rw [frame]
    exact started

end Workspace
end MooCore
