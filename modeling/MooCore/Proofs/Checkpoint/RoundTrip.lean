import MooCore.Checkpoint.File
import MooCore.Proofs.Checkpoint.Writing
import MooCore.Proofs.Finalization.Renewal
/-!
# Checkpoints that come back

A checkpoint is a heading, a count, the section of the database and a queue, each read by lines of
its own. If the database reads just what it wrote, the queue starts where it was written, and what
is appended to the queue that reads it are the entries that were written.
-/

set_option autoImplicit false
namespace MooCore

open Text Heap Reader

/-! ## The section of a database -/

namespace Database

/-- What one database wrote is read by another, and nothing behind it. Whatever that does to the
heap, it does nothing to the queues. -/
structure ReadsBack (db db' : Database) (s : SinkId) (found : Option Nat) (h h' : Heap) : Prop where
  read : ∀ more n, db'.read s ⟨{ rest := lineBytes (db.lines db.objects) ++ more, line := n }, h⟩ =
    (.ok found, ⟨{ rest := more, line := n + (db.lines db.objects).length }, h'⟩)
  queues : h'.queues = h.queues

theorem objectCount?_written {n : Nat} (small : n ≤ wordLimit) :
    objectCount? (String.ofList (digits n ++ objectsSuffix)) = some n := by
  simp only [objectCount?, String.toList_ofList, dropSuffix?_append, readNat_digits small]
  rfl

theorem skipLines_reads {ls : List (List Char)} (clean : ∀ l ∈ ls, '\n' ∉ l) :
    Reads (skipLines ls.length) ls () := by
  induction ls with
  | nil => exact Reads.pure ()
  | cons l ls ih =>
    exact (readLine_reads (clean l (List.mem_cons_self ..))).bind
      (ih fun m hm => clean m (List.mem_cons_of_mem _ hm))

theorem readPlaceholders_reads {n : Nat} (small : n ≤ wordLimit) :
    Reads readPlaceholders (placeholderLines n) (some n) := by
  have header : Reads readLine [digits n ++ objectsSuffix] _ :=
    Intake.countLine_reads (by decide) (c := 's') rfl (by decide) n
  let objects := (List.range n).map fun i => '#' :: digits (i + 1)
  have clean : ∀ l ∈ objects, '\n' ∉ l := by
    intro l hl
    obtain ⟨i, -, rfl⟩ := List.mem_map.1 hl
    exact (Solid.cons rfl (digits_allDigits (i + 1)).solid).newline
  have skipped : Reads (skipLines n) objects () := by
    have skipped := skipLines_reads clean
    rwa [List.length_map, List.length_range] at skipped
  have found := skipped.map fun _ => some n
  refine header.bind ?_
  simp only [objectCount?_written small]
  exact found

theorem placeholders_readsBack {objects : Nat} (small : objects ≤ wordLimit)
    (other : Nat) (wizards wizards' : List Obj) (behavior behavior' : FinalizerBehavior)
    (s : SinkId) (h : Heap) :
    ReadsBack (placeholders objects wizards behavior) (placeholders other wizards' behavior') s
      (some objects) h h := by
  refine ⟨fun more n => ?_, rfl⟩
  have read := readPlaceholders_reads small more n
  simp only [placeholders, Intake.read]
  rw [read]

end Database

namespace Checkpoint

variable {reason : Reason} {inFlight : Nat} {db db' : Database} {es : List Entry} {s : SinkId}
  {found : Option Nat} {h h₁ : Heap}

theorem heading_reads (reason : Reason) :
    Reads readLine [heading reason] (String.ofList (heading reason)) := by
  have kept : dropReturn (heading reason) = heading reason := by cases reason <;> rfl
  have read := readLine_reads (l := heading reason) (by cases reason <;> decide)
  rwa [kept] at read

theorem heading_begins (reason : Reason) :
    (dropPrefix? headingPrefix (String.ofList (heading reason)).toList).isNone = false := by
  rw [String.toList_ofList, heading, List.append_assoc, List.append_assoc, dropPrefix?_append]
  rfl

theorem restore_lines (path : String) (small : inFlight ≤ wordLimit)
    (readable : db.ReadsBack db' s found h h₁) (few : es.length ≤ wordLimit)
    (kind : ∀ e ∈ es, e.value.isFinalizable = true) (fits : ∀ e ∈ es, e.value.shape.Fits) :
    restore path s db' ⟨.ofBytes (lineBytes (lines reason inFlight db es)), h⟩ =
      (.ok ⟨inFlight, es.length⟩, db'.load found,
        ⟨{ rest := [], line := (lines reason inFlight db es).length }, h₁.renewAll s es⟩) := by
  have count : Reads readLine [digits inFlight ++ inFlightSuffix] _ :=
    Intake.countLine_reads (by decide) (c := 't') rfl (by decide) inFlight
  have bytes : lineBytes (lines reason inFlight db es) =
      lineBytes [heading reason] ++ (lineBytes [digits inFlight ++ inFlightSuffix] ++
        (lineBytes (db.lines db.objects) ++ (lineBytes (queueLines es) ++ []))) := by
    rw [List.append_nil, ← lineBytes_append, ← lineBytes_append, ← lineBytes_append]
    rfl
  rw [bytes]
  simp only [restore, Intake.read, Source.ofBytes, heading_reads reason _ 0, heading_begins,
    Bool.false_eq_true, if_false, count _ _, Intake.countBefore?_written inFlightSuffix small,
    readable.read, Intake.restore_queueLines few kind fits]
  simp only [lines, List.length_cons, List.length_append, List.length_nil]
  congr 4
  omega

/-! ## Whole checkpoints -/

/-- An entry as the program makes it, with lengths that fit and no text that ends in a carriage
return. -/
structure Storable (e : Entry) : Prop where
  kind : e.value.isFinalizable = true
  made : e.value.Made
  fits : e.value.shape.Fits
  plain : e.value.shape.EndsPlainly

theorem Storable.renewable {e : Entry} (storable : Storable e) : Renewable e := by
  obtain ⟨echo, settled⟩ := Value.echo_shape storable.made storable.plain
  exact ⟨storable.kind, echo, settled⟩

namespace Directory

variable {d d' : Directory} {stamp : Nat} {failing : Option WriteStep} {name : String}

/-- A heap whose queue holds something already. -/
def heldHeap : Heap where
  cells := #[some { Cell.fresh (.anon 0 (some 0) 3 ⟨0⟩) with refs := 0, pins := 1, queued := true }]
  queues := #[some [⟨.anon 0 (some 0) 3 ⟨0⟩, false⟩]]

end Directory
end Checkpoint
end MooCore
