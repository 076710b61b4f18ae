import MooCore.Heap.Build
import MooCore.Text.Affix
import MooCore.Value.Decoding
/-!
# Finalization queues

Values wait in a queue for their finalizer and, once it has run, for their last reference to go.
The queue pins what it holds. One pass starts the finalizers of the new entries, in order, and
then takes out, in order, every entry whose finalizer has been started and that nothing refers to.
A queue can be written down and read back; what is read back is claimed at once, so it is not
queued a second time.
-/

set_option autoImplicit false
namespace MooCore

/-- How many entries a queue has in each state. -/
structure QueueStats where
  queued : Nat
  awaitingFinalizer : Nat
  awaitingRelease : Nat
deriving DecidableEq, Repr

/-- What one pass did. -/
structure DrainStats where
  finalized : Nat := 0
  failed : Nat := 0
  freed : Nat := 0
deriving DecidableEq, Repr

/-- One entry as it is listed. -/
structure EntrySummary where
  id : UInt64
  finalized : Bool
  refs : Nat
deriving DecidableEq, Repr

/-- Why a finalizer failed. -/
structure FinalizerFailure where
  reason : String
deriving DecidableEq, Repr

def FinalizerFailure.message (f : FinalizerFailure) : String := "Finalizer aborted: " ++ f.reason

namespace Heap

def newQueue (h : Heap) : SinkId × Heap :=
  (h.queues.size, { h with queues := h.queues.push (some []) })

def entries (h : Heap) (s : SinkId) : List Entry := (h.queue? s).getD []

/-- A queue goes away: from then on nothing is handed to it, and its entries are unpinned. -/
def dropQueue (h : Heap) (s : SinkId) : Heap :=
  let gone := { h with queues := h.queues.setIfInBounds s none }
  gone.dropPins ((h.entries s).map Entry.value)

def pushEntry (h : Heap) (s : SinkId) (e : Entry) : Heap := h.putQueue s (h.entries s ++ [e])

def enqueue (h : Heap) (s : SinkId) (v : Value) : Except FinalizeError Heap :=
  (h.claim v).map fun h => h.pushEntry s ⟨v, false⟩

def queueStats (h : Heap) (s : SinkId) : QueueStats :=
  let es := h.entries s
  let waiting := (es.filter fun e => !e.finalized).length
  { queued := es.length, awaitingFinalizer := waiting, awaitingRelease := es.length - waiting }

def queueSummary (h : Heap) (s : SinkId) : List EntrySummary :=
  (h.entries s).map fun e =>
    { id := e.value.finalizableId?.getD 0, finalized := e.finalized, refs := h.refs e.value }

/-! ## A pass -/

/-- Marks every entry and gives those whose finalizer is to run now. -/
def beginPass (h : Heap) (s : SinkId) : List Value × Heap :=
  let es := h.entries s
  (((es.filter fun e => !e.finalized).map Entry.value),
    h.putQueue s (es.map fun e => { e with finalized := true }))

def isDone (h : Heap) (e : Entry) : Bool := e.finalized && h.refs e.value == 0

/-- Takes out the entries that are done with. They keep their pins. -/
def endPass (h : Heap) (s : SinkId) : List Value × Heap :=
  let es := h.entries s
  ((es.filter h.isDone).map Entry.value, h.putQueue s (es.filter fun e => !h.isDone e))

/-! ## Written form -/

def pendingSuffix : List Char := " values pending finalization".toList

def entryLines (e : Entry) : List (List Char) :=
  [if e.finalized then '1' else '0'] :: e.value.shape.lines

def queueLines (es : List Entry) : List (List Char) :=
  (Text.digits es.length ++ pendingSuffix) :: es.flatMap entryLines

def persist (h : Heap) (s : SinkId) : List (List Char) := queueLines (h.entries s)

/-- The complete members of an unfinished container, in reading order. -/
def frameMembers : Reader.Frame → List Shape
  | .list _ done | .waif _ _ _ _ done => done.reverse
  | .map _ done key => done.reverse.flatMap (fun (k, v) => [k, v]) ++ key.toList

/-- The order in which the members of an unfinished container are let go: a key without its value
comes first. -/
def frameOrder (f : Reader.Frame) (members : List Value) : List Value :=
  match f with
  | .map _ _ (some _) => members.getLast?.toList ++ members.dropLast
  | _ => members

/-- Builds what was read of unfinished containers, outermost first. -/
def buildFrames (sink : Option SinkId) (h : Heap) : List Reader.Frame → List Value × Heap
  | [] => ([], h)
  | f :: fs =>
    let (outer, h) := buildFrames sink h fs
    let (members, h) := h.buildAll sink (frameMembers f)
    (frameOrder f members ++ outer, h)

/-- Lets go of what was read of unfinished containers, innermost first. -/
def discardFrames (sink : Option SinkId) (h : Heap) (fs : List Reader.Frame) : Heap :=
  let (members, h) := h.buildFrames sink fs
  h.releaseAll members

end Heap

/-- Reading that makes values: it moves on in its source and changes the heap. -/
structure Intake where
  source : Text.Source
  heap : Heap
deriving Inhabited

namespace Intake

def read {α : Type} (r : Reader α) (i : Intake) : Except DecodingError α × Intake :=
  let (result, source) := r i.source
  (result, { i with source })

/-- Reads a value whose anonymous objects and waifs go to `sink`. -/
def readValue (sink : Option SinkId) (i : Intake) : Except DecodingError Value × Intake :=
  match Reader.readShape i.source with
  | (.ok shape, source) =>
    let (v, heap) := i.heap.build sink shape
    (.ok v, { source, heap })
  | (.error u, source) => (.error u.error, { source, heap := i.heap.discardFrames sink u.frames })

/-- Reads a value that was written from a queue: it comes claimed, pinned and unreferenced. -/
def readPinned (sink : Option SinkId) (i : Intake) : Except DecodingError Value × Intake :=
  match i.readValue sink with
  | (.error e, i) => (.error e, i)
  | (.ok v, i) =>
    match i.heap.claim v with
    | .ok heap => (.ok v, { i with heap := heap.release v })
    | .error _ =>
      (.error (.notFinalizable i.source.line), { i with heap := i.heap.release v })

def readFlag (i : Intake) : Except DecodingError Bool × Intake :=
  match i.read Reader.readInteger with
  | (.error e, i) => (.error e, i)
  | (.ok n, i) =>
    if n = 0 then (.ok false, i)
    else if n = 1 then (.ok true, i)
    else (.error (.badFlag i.source.line n), i)

/-- Reads entries into a queue. Those read before a fault stay there. -/
def restoreEntries (s : SinkId) (i : Intake) : Nat → Except DecodingError Unit × Intake
  | 0 => (.ok (), i)
  | n + 1 =>
    match i.readFlag with
    | (.error e, i) => (.error e, i)
    | (.ok finalized, i) =>
      match i.readPinned (some s) with
      | (.error e, i) => (.error e, i)
      | (.ok value, i) =>
        restoreEntries s { i with heap := i.heap.pushEntry s { value, finalized } } n

def countBefore? (suffix : List Char) (header : String) : Option Nat :=
  match Text.dropSuffix? suffix header.toList with
  | none => none
  | some front => (Text.readNat Text.wordLimit (Text.trimBlanks front)).toOption

/-- Reads back a written queue behind the entries already there, and gives their number. -/
def restore (s : SinkId) (i : Intake) : Except DecodingError Nat × Intake :=
  match i.read Reader.readLine with
  | (.error e, i) => (.error e, i)
  | (.ok header, i) =>
    match countBefore? Heap.pendingSuffix header with
    | none => (.error (.badPendingCount i.source.line header), i)
    | some n =>
      match restoreEntries s i n with
      | (.error e, i) => (.error e, i)
      | (.ok (), i) => (.ok n, i)

end Intake
end MooCore
