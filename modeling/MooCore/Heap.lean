import MooCore.Text.Integer
import MooCore.Value.Equality
/-!
# The heap

Every composite value lives in a cell with a count of the ordinary references to it. Pins keep a
cell without counting. A cell is freed when it has neither references nor pins, and lets go of its
contents then. An anonymous object or waif whose last reference goes is handed to its finalization
queue, once in its life, and stays pinned there.
-/

set_option autoImplicit false
namespace MooCore

/-- Marks for a cycle collector. -/
inductive Color where
  | green | yellow | black | gray | white | purple | pink
deriving DecidableEq, Repr, Inhabited

namespace Color

def all : List Color := [green, yellow, black, gray, white, purple, pink]

def ofNumber? (n : Nat) : Option Color := all[n]?

def name : Color → String
  | green => "Green"
  | yellow => "Yellow"
  | black => "Black"
  | gray => "Gray"
  | white => "White"
  | purple => "Purple"
  | pink => "Pink"

end Color

/-- A cell: its value, the counts that keep it, and its marks. A cell that is marked queued has
used up the one place it gets in a finalization queue. -/
structure Cell where
  value : Value
  refs : Nat := 1
  pins : Nat := 0
  color : Color
  buffered : Bool := false
  queued : Bool := false
deriving Inhabited

def Cell.fresh (v : Value) : Cell :=
  { value := v, color := if v.mayCycle then .black else .green }

def Cell.describe (c : Cell) : String :=
  String.join ["Header \x7b refs: ", Text.natText c.refs, ", color: ", c.color.name,
    ", buffered: ", toString c.buffered, ", queued: ", toString c.queued, " \x7d"]

/-- A value waiting in a finalization queue, and whether its finalizer has been started. -/
structure Entry where
  value : Value
  finalized : Bool
deriving Inhabited

/-- Why a value cannot be queued for finalization. -/
inductive FinalizeError where
  | alreadyQueued
  | notFinalizable
deriving DecidableEq, Repr

def FinalizeError.message : FinalizeError → String
  | alreadyQueued => "value is already pending finalization"
  | notFinalizable => "values of this type have no finalizer"

/-- All cells and all finalization queues ever made. A freed cell leaves a gap, so does a queue
that is gone. -/
structure Heap where
  cells : Array (Option Cell) := #[]
  queues : Array (Option (List Entry)) := #[]
  /-- how many releases found no reference to take away; kept for the record only -/
  overdrawn : Nat := 0
deriving Inhabited

namespace Heap

def cell? (h : Heap) (c : CellId) : Option Cell := (h.cells[c]?).join

def queue? (h : Heap) (s : SinkId) : Option (List Entry) := (h.queues[s]?).join

def put (h : Heap) (c : CellId) (cell : Cell) : Heap :=
  { h with cells := h.cells.setIfInBounds c (some cell) }

def erase (h : Heap) (c : CellId) : Heap :=
  { h with cells := h.cells.setIfInBounds c none }

def putQueue (h : Heap) (s : SinkId) (entries : List Entry) : Heap :=
  { h with queues := h.queues.setIfInBounds s (some entries) }

def adjust (h : Heap) (c : CellId) (f : Cell → Cell) : Heap :=
  match h.cell? c with
  | some cell => h.put c (f cell)
  | none => h

def cellOf? (h : Heap) (v : Value) : Option Cell := v.cell?.bind h.cell?

def refs? (h : Heap) (v : Value) : Option Nat := (h.cellOf? v).map Cell.refs

def refs (h : Heap) (v : Value) : Nat := (h.refs? v).getD 0

def isQueued (h : Heap) (v : Value) : Bool := (h.cellOf? v).any Cell.queued

def modify (h : Heap) (v : Value) (f : Cell → Cell) : Heap :=
  match v.cell? with
  | some c => h.adjust c f
  | none => h

/-! ## Making values -/

def alloc (h : Heap) (make : CellId → Value) : Value × Heap :=
  let v := make h.cells.size
  (v, { h with cells := h.cells.push (some (Cell.fresh v)) })

def share (h : Heap) (v : Value) : Heap := h.modify v fun cell => { cell with refs := cell.refs + 1 }

def shareAll (h : Heap) (vs : List Value) : Heap := vs.foldl share h

def newStr (h : Heap) (s : String) : Value × Heap := h.alloc fun c => .str c s

def newList (h : Heap) (xs : List Value) : Value × Heap := h.alloc fun c => .list c xs

def newAnon (h : Heap) (sink : Option SinkId) (id : UInt64) (parent : Obj) : Value × Heap :=
  h.alloc fun c => .anon c sink id parent

def newWaif (h : Heap) (sink : Option SinkId) (id : UInt64) (cls owner : Obj) (props : List Value) :
    Value × Heap :=
  h.alloc fun c => .waif c sink id cls owner props

/-! ## Letting go -/

/-- Hands a finalizable value without references to its queue, unless it was queued before or the
queue is gone. -/
def handOff (h : Heap) (v : Value) (c : CellId) (cell : Cell) : Heap :=
  match v.sink? with
  | none => h
  | some s =>
    match h.queue? s with
    | none => h
    | some entries =>
      if cell.queued then h
      else (h.put c { cell with queued := true, pins := cell.pins + 1 }).putQueue s
        (entries ++ [⟨v, false⟩])

def reap (h : Heap) (c : CellId) : Bool × Heap :=
  match h.cell? c with
  | some cell => if cell.refs = 0 ∧ cell.pins = 0 then (true, h.erase c) else (false, h)
  | none => (false, h)

def overdraw (h : Heap) : Heap := { h with overdrawn := h.overdrawn + 1 }

/-- Takes one reference away, and says whether the cell was freed by that. -/
def dropRef (h : Heap) (v : Value) (c : CellId) : Bool × Heap :=
  match h.cell? c with
  | none => (false, h.overdraw)
  | some cell =>
    if cell.refs = 0 then (false, h.overdraw)
    else if cell.refs = 1 then
      let cell := { cell with refs := 0 }
      ((h.put c cell).handOff v c cell).reap c
    else
      let color := if v.mayCycle then .purple else cell.color
      (false, h.put c { cell with refs := cell.refs - 1, color })

mutual

/-- Gives up one reference. -/
def release (h : Heap) : Value → Heap
  | .none | .int _ | .float _ | .obj _ | .err _ => h
  | .str c s => (h.dropRef (.str c s) c).2
  | .list c xs =>
    match h.dropRef (.list c xs) c with
    | (true, h) => releaseAll h xs
    | (false, h) => h
  | .map c kvs =>
    match h.dropRef (.map c kvs) c with
    | (true, h) => releasePairs h kvs
    | (false, h) => h
  | .anon c s id parent => (h.dropRef (.anon c s id parent) c).2
  | .waif c s id cls owner ps =>
    match h.dropRef (.waif c s id cls owner ps) c with
    | (true, h) => releaseAll h ps
    | (false, h) => h

def releaseAll (h : Heap) : List Value → Heap
  | [] => h
  | v :: vs => releaseAll (release h v) vs

def releasePairs (h : Heap) : List (Value × Value) → Heap
  | [] => h
  | (k, v) :: kvs => releasePairs (release (release h k) v) kvs

end

def dropPin (h : Heap) (v : Value) : Heap :=
  match v.cell? with
  | none => h
  | some c =>
    match (h.adjust c fun cell => { cell with pins := cell.pins - 1 }).reap c with
    | (true, h) => h.releaseAll v.children
    | (false, h) => h

def dropPins (h : Heap) (vs : List Value) : Heap := vs.foldl dropPin h

/-! ## Maps -/

/-- Adds a pair. A key that is present keeps its place and takes the new value; what the map has
no more use for comes second. -/
def insertPair : List (Value × Value) → Value → Value → List (Value × Value) × List Value
  | [], k, v => ([(k, v)], [])
  | (l, w) :: kvs, k, v =>
    if l.equal k then ((l, v) :: kvs, [w, k])
    else
      let (kvs, dropped) := insertPair kvs k v
      ((l, w) :: kvs, dropped)

def insertPairs : List (Value × Value) → List (Value × Value) → List (Value × Value) × List Value
  | kept, [] => (kept, [])
  | kept, (k, v) :: kvs =>
    let (kept, dropped) := insertPair kept k v
    let (kept, more) := insertPairs kept kvs
    (kept, dropped ++ more)

def newMap (h : Heap) (kvs : List (Value × Value)) : Value × Heap :=
  let (kept, dropped) := insertPairs [] kvs
  (h.releaseAll dropped).alloc fun c => .map c kept

/-! ## Claims and pins -/

/-- Uses up the place in a finalization queue and pins the value. -/
def claim (h : Heap) (v : Value) : Except FinalizeError Heap :=
  if v.isFinalizable then
    if h.isQueued v then .error .alreadyQueued
    else .ok (h.modify v fun cell => { cell with queued := true, pins := cell.pins + 1 })
  else .error .notFinalizable

end Heap
end MooCore
