import MooCore.Finalization
import MooCore.Named
/-!
# A workspace of named owners

Values held under names, pins held under names, and one finalization queue. Every operation a
holder of values can perform is an operation here, so a run of a workspace is a list of
operations. Storing under a name in use gives up the old value after the new one is made.
-/

set_option autoImplicit false
namespace MooCore

/-- How to make a value: from a shape, as another share of a named value, or from parts. A list
made of copies shares its elements and then gives up the ones it was made from. -/
inductive Recipe where
  | shape (s : Shape)
  | named (name : String)
  | list (elements : List Recipe)
  | copies (elements : List Recipe)
  | map (pairs : List (Recipe × Recipe))
  | waif (id : UInt64) (cls owner : Obj) (props : List Recipe)
deriving Inhabited

/-- What keeps a value from being made: the first name that stands for nothing, and the parts that
are complete before it, in the order in which they are let go. -/
structure Recipe.Gap where
  name : String
  complete : List Recipe := []

namespace Recipe.Gap

/-- The gap as it is met in a container of which some members are complete. -/
def behind (g : Gap) (members : List Recipe) : Gap :=
  { g with complete := g.complete ++ members }

mutual

def of? (known : String → Bool) : Recipe → Option Gap
  | .shape _ => none
  | .named name => if known name then none else some { name }
  | .list xs | .copies xs | .waif _ _ _ xs => among? known [] xs
  | .map kvs => amongPairs? known [] kvs

/-- The gap in the members of a container, behind those that are complete. -/
def among? (known : String → Bool) (done : List Recipe) : List Recipe → Option Gap
  | [] => none
  | x :: xs =>
    match of? known x with
    | some g => some (g.behind done)
    | none => among? known (done ++ [x]) xs

/-- The gap in the pairs of a map. A key without its value is let go before the pairs. -/
def amongPairs? (known : String → Bool) (done : List Recipe) :
    List (Recipe × Recipe) → Option Gap
  | [] => none
  | (k, v) :: kvs =>
    match of? known k with
    | some g => some (g.behind done)
    | none =>
      match of? known v with
      | some g => some (g.behind (k :: done))
      | none => amongPairs? known (done ++ [k, v]) kvs

end

end Recipe.Gap

namespace Heap

/-- A list of further shares of values that are given up afterwards. -/
def newListOfCopies (h : Heap) (vs : List Value) : Value × Heap :=
  let (v, h) := (h.shareAll vs).newList vs
  (v, h.releaseAll vs)

mutual

/-- Makes a value. A name that stands for nothing makes the empty value. -/
def make (names : Named String Value) (sink : Option SinkId) (h : Heap) : Recipe → Value × Heap
  | .shape s => h.build sink s
  | .named name =>
    match names.get? name with
    | some v => (v, h.share v)
    | none => (.none, h)
  | .list xs =>
    let (vs, h) := makeAll names sink h xs
    h.newList vs
  | .copies xs =>
    let (vs, h) := makeAll names sink h xs
    h.newListOfCopies vs
  | .map kvs =>
    let (kvs, h) := makePairs names sink h kvs
    h.newMap kvs
  | .waif id cls owner ps =>
    let (vs, h) := makeAll names sink h ps
    h.newWaif sink id cls owner vs

def makeAll (names : Named String Value) (sink : Option SinkId) (h : Heap) :
    List Recipe → List Value × Heap
  | [] => ([], h)
  | x :: xs =>
    let (v, h) := make names sink h x
    let (vs, h) := makeAll names sink h xs
    (v :: vs, h)

def makePairs (names : Named String Value) (sink : Option SinkId) (h : Heap) :
    List (Recipe × Recipe) → List (Value × Value) × Heap
  | [] => ([], h)
  | (k, v) :: kvs =>
    let (k, h) := make names sink h k
    let (v, h) := make names sink h v
    let (kvs, h) := makePairs names sink h kvs
    ((k, v) :: kvs, h)

end

end Heap

structure Workspace where
  heap : Heap := {}
  slots : Named String Value := []
  pins : Named String Value := []
  queue : Option SinkId := none
deriving Inhabited

namespace Workspace

def start : Workspace :=
  let (s, heap) := ({} : Heap).newQueue
  { heap, queue := some s }

def entries (w : Workspace) : List Entry :=
  match w.queue with
  | some s => w.heap.entries s
  | none => []

def store (w : Workspace) (name : String) (v : Value) : Workspace :=
  let old := w.slots.get? name
  let w := { w with slots := w.slots.set name v }
  match old with
  | some v => { w with heap := w.heap.release v }
  | none => w

def storePin (w : Workspace) (name : String) (v : Value) : Workspace :=
  let old := w.pins.get? name
  let w := { w with pins := w.pins.set name v }
  match old with
  | some v => { w with heap := w.heap.dropPin v }
  | none => w

def make (w : Workspace) (attached : Bool) (r : Recipe) : Value × Workspace :=
  let (v, heap) := w.heap.make w.slots (if attached then w.queue else none) r
  (v, { w with heap })

def discard (w : Workspace) (r : Recipe) : Workspace :=
  let (v, w) := w.make true r
  { w with heap := w.heap.release v }

/-- Makes a value if every name in it stands for one; or else the answer is the first name that does
not, and what was made until then is gone. -/
def tryMake (w : Workspace) (r : Recipe) : Except String Value × Workspace :=
  match Recipe.Gap.of? w.slots.has r with
  | some g => (.error g.name, g.complete.foldl discard w)
  | none =>
    let (v, w) := w.make true r
    (.ok v, w)

/-- What an owner of values can do. -/
inductive Op where
  | make (slot : String) (recipe : Recipe) (attached : Bool)
  | discard (recipe : Recipe)
  | share (source target : String)
  | release (slot : String)
  | child (slot : String) (place : Nat) (target : String)
  | claim (slot pin : String)
  | enqueue (slot : String)
  | take (pin : String)
  | revive (pin slot : String)
  | dropPin (pin : String)
  | dropQueue

/-- How an operation ended: done, with nothing to do it on, or refused. -/
inductive Reply where
  | done
  | nothing
  | refused (e : FinalizeError)
deriving DecidableEq, Repr

def share (w : Workspace) (source target : String) : Reply × Workspace :=
  match w.slots.get? source with
  | some v => (.done, { w with heap := w.heap.share v }.store target v)
  | none => (.nothing, w)

def release (w : Workspace) (slot : String) : Reply × Workspace :=
  match w.slots.get? slot with
  | some v => (.done, { w with slots := w.slots.erase slot, heap := w.heap.release v })
  | none => (.nothing, w)

def child (w : Workspace) (slot : String) (place : Nat) (target : String) : Reply × Workspace :=
  match (w.slots.get? slot).bind (·.child? place) with
  | some v => (.done, { w with heap := w.heap.share v }.store target v)
  | none => (.nothing, w)

def claim (w : Workspace) (slot pin : String) : Reply × Workspace :=
  match w.slots.get? slot with
  | none => (.nothing, w)
  | some v =>
    match w.heap.claim v with
    | .ok heap => (.done, { w with heap }.storePin pin v)
    | .error e => (.refused e, w)

def enqueue (w : Workspace) (slot : String) : Reply × Workspace :=
  match w.slots.get? slot, w.queue with
  | some v, some s =>
    match w.heap.enqueue s v with
    | .ok heap => (.done, { w with heap })
    | .error e => (.refused e, w)
  | _, _ => (.nothing, w)

def take (w : Workspace) (pin : String) : Reply × Workspace :=
  match w.queue with
  | none => (.nothing, w)
  | some s =>
    match w.heap.entries s with
    | [] => (.nothing, w)
    | e :: es => (.done, { w with heap := w.heap.putQueue s es }.storePin pin e.value)

def revive (w : Workspace) (pin slot : String) : Reply × Workspace :=
  match w.pins.get? pin with
  | some v => (.done, { w with heap := w.heap.share v }.store slot v)
  | none => (.nothing, w)

def dropPin (w : Workspace) (pin : String) : Reply × Workspace :=
  match w.pins.get? pin with
  | some v => (.done, { w with pins := w.pins.erase pin, heap := w.heap.dropPin v })
  | none => (.nothing, w)

def dropQueue (w : Workspace) : Reply × Workspace :=
  match w.queue with
  | some s => (.done, { w with queue := none, heap := w.heap.dropQueue s })
  | none => (.nothing, w)

def apply (w : Workspace) : Op → Reply × Workspace
  | .make slot r attached =>
    let (v, w) := w.make attached r
    (.done, w.store slot v)
  | .discard r => (.done, w.discard r)
  | .share source target => w.share source target
  | .release slot => w.release slot
  | .child slot place target => w.child slot place target
  | .claim slot pin => w.claim slot pin
  | .enqueue slot => w.enqueue slot
  | .take pin => w.take pin
  | .revive pin slot => w.revive pin slot
  | .dropPin pin => w.dropPin pin
  | .dropQueue => w.dropQueue

def run (w : Workspace) (ops : List Op) : Workspace := ops.foldl (fun w op => (w.apply op).2) w

/-- A new queue takes the place of the old one, which goes away. -/
def renewQueue (w : Workspace) : Workspace :=
  let (s, heap) := w.heap.newQueue
  ({ w with heap }.dropQueue).2 |> fun w => { w with queue := some s }

/-! ## Passes over the queue -/

/-- What a finalizer does with the value it is given: operations, perhaps keeping the value under
a name once the pass is over, perhaps failing. One that holds the value under a name from the start
does everything else with it by its operations. -/
structure Finalizing where
  holdAs : Option String := none
  ops : List Op := []
  keepAs : Option String := none
  failure : Option FinalizerFailure := none

abbrev Dispatcher := Workspace → Value → Finalizing

abbrev Farewell := Workspace → Value → List Op

/-- What a pass does to the values it handles. -/
inductive PassEvent where
  | finalize (v : Value) (refs : Nat)
  | failed (v : Value) (failure : FinalizerFailure)
  | destroy (v : Value) (refs : Nat)

/-- A pass under way. -/
structure Pass where
  workspace : Workspace
  stats : DrainStats := {}
  events : List PassEvent := []
  kept : List (String × Value) := []

namespace Pass

def note (p : Pass) (e : PassEvent) : Pass := { p with events := p.events ++ [e] }

def fail (p : Pass) (v : Value) : Option FinalizerFailure → Pass
  | some f => { p.note (.failed v f) with stats := { p.stats with failed := p.stats.failed + 1 } }
  | none => p

/-- Ends a finalizer that does not hold its value: the value is kept until the pass is over, or let
go. -/
def surrender (p : Pass) (v : Value) : Option String → Pass
  | some name => { p with kept := p.kept ++ [(name, v)] }
  | none => { p with workspace := { p.workspace with heap := p.workspace.heap.release v } }

/-- Runs the finalizer of one value on a fresh reference to it. -/
def finalize (dispatch : Dispatcher) (p : Pass) (v : Value) : Pass :=
  let w := { p.workspace with heap := p.workspace.heap.share v }
  let does := dispatch w v
  let p := { p with stats := { p.stats with finalized := p.stats.finalized + 1 } }
  let p := p.note (.finalize v (w.heap.refs v))
  match does.holdAs with
  | some name => { p with workspace := (w.store name v).run does.ops }.fail v does.failure
  | none => ({ p with workspace := w.run does.ops }.fail v does.failure).surrender v does.keepAs

def destroy (farewell : Farewell) (p : Pass) (v : Value) : Pass :=
  let p := p.note (.destroy v (p.workspace.heap.refs v))
  let w := p.workspace.run (farewell p.workspace v)
  { p with
    stats := { p.stats with freed := p.stats.freed + 1 }
    workspace := { w with heap := w.heap.dropPin v } }

end Pass

/-- One pass: finalizers first, then the entries that are done with. -/
def drainOnce (dispatch : Dispatcher) (farewell : Farewell) (s : SinkId) (w : Workspace) : Pass :=
  let (fresh, heap) := w.heap.beginPass s
  let p : Pass := { workspace := { w with heap } }
  let p := fresh.foldl (Pass.finalize dispatch) p
  let (done, heap) := p.workspace.heap.endPass s
  let p := { p with workspace := { p.workspace with heap } }
  done.foldl (Pass.destroy farewell) p

def storeAll (w : Workspace) (kept : List (String × Value)) : Workspace :=
  kept.foldl (fun w (name, v) => w.store name v) w

/-- One pass, after which the values that finalizers kept are stored under their names. -/
def drain (dispatch : Dispatcher) (w : Workspace) (farewell : Farewell := fun _ _ => []) : Pass :=
  match w.queue with
  | none => { workspace := w }
  | some s =>
    let p := w.drainOnce dispatch farewell s
    { p with workspace := p.workspace.storeAll p.kept }

def restore (w : Workspace) (source : Text.Source) :
    Except DecodingError Nat × Text.Source × Workspace :=
  match w.queue with
  | none => (.ok 0, source, w)
  | some s =>
    let (result, i) := Intake.restore s { source, heap := w.heap }
    (result, i.source, { w with heap := i.heap })

end Workspace
end MooCore
