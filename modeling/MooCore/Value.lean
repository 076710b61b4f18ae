import MooCore.Binary64
import MooCore.ErrorCode
/-!
# Values

A value is a scalar or a composite. Composites live in heap cells; the value carries the number of
its cell beside its contents, and contents never change, so a value is a finite tree in which equal
cell numbers mean one and the same cell. A shape is a value with cells and sinks forgotten: what
writing shows and reading gives back.
-/

set_option autoImplicit false
namespace MooCore

/-- The number of a permanent object. -/
structure Obj where
  number : Int64
deriving DecidableEq, Repr

def Obj.system : Obj := ⟨0⟩

def Obj.nothing : Obj := ⟨-1⟩

abbrev CellId := Nat

abbrev SinkId := Nat

/-- A value in the heap. An anonymous object or a waif names the queue, if any, that takes it over
when its last reference goes. -/
inductive Value where
  | none
  | int (n : Int64)
  | float (x : Binary64)
  | obj (o : Obj)
  | err (e : ErrorCode)
  | str (cell : CellId) (s : String)
  | list (cell : CellId) (elements : List Value)
  | map (cell : CellId) (pairs : List (Value × Value))
  | anon (cell : CellId) (sink : Option SinkId) (id : UInt64) (parent : Obj)
  | waif (cell : CellId) (sink : Option SinkId) (id : UInt64) (cls owner : Obj) (props : List Value)
deriving Inhabited

/-- A value without cells and sinks. -/
inductive Shape where
  | none
  | int (n : Int64)
  | float (x : Binary64)
  | obj (o : Obj)
  | err (e : ErrorCode)
  | str (s : String)
  | list (elements : List Shape)
  | map (pairs : List (Shape × Shape))
  | anon (id : UInt64) (parent : Obj)
  | waif (id : UInt64) (cls owner : Obj) (props : List Shape)
deriving Inhabited

namespace Shape

def bool (b : Bool) : Shape := .int (if b then 1 else 0)

def nat (n : Nat) : Shape := .int (Int64.ofNat n)

/-- What an operation hands back in place of a result: the error under one key, its text under
another. -/
def errorMap (e : ErrorCode) (message : String) : Shape :=
  .map [(.str "error", .err e), (.str "message", .str message)]

end Shape

namespace Value

def cell? : Value → Option CellId
  | str c _ | list c _ | map c _ | anon c .. | waif c .. => some c
  | none | int _ | float _ | obj _ | err _ => Option.none

/-- The values directly inside, in the order in which they are let go. -/
def children : Value → List Value
  | list _ xs => xs
  | map _ kvs => kvs.flatMap fun (k, v) => [k, v]
  | waif _ _ _ _ _ ps => ps
  | none | int _ | float _ | obj _ | err _ | str .. | anon .. => []

/-- The element of a list, the value of a map or the property of a waif at a place. -/
def child? (v : Value) (i : Nat) : Option Value :=
  match v with
  | list _ xs => xs[i]?
  | map _ kvs => kvs[i]?.map Prod.snd
  | waif _ _ _ _ _ ps => ps[i]?
  | none | int _ | float _ | obj _ | err _ | str .. | anon .. => Option.none

/-- Anonymous objects and waifs have a finalizer, and with it an identity number. -/
def finalizableId? : Value → Option UInt64
  | anon _ _ id _ | waif _ _ id .. => some id
  | none | int _ | float _ | obj _ | err _ | str .. | list .. | map .. => Option.none

def isFinalizable (v : Value) : Bool := v.finalizableId?.isSome

def sink? : Value → Option SinkId
  | anon _ s .. | waif _ s .. => s
  | none | int _ | float _ | obj _ | err _ | str .. | list .. | map .. => Option.none

/-- Only text holds no reference to anything, so it never takes part in a cycle. -/
def mayCycle : Value → Bool
  | str .. => false
  | _ => true

def isTrue : Value → Bool
  | int n => n != 0
  | float x => !x.isZero
  | str _ s => !s.isEmpty
  | list _ xs => !xs.isEmpty
  | map _ kvs => !kvs.isEmpty
  | none | obj _ | err _ | anon .. | waif .. => false

mutual

def shape : Value → Shape
  | none => .none
  | int n => .int n
  | float x => .float x
  | obj o => .obj o
  | err e => .err e
  | str _ s => .str s
  | list _ xs => .list (shapes xs)
  | map _ kvs => .map (pairShapes kvs)
  | anon _ _ id parent => .anon id parent
  | waif _ _ id cls owner ps => .waif id cls owner (shapes ps)

def shapes : List Value → List Shape
  | [] => []
  | v :: vs => v.shape :: shapes vs

def pairShapes : List (Value × Value) → List (Shape × Shape)
  | [] => []
  | (k, v) :: kvs => (k.shape, v.shape) :: pairShapes kvs

end

end Value
end MooCore
