import MooCore.Heap
/-!
# Building values

From a shape to a value of that shape in fresh cells. Members are built first, in order; in a map
a repeated key keeps its place and takes the last value.
-/

set_option autoImplicit false
namespace MooCore.Heap

mutual

def build (sink : Option SinkId) (h : Heap) : Shape → Value × Heap
  | .none => (.none, h)
  | .int n => (.int n, h)
  | .float x => (.float x, h)
  | .obj o => (.obj o, h)
  | .err e => (.err e, h)
  | .str s => h.newStr s
  | .list xs =>
    let (vs, h) := buildAll sink h xs
    h.newList vs
  | .map kvs =>
    let (kvs, h) := buildPairs sink h kvs
    h.newMap kvs
  | .anon id parent => h.newAnon sink id parent
  | .waif id cls owner ps =>
    let (vs, h) := buildAll sink h ps
    h.newWaif sink id cls owner vs

def buildAll (sink : Option SinkId) (h : Heap) : List Shape → List Value × Heap
  | [] => ([], h)
  | x :: xs =>
    let (v, h) := build sink h x
    let (vs, h) := buildAll sink h xs
    (v :: vs, h)

def buildPairs (sink : Option SinkId) (h : Heap) :
    List (Shape × Shape) → List (Value × Value) × Heap
  | [] => ([], h)
  | (k, v) :: kvs =>
    let (k, h) := build sink h k
    let (v, h) := build sink h v
    let (kvs, h) := buildPairs sink h kvs
    ((k, v) :: kvs, h)

end

/-- A value without finalizable parts of its own, so without a queue. -/
def plain (h : Heap) (s : Shape) : Value × Heap := h.build none s

end MooCore.Heap
