import MooCore.Value
/-!
# Equality of values

Scalars and texts are equal by content. Lists and maps are equal when they are one cell or their
contents are equal place by place. Anonymous objects and waifs are equal only to themselves.
-/

set_option autoImplicit false
namespace MooCore.Value

mutual

def equal : Value → Value → Bool
  | none, none => true
  | int m, int n => m == n
  | float x, float y => x.equal y
  | obj o, obj p => o == p
  | err e, err f => e == f
  | str _ s, str _ t => s == t
  | list c xs, list d ys => c == d || equalAll xs ys
  | map c kvs, map d lws => c == d || equalPairs kvs lws
  | anon c .., anon d .. => c == d
  | waif c .., waif d .. => c == d
  | _, _ => false

def equalAll : List Value → List Value → Bool
  | [], [] => true
  | x :: xs, y :: ys => equal x y && equalAll xs ys
  | _, _ => false

def equalPairs : List (Value × Value) → List (Value × Value) → Bool
  | [], [] => true
  | (k, v) :: kvs, (l, w) :: lws => equal k l && equal v w && equalPairs kvs lws
  | _, _ => false

end

def lookup (pairs : List (Value × Value)) (key : Value) : Option Value :=
  (pairs.find? fun (k, _) => k.equal key).map Prod.snd

/-- The error of an error map: a map with an error under the key `error`. -/
def errorMapCode? : Value → Option ErrorCode
  | map _ kvs =>
    match kvs.find? fun (k, _) => match k with | str _ s => s == "error" | _ => false with
    | some (_, err e) => some e
    | _ => Option.none
  | _ => Option.none

end MooCore.Value
