/-!
# Things under names

A list of pairs in which a name stands at most once, in the order in which the names were first
used. Setting a name that is in use replaces what it stands for.
-/

set_option autoImplicit false
namespace MooCore

abbrev Named (κ α : Type) := List (κ × α)

namespace Named
variable {κ α : Type} [DecidableEq κ]

def get? (xs : Named κ α) (name : κ) : Option α :=
  (xs.find? fun x => x.1 = name).map Prod.snd

def has (xs : Named κ α) (name : κ) : Bool := xs.any fun x => x.1 = name

def set (xs : Named κ α) (name : κ) (a : α) : Named κ α :=
  match xs with
  | [] => [(name, a)]
  | x :: rest => if x.1 = name then (name, a) :: rest else x :: set rest name a

def erase (xs : Named κ α) (name : κ) : Named κ α := xs.eraseP fun x => x.1 = name

def update (xs : Named κ α) (name : κ) (f : α → α) : Named κ α :=
  xs.map fun x => if x.1 = name then (x.1, f x.2) else x

end Named
end MooCore
