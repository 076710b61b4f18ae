/-!
# Time

Points in time are nanoseconds on a clock that never stands still between two readings.
-/

set_option autoImplicit false
namespace MooCore

abbrev Instant := Nat

def millisecond : Nat := 1000000

def second : Nat := 1000 * millisecond

end MooCore
