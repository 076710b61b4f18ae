import MooCore.Finalization
import MooCore.Task.Body
/-!
# The object database

What the server needs of its database of permanent objects: a section in each checkpoint, who is a
wizard, the finalizer of a value that is about to go, and the numbers that are taken.
-/

set_option autoImplicit false
namespace MooCore

structure Database where
  /-- how many objects there are -/
  objects : Nat := 0
  /-- how many objects were read from a checkpoint -/
  restored : Option Nat := none
  isWizard : Obj → Bool
  /-- the section in a checkpoint -/
  lines : Nat → List (List Char)
  /-- reads the section, whose anonymous objects and waifs go to the given queue; tells the number
  of objects if that is kept -/
  read : SinkId → Intake → Except DecodingError (Option Nat) × Intake
  finalizer : Value → Option Body
  /-- the highest number of an anonymous object or waif in the database -/
  maxId : Nat → Nat

/-- What the finalizer of a value does. -/
inductive FinalizerBehavior where
  | absent
  | succeed
  | raise (message : String)
deriving DecidableEq, Repr

namespace Database

def maxObjectId (d : Database) : Nat := d.maxId d.objects

def load (d : Database) (n : Option Nat) : Database :=
  match n with
  | some n => { d with objects := n, restored := some n }
  | none => d

/-! ## A database without objects -/

/-- No objects, no finalizers; only the server itself is a wizard. -/
def empty : Database where
  isWizard player := player = .system
  lines _ := ["0 objects".toList]
  read _ i := i.read do
    let _ ← Reader.readLine
    pure none
  finalizer _ := none
  maxId _ := 0

/-! ## A database of placeholders -/

def objectsSuffix : List Char := " objects".toList

/-- A line with the number of objects, and one for each object, which are numbered from 1. -/
def placeholderLines (n : Nat) : List (List Char) :=
  (Text.digits n ++ objectsSuffix) :: (List.range n).map fun i => '#' :: Text.digits (i + 1)

def skipLines : Nat → Reader Unit
  | 0 => pure ()
  | n + 1 => do
    let _ ← Reader.readLine
    skipLines n

/-- The number in front of the suffix, with nothing else about it. -/
def objectCount? (header : String) : Option Nat :=
  match Text.dropSuffix? objectsSuffix header.toList with
  | none => none
  | some front => (Text.readNat Text.wordLimit front).toOption

def readPlaceholders : Reader (Option Nat) := do
  let header ← Reader.readLine
  match objectCount? header with
  | none => Reader.failAt (.badObjectCount · header)
  | some n => do
    skipLines n
    pure (some n)

def finalizerBody (message : Option String) (v : Value) : Body where
  description := "finalizer"
  held := [v]
  step _ _ :=
    .andThen (.remark (.finalized (v.finalizableId?.getD 0))) <|
    .andThen (.release [v]) <|
    match message with
    | some message => .abort message
    | none => .complete .none

/-- Some objects, some wizards beside the server itself, and one kind of finalizer. -/
def placeholders (objects : Nat) (wizards : List Obj) (behavior : FinalizerBehavior) : Database where
  objects
  isWizard player := player = .system || wizards.contains player
  lines := placeholderLines
  read _ i := i.read readPlaceholders
  finalizer v := match behavior with
    | .absent => none
    | .succeed => some (finalizerBody none v)
    | .raise message => some (finalizerBody (some message) v)
  maxId n := n

end Database
end MooCore
