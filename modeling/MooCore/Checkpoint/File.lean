import MooCore.Checkpoint.Directory
import MooCore.Checkpoint.Reason
import MooCore.Database
/-!
# Checkpoint files

A checkpoint is a heading, the number of background threads in flight, the section of the database
and the finalization queue, line by line. Reading one back restores the database and puts the
entries behind those that are in the queue already.
-/

set_option autoImplicit false
namespace MooCore.Checkpoint

/-- Why a checkpoint was not written or not read. -/
inductive FileError where
  | notConfigured
  | io (fault : FileFault)
  | decoding (path : String) (e : DecodingError)
  | badHeader (path : String)
  | isDirectory (path : String)
deriving DecidableEq, Repr

namespace FileError
open Text (quoted)

def message : FileError → String
  | notConfigured => "No checkpoint directory configured"
  | io fault => "Checkpoint I/O error: " ++ fault.message
  | decoding path e => String.join ["Could not read checkpoint ", quoted path, ": ", e.message]
  | badHeader path => quoted path ++ " is not a checkpoint"
  | isDirectory path =>
    String.join ["Could not read checkpoint ", quoted path, ": I/O error: ",
      FileFault.isDirectory.message]

end FileError

def headingPrefix : List Char := "** stunt checkpoint".toList

def heading (reason : Reason) : List Char :=
  headingPrefix ++ " (".toList ++ reason.name.toList ++ ") **".toList

def inFlightSuffix : List Char := " background threads in flight".toList

def lines (reason : Reason) (inFlight : Nat) (db : Database) (entries : List Entry) :
    List (List Char) :=
  heading reason :: (Text.digits inFlight ++ inFlightSuffix) ::
    (db.lines db.objects ++ Heap.queueLines entries)

/-- What was read from a checkpoint: the threads that were running when it was taken, whose tasks
do not come back, and the values that wait for finalization. -/
structure Summary where
  inFlight : Nat
  pending : Nat
deriving DecidableEq, Repr

/-- Reads a checkpoint that is kept under `path` into the database and a queue. -/
def restore (path : String) (s : SinkId) (db : Database) (i : Intake) :
    Except FileError Summary × Database × Intake :=
  match i.read Reader.readLine with
  | (.error e, i) => (.error (.decoding path e), db, i)
  | (.ok header, i) =>
    if (Text.dropPrefix? headingPrefix header.toList).isNone then
      (.error (.badHeader path), db, i)
    else
      match i.read Reader.readLine with
      | (.error e, i) => (.error (.decoding path e), db, i)
      | (.ok header, i) =>
        match Intake.countBefore? inFlightSuffix header with
        | none => (.error (.badHeader path), db, i)
        | some inFlight =>
          match db.read s i with
          | (.error e, i) => (.error (.decoding path e), db, i)
          | (.ok n, i) =>
            let db := db.load n
            match i.restore s with
            | (.error e, i) => (.error (.decoding path e), db, i)
            | (.ok pending, i) => (.ok { inFlight, pending }, db, i)

namespace Directory

def load (d : Directory) (name : String) (s : SinkId) (db : Database) (heap : Heap) :
    Except FileError Summary × Database × Heap :=
  match d.find name with
  | .error fault => (.error (.io fault), db, heap)
  | .ok .directory => (.error (.isDirectory (d.fullName name)), db, heap)
  | .ok (.file content) =>
    let (result, db, i) :=
      restore (d.fullName name) s db { source := Text.Source.ofBytes content, heap }
    (result, db, i.heap)

end Directory
end MooCore.Checkpoint
