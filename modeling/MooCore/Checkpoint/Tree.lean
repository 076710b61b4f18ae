import MooCore.Checkpoint.Path
import MooCore.Named
/-!
# Files and directories

A tree tells what stands at the end of each way from a base: nothing, a directory, or a file. The
base, what lies above it, and the root are there from the start. Steps are followed through
directories only. A file or directory is made in a directory that is there; all directories of a
path can be made at once.
-/

set_option autoImplicit false
namespace MooCore.Checkpoint

abbrev Bytes := List UInt8

/-- Why something could not be found, read, made or written. -/
inductive FileFault where
  | notFound
  | alreadyThere
  | notDirectory
  | isDirectory
  | nameTooLong
  | nameWithNul
  | other (reason : String)
deriving DecidableEq, Repr

def FileFault.message : FileFault → String
  | notFound => "No such file or directory (os error 2)"
  | alreadyThere => "File exists (os error 17)"
  | notDirectory => "Not a directory (os error 20)"
  | isDirectory => "Is a directory (os error 21)"
  | nameTooLong => "File name too long (os error 36)"
  | nameWithNul => "file name contained an unexpected NUL byte"
  | other reason => reason

inductive Node where
  | directory
  | file (content : Bytes)
deriving DecidableEq, Repr

structure Tree where
  nodes : Named Way Node := []
deriving Repr

namespace Tree

def node? (t : Tree) (way : Way) : Option Node :=
  if Path.isUp way then some .directory else t.nodes.get? way

def put (t : Tree) (way : Way) (n : Node) : Tree := { nodes := t.nodes.set way n }

def remove (t : Tree) (way : Way) : Tree := { nodes := t.nodes.erase way }

def names (t : Tree) (here : Way) : List String :=
  t.nodes.filterMap fun (way, _) => if way.dropLast = here then way.getLast? else none

/-- Follows steps to something that is there, and gives the way to it. -/
def follow (t : Tree) (here : Way) : List String → Except FileFault Way
  | [] => if (t.node? here).isSome then .ok here else .error .notFound
  | step :: rest =>
    match t.node? here with
    | none => .error .notFound
    | some (.file _) => .error .notDirectory
    | some .directory => follow t (Path.move here step) rest

def enter (t : Tree) (here : Way) (steps : List String) : Except FileFault Way :=
  t.follow here (steps ++ [""])

def nameFault? (name : String) : Option FileFault :=
  if name.toList.contains '\x00' then some .nameWithNul
  else if name.utf8ByteSize > 255 then some .nameTooLong
  else none

/-- The way on which something new would stand. The steps to its directory are followed; the last
step has to be a name, or else the answer is `fault`. -/
def site (t : Tree) (here : Way) (before : List String) (name : String) (fault : FileFault) :
    Except FileFault Way :=
  match t.enter here before with
  | .error e => .error e
  | .ok parent =>
    if Path.isStay name ∨ name = ".." then .error fault
    else
      match nameFault? name with
      | some e => .error e
      | none => .ok (parent ++ [name])

def makeDirectory (t : Tree) (here : Way) (steps : List String) : Except FileFault Tree :=
  let steps := (steps.reverse.dropWhile (· = "")).reverse
  match t.site here steps.dropLast (steps.getLast?.getD "") .alreadyThere with
  | .error e => .error e
  | .ok way =>
    if (t.node? way).isSome then .error .alreadyThere else .ok (t.put way .directory)

def ensure (t : Tree) (here : Way) (steps : List String) : Except FileFault Tree :=
  match t.makeDirectory here steps, t.enter here steps with
  | .ok t, _ => .ok t
  | .error _, .ok _ => .ok t
  | .error e, .error _ => .error e

/-- Makes the directories that steps lead through, behind those that are done. If one cannot be
made, those before it are there. -/
def ensureEach (t : Tree) (here : Way) (done : List String) :
    List String → Except FileFault Unit × Tree
  | [] => (.ok (), t)
  | step :: rest =>
    match t.ensure here (done ++ [step]) with
    | .error e => (.error e, t)
    | .ok t => ensureEach t here (done ++ [step]) rest

/-- The steps to the directories above the one that steps lead to. -/
def above (steps : List String) : List String := (steps.filter (!Path.isStay ·)).dropLast

/-- Makes a directory, and those above it if they are missing; they stay if it cannot be made. A dot
at the end is not left out for that: it leads nowhere while its directory is missing. -/
def ensureAll (t : Tree) (here : Way) (steps : List String) : Except FileFault Unit × Tree :=
  match t.ensure here steps with
  | .ok t => (.ok (), t)
  | .error .notFound =>
    match t.ensureEach here [] (above steps) with
    | (.error e, t) => (.error e, t)
    | (.ok (), t) =>
      match t.ensure here steps with
      | .ok t => (.ok (), t)
      | .error e => (.error e, t)
  | .error e => (.error e, t)

def writeFile (t : Tree) (here : Way) (steps : List String) (content : Bytes) :
    Except FileFault Tree :=
  match t.site here steps.dropLast (steps.getLast?.getD "") .isDirectory with
  | .error e => .error e
  | .ok way =>
    match t.node? way with
    | some .directory => .error .isDirectory
    | some (.file _) | none => .ok (t.put way (.file content))

end Tree
end MooCore.Checkpoint
