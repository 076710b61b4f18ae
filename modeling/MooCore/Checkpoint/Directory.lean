import MooCore.Checkpoint.Tree
import MooCore.Text.Affix
import MooCore.Text.Integer
/-!
# The checkpoint directory

Complete checkpoints are named `checkpoint-….db`. A new one is written under another name first and
gets its own name, one that nothing has, only once it is complete. Every step of that may fail; a
failure before the last step takes the unfinished file away again.

The directory lies somewhere in a tree, where it may not be made yet, or a file may stand in its
place. Names may lead out of it and back again.
-/

set_option autoImplicit false
namespace MooCore.Checkpoint

structure Directory where
  path : String
  /-- where the path starts from, and how it goes on -/
  start : Way := []
  steps : List String := []
  tree : Tree := {}
deriving Repr

/-- The step of writing a file that fails: making the directory, where so many of those above it may
have been made before, creating the file, the write after so many lines, bringing it all to the disk,
or giving it its name. -/
inductive WriteStep where
  | directory (made : Nat)
  | create
  | write (lines : Nat)
  | flush
  | rename
deriving DecidableEq, Repr

namespace Directory

def stampChars (stamp : Nat) : List Char :=
  let ds := Text.digits stamp
  List.replicate (16 - ds.length) '0' ++ ds

def completeName (stamp : Nat) : String :=
  String.ofList ("checkpoint-".toList ++ stampChars stamp ++ ".db".toList)

def unfinishedName (stamp : Nat) : String :=
  String.ofList ("checkpoint-".toList ++ stampChars stamp ++ ".in-progress".toList)

def isComplete (name : String) : Bool :=
  (Text.dropPrefix? "checkpoint-".toList name.toList).isSome &&
    (Text.dropSuffix? ".db".toList name.toList).isSome

def below (base path : String) : Directory where
  path := Path.joined base path
  start := Path.origin path
  steps := Path.steps path

def fullName (d : Directory) (name : String) : String := Path.joined d.path name

/-! ## Looking up -/

def look (d : Directory) : Except FileFault Way :=
  if Path.fits d.path then d.tree.follow d.start d.steps else .error .nameTooLong

/-- The steps to what has the given name in the directory, and where they start from. -/
def trail (d : Directory) (name : String) : Way × List String :=
  if Path.isAbsolute name then (Path.root, Path.steps name)
  else (d.start, d.steps ++ Path.steps name)

def find (d : Directory) (name : String) : Except FileFault Node :=
  if Path.fits (d.fullName name) then
    let (start, steps) := d.trail name
    match d.tree.follow start steps with
    | .error e => .error e
    | .ok way => (d.tree.node? way).elim (.error .notFound) .ok
  else .error .nameTooLong

def read? (d : Directory) (name : String) : Option Bytes :=
  match d.find name with
  | .ok (.file content) => some content
  | .ok .directory | .error _ => none

def names (d : Directory) : List String :=
  match d.look with
  | .ok way => d.tree.names way
  | .error _ => []

/-! ## Putting files -/

/-- Makes the directory if it is not there, and gives the way to it. Directories above it that were
made for that stay in any case. -/
def make (d : Directory) : Except FileFault Way × Directory :=
  if Path.hasNul d.path then (.error .nameWithNul, d)
  else if !Path.fits d.path then (.error .nameTooLong, d)
  else
    let (result, tree) := d.tree.ensureAll d.start d.steps
    (result.bind fun _ => tree.enter d.start d.steps, { d with tree })

/-- Puts a file where a name leads to, once the directory is there. -/
def put (d : Directory) (name : String) (content : Bytes) : Except FileFault Directory :=
  match d.make with
  | (.error e, _) => .error e
  | (.ok _, d) =>
    let (start, steps) := d.trail name
    (d.tree.writeFile start steps content).map fun tree => { d with tree }

def putAtBase (d : Directory) (path : String) (content : Bytes) : Except FileFault Directory :=
  (d.tree.writeFile (Path.origin path) (Path.steps path) content).map fun tree => { d with tree }

/-! ## Writing checkpoints -/

/-- The first stamp from `stamp` on whose name is free, if one of the next `tries` is. -/
def freeStamp (t : Tree) (here : Way) (stamp : Nat) : Nat → Nat
  | 0 => stamp
  | tries + 1 =>
    if (t.node? (here ++ [completeName stamp])).isSome then freeStamp t here (stamp + 1) tries
    else stamp

def nextStamp (t : Tree) (here : Way) (stamp : Nat) : Nat :=
  freeStamp t here stamp (t.nodes.length + 1)

def bytesOfLines (ls : List (List Char)) : Bytes :=
  ls.flatMap fun l => (String.ofList l).toUTF8.toList ++ [10]

def written (ls : List (List Char)) : Option WriteStep → Bytes
  | some (.write n) => bytesOfLines (ls.take n)
  | some _ | none => bytesOfLines ls

/-- Writes a new complete file at the earliest with the given stamp, and gives its name. The last
argument says which step fails, if one does. -/
def write (d : Directory) (stamp : Nat) (ls : List (List Char)) (failing : Option WriteStep) :
    Except FileFault String × Directory :=
  match failing with
  | some (.directory made) =>
    let (_, tree) := d.tree.ensureEach d.start [] ((Tree.above d.steps).take made)
    (.error (.other "make directory"), { d with tree })
  | _ =>
    match d.make with
    | (.error e, d) => (.error e, d)
    | (.ok here, d) =>
      let stamp := nextStamp d.tree here stamp
      let unfinished := here ++ [unfinishedName stamp]
      if !Path.fits (d.fullName (unfinishedName stamp)) then (.error .nameTooLong, d)
      else if d.tree.node? unfinished = some .directory then (.error .isDirectory, d)
      else
        let takeAway (d : Directory) : Directory := { d with tree := d.tree.remove unfinished }
        if failing = some .create then (.error (.other "create"), takeAway d)
        else
          let d := { d with tree := d.tree.put unfinished (.file (written ls failing)) }
          match failing with
          | some .rename => (.error (.other "rename"), d)
          | some _ => (.error (.other "write"), takeAway d)
          | none =>
            let complete := here ++ [completeName stamp]
            (.ok (completeName stamp),
              { d with tree := (takeAway d).tree.put complete (.file (bytesOfLines ls)) })

/-! ## The newest checkpoint -/

def later (a b : String) : String := if a < b then b else a

/-- The name of the newest complete file: the last one in alphabetical order. -/
def newest (d : Directory) : Option String :=
  (d.names.filter isComplete).foldl (fun best name => some (best.elim name (later · name))) none

def stampIn? (name : String) : Option Nat := do
  let rest ← Text.dropPrefix? "checkpoint-".toList name.toList
  let ds ← Text.dropSuffix? ".db".toList rest
  (Text.readNat Text.wordLimit ds).toOption

def newestStamp? (d : Directory) : Option Nat := d.newest.bind stampIn?

/-- The newest complete checkpoint; a directory that is not there has none. -/
def latest (d : Directory) : Except FileFault (Option String) :=
  match d.look with
  | .error _ => .ok none
  | .ok way =>
    match d.tree.node? way with
    | some .directory => .ok d.newest
    | some (.file _) | none => .error .notDirectory

end Directory
end MooCore.Checkpoint
