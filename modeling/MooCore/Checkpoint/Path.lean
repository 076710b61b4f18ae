/-!
# Paths

A path is cut at its slashes into steps, which are followed one after another from a base, or from
the root if the path starts with a slash. An empty step and a dot stay where they are; they still
ask for a directory, so that a slash behind the name of a file leads nowhere.
-/

set_option autoImplicit false
namespace MooCore.Checkpoint

/-- The way from a base to a file or directory: first up, if it lies elsewhere, and then by names. -/
abbrev Way := List String

namespace Path

def cut : List Char → List (List Char)
  | [] => [[]]
  | '/' :: cs => [] :: cut cs
  | c :: cs =>
    match cut cs with
    | [] => [[c]]
    | step :: steps => (c :: step) :: steps

def steps (path : String) : List String := (cut path.toList).map String.ofList

def isStay (step : String) : Bool := step = "" || step = "."

/-- Whether a path starts from the root, whatever directory it is looked up in. -/
def isAbsolute (path : String) : Bool := path.toList.head? = some '/'

/-- The path of what has the given name in the directory under a path. -/
def joined (path name : String) : String :=
  if isAbsolute name then name
  else if path.toList.getLast? = some '/' then path ++ name
  else path ++ "/" ++ name

def fits (path : String) : Bool := path.utf8ByteSize < 4096

/-- Whether a path has a character in it that no path can have. -/
def hasNul (path : String) : Bool := path.toList.contains '\x00'

def root : Way := ["/"]

/-- Where a path starts from, if it is not looked up in a directory. -/
def origin (path : String) : Way := if isAbsolute path then root else []

def isUp (way : Way) : Bool := way = root || way.all (· = "..")

/-- The way to the directory above. Above the root there is the root. -/
def above (here : Way) : Way :=
  if here = root then root
  else if isUp here then here ++ [".."]
  else here.dropLast

def move (here : Way) (step : String) : Way :=
  if isStay step then here
  else if step = ".." then above here
  else here ++ [step]

end Path
end MooCore.Checkpoint
