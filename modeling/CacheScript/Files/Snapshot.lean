/-
A working directory as a value: the files and directories below it, each
with its path from it. `Snapshot.fileSystem` answers paths as the directory
itself would: empty and `.` steps stay, `..` goes up, every step but the last
has to be a directory, and whatever lies above the working directory is out
of sight, as is every path that is too long.
-/
import CacheScript.Files
import CacheScript.Text.Split

namespace CacheScript

/-- What a snapshot holds at a path. -/
inductive Content where
  | text (content : String)
  | bytes
  | directory
deriving DecidableEq

/-- The steps of a path and what is there. Directories on the way to an entry
need no entry of their own. -/
abbrev Snapshot := List (List String × Content)

namespace Snapshot

/-- The steps of a path. -/
def steps (path : String) : List String :=
  (Text.split '/' path.toList).map String.ofList

/-- The steps that lead anywhere. -/
def properSteps (path : String) : List String :=
  (steps path).filter fun step => step ≠ "" ∧ step ≠ "."

/-- The snapshot of files named by their paths. -/
def ofPaths (entries : List (String × Content)) : Snapshot :=
  entries.map fun (path, content) => (properSteps path, content)

/-- What is at a place, directories on the way included. -/
def content? (s : Snapshot) (place : List String) : Option Content :=
  if place = [] then some .directory
  else match s.find? (·.1 = place) with
    | some entry => some entry.2
    | none =>
      if s.any fun entry => place.length < entry.1.length && entry.1.take place.length == place then
        some .directory
      else none

/-- Whether a place is a directory. -/
def isDirectory (s : Snapshot) (place : List String) : Bool :=
  s.content? place == some .directory

/-- Where the steps lead from a place; none if one leads nowhere or starts at
something that is no directory. -/
def walk (s : Snapshot) : List String → List String → Option (List String)
  | place, [] => some place
  | place, step :: rest =>
    if !s.isDirectory place then none
    else if step = "" ∨ step = "." then walk s place rest
    else if step = ".." then
      if place = [] then none else walk s place.dropLast rest
    else walk s (place ++ [step]) rest

/-- How many bytes a path may have. -/
def maxPathSize : Nat := 4095

/-- The files as they are seen from the working directory. -/
def fileSystem (s : Snapshot) : FileSystem := fun path =>
  if path = "" ∨ path.toList.head? = some '/' ∨ maxPathSize < path.utf8ByteSize then .missing
  else match (s.walk [] (steps path)).bind s.content? with
    | some (.text content) => .text content
    | some _ => .unreadable
    | none => .missing

end Snapshot

end CacheScript
