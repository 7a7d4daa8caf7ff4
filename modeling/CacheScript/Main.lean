/-
The program itself. The files are read as the run turns out to need them: the
run is made with what was read so far, and when it looked at a file that was
not read yet, the file is read and the run is made again.
-/
import CacheScript.CommandLine

namespace CacheScript

/-- Read one path. -/
def readPath (path : String) : IO Reading := do
  try
    let bytes ← IO.FS.readBinFile path
    match String.fromUTF8? bytes with
    | some text => pure (.text text)
    | none => pure .unreadable
  catch
    | .noFileOrDirectory .. => pure .missing
    | _ => pure .unreadable

/-- The files that were read; all others count as missing. -/
def seen (known : List (String × Reading)) : FileSystem := fun path =>
  (known.lookup path).getD .missing

/-- Make the run, reading the files that it looks at. -/
partial def runWith (args : List String) (known : List (String × Reading)) :
    IO CommandLine.Report := do
  let report := CommandLine.run args (seen known)
  match report.consulted.find? fun path => (known.lookup path).isNone with
  | none => pure report
  | some path =>
    let reading ← readPath path
    runWith args ((path, reading) :: known)

end CacheScript

/-- Run the program on its arguments. -/
def main (args : List String) : IO UInt32 := do
  let report ← CacheScript.runWith args []
  IO.print report.stdout
  IO.eprint report.stderr
  pure report.code
