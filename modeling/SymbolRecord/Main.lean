import SymbolRecord.Catalogue
import SymbolRecord.CommandLine.Program
import SymbolRecord.CommandLine.Survey
/-!
# The command line

The outer layer: it looks at the places that an invocation names, runs the program on the file tree
found there, and carries out what the program decided.
-/

namespace SymbolRecord

namespace Main

/-- The name of a place for the operating system. -/
def placeName (place : List String) : String := "/" ++ String.intercalate "/" place

/-- What stands at a place, if something does. -/
def look (place : List String) : IO (Option (List String × FileNode)) := do
  try
    let path ← IO.FS.realPath (placeName place)
    if ← path.isDir then return some (place, .directory)
    let content ← IO.FS.readBinFile path
    return some (place, .file content.toList)
  catch _ => return none

/-- Where users are at home.  This layer knows of nobody but who runs the program. -/
def findHomes : IO Homes := do
  let own? ← IO.getEnv "HOME"
  return fun name => if name.isEmpty then own? else none

/-- The part of the file tree that matters for arguments. -/
def readTree (arguments : List String) (homes : Homes) (directory : Path) : IO FileTree := do
  match Invocation.parse arguments with
  | .ok invocation => return ⟨← (invocation.survey homes directory).filterMapM look⟩
  | .error _ => return ⟨[]⟩

/-- Carries out what the program decided. -/
def carryOut (before : FileTree) (outcome : Outcome) : IO UInt32 := do
  for (place, content) in before.changes outcome.tree do
    IO.FS.writeBinFile (placeName place) (ByteArray.mk content.toArray)
  (← IO.getStdout).write (ByteArray.mk outcome.stdout.toArray)
  IO.eprint outcome.stderr
  match outcome.exit.lastWords? with
  | some words => IO.eprintln words
  | none => pure ()
  return outcome.exit.status

attribute [local instance] Wording.plain

/-- Runs the program in the working directory. -/
def run (arguments : List String) : IO UInt32 := do
  let directory := Path.ofText (← IO.currentDir).toString
  let homes ← findHomes
  let tree ← readTree arguments homes directory
  carryOut tree (World.run ⟨tree, directory, homes, Catalogue.standard⟩ arguments)

end Main

end SymbolRecord

/-- Runs the program. -/
def main (arguments : List String) : IO UInt32 := SymbolRecord.Main.run arguments
