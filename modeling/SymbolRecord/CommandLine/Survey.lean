import SymbolRecord.CommandLine.Invocation
import SymbolRecord.Config
import SymbolRecord.FileTree
import SymbolRecord.Home
/-!
# Surveys

The program is a function of a file tree, but only a few files matter for an invocation.  A survey
names them: the configuration file, the file that is read and the file that is written, together
with every place on the way to one of them.

* `Invocation.files`: the files that an invocation reads or writes.
* `Path.stations`: the places on the way along a path.
* `Invocation.survey`: all places that matter for an invocation.
* `FileTree.changes`: the files that one tree has and another has not.
-/

namespace SymbolRecord

/-- The path that a text names, if it names one. -/
def Homes.paths (homes : Homes) (s : String) : List Path := (Path.named homes s).toOption.toList

/-- The file that a target names. -/
def Target.files (target : Target) (homes : Homes) (directory : Path) : List Path :=
  match target with
  | .file path => (homes.paths path).map directory.join
  | _ => []

/-- The files that an invocation reads or writes. -/
def Invocation.files (invocation : Invocation) (homes : Homes) (directory : Path) : List Path :=
  let resolve (s : String) : List Path := (homes.paths s).map directory.resolve
  let configs := (invocation.root?.toList.flatMap resolve).map fun root =>
    root.child Config.filename
  match invocation.command with
  | .kind _ => []
  | .validate path _ => configs ++ resolve path
  | .normalize path target _ => configs ++ resolve path ++ target.files homes directory

/-- The places on the way along a path, from the root to its end. -/
def Path.stations (path : Path) : List (List String) :=
  (List.range (path.parts.length + 1)).map fun n => Path.climb [] (path.parts.take n)

/-- All places that matter for an invocation. -/
def Invocation.survey (invocation : Invocation) (homes : Homes) (directory : Path) :
    List (List String) :=
  ((invocation.files homes directory).flatMap Path.stations).eraseDups

/-- The files of a tree that stand otherwise in an earlier one. -/
def FileTree.changes (before after : FileTree) : List (List String × Bytes) :=
  after.nodes.filterMap fun node =>
    match node with
    | (place, .file content) =>
      if before.nodes.contains node then none else some (place, content)
    | (_, .directory) => none

end SymbolRecord
