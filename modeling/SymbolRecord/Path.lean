import SymbolRecord.Uri.Host
/-!
# File paths

A path is a root and its parts.  The root is empty for a relative path, one slash for an absolute
one, and two slashes when the text begins with exactly two.  Empty parts and single full stops are
left out of a path; double full stops are kept until the path is resolved.

* `Path.ofText`, `Path.text`: between texts and paths.
* `Path.suffix`: the ending of the last part.
* `Path.join`, `Path.resolve`: a path inside another, and without double full stops.
* `Path.hasNull`: whether a path has a null character, which no file name has.
-/

namespace SymbolRecord

/-- A file path. -/
structure Path where
  /-- Nothing, a slash or two slashes. -/
  root : String
  /-- The parts between the slashes. -/
  parts : List String
  deriving DecidableEq

namespace Path

/-- Whether a part is left out of paths. -/
def isIdle (part : List Char) : Bool := part = [] || part = ['.']

/-- The root of a text. -/
def rootOf : List Char → String
  | '/' :: '/' :: '/' :: _ => "/"
  | '/' :: '/' :: _ => "//"
  | '/' :: _ => "/"
  | _ => ""

/-- The path that a text spells. -/
def ofText (s : String) : Path :=
  ⟨rootOf s.toList,
    ((Uri.cutAt '/' s.toList).filter fun part => !isIdle part).map String.ofList⟩

/-- The text of a path; the empty path is a full stop. -/
def text (path : Path) : String :=
  if path.root = "" ∧ path.parts = [] then "."
  else path.root ++ String.intercalate "/" path.parts

/-- Whether a path is absolute. -/
def isAbsolute (path : Path) : Bool := path.root ≠ ""

/-- The last part of a path. -/
def name (path : Path) : String := path.parts.getLastD ""

/-- The ending of the last part from its last full stop on, unless that is its first or last
character. -/
def suffix (path : Path) : String :=
  let cs := path.name.toList
  let ending := (cs.reverse.takeWhile (· ≠ '.')).reverse
  let front := cs.length - ending.length
  if 1 < front ∧ ending ≠ [] then String.ofList ('.' :: ending) else ""

/-- A path inside a directory; an absolute path stands for itself. -/
def join (directory path : Path) : Path :=
  if path.isAbsolute then path else ⟨directory.root, directory.parts ++ path.parts⟩

/-- Follows double full stops upwards; the way so far is given in reverse. -/
def climb : List String → List String → List String
  | way, [] => way.reverse
  | way, part :: rest => if part = ".." then climb (way.drop 1) rest else climb (part :: way) rest

/-- The absolute path, without double full stops, that a path stands for in a directory. -/
def resolve (directory path : Path) : Path :=
  ⟨"/", climb [] (directory.join path).parts⟩

/-- The path of a file in a directory. -/
def child (directory : Path) (name : String) : Path :=
  ⟨directory.root, directory.parts ++ [name]⟩

/-- Whether a path has a null character. -/
def hasNull (path : Path) : Bool := path.parts.any fun part => part.toList.contains (Char.ofNat 0)

end Path

end SymbolRecord
