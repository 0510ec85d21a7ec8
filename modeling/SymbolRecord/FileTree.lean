import SymbolRecord.Path
import SymbolRecord.Text.Utf8
/-!
# File trees

What the command line reads and writes is a tree of files, kept as the list of its files and
empty directories.  The directories on the way to a file need not be listed.

Names of files, and paths as a whole, have a greatest length in bytes.

* `FileTree`, `FileTree.find?`: what stands at a place.
* `FileError`: why a file is not read or written, with the words for it.
* `FileTree.lookUp`: what stands at a path.
* `FileTree.read`, `FileTree.write`: the content of a file, and the tree with a new content.
-/

namespace SymbolRecord

/-- What stands at a place of a file tree. -/
inductive FileNode where
  /-- A directory. -/
  | directory
  /-- A file with a content. -/
  | file (content : Bytes)
  deriving DecidableEq

/-- The files and empty directories of a tree, by the parts of their absolute paths. -/
structure FileTree where
  /-- The places and what stands there. -/
  nodes : List (List String × FileNode)

/-- Why a file is not read or written. -/
inductive FileError where
  /-- Nothing stands at the path. -/
  | notFound (path : String)
  /-- A file stands on the way. -/
  | notDirectory (path : String)
  /-- A directory stands at the path. -/
  | isDirectory (path : String)
  /-- The path, or a name on the way, is too long. -/
  | tooLong (path : String)
  deriving DecidableEq

/-- The words for an error. -/
def FileError.message : FileError → String
  | .notFound path => "[Errno 2] No such file or directory: " ++ Text.quote path
  | .notDirectory path => "[Errno 20] Not a directory: " ++ Text.quote path
  | .isDirectory path => "[Errno 21] Is a directory: " ++ Text.quote path
  | .tooLong path => "[Errno 36] File name too long: " ++ Text.quote path

namespace FileTree

/-- What stands at a place.  Every beginning of the place of a node is a directory. -/
def find? (tree : FileTree) (place : List String) : Option FileNode :=
  match tree.nodes.find? fun node => node.1 == place with
  | some node => some node.2
  | none =>
    if place.isEmpty || tree.nodes.any fun node => place.isPrefixOf node.1 then some .directory
    else none

/-- The greatest number of bytes in a name. -/
def nameLimit : Nat := 255

/-- The greatest number of bytes in a path. -/
def pathLimit : Nat := 4095

/-- How a walk along the parts of a path ends. -/
inductive Walk where
  /-- At this place. -/
  | at (place : List String)
  /-- Where nothing stands. -/
  | nowhere
  /-- At a file that is not the end of the path. -/
  | blocked
  /-- At a name that is too long. -/
  | tooLong

/-- Walks along the parts of a path from a place, given in reverse.  Every place but the last must
be a directory. -/
def walk (tree : FileTree) : List String → List String → Walk
  | place, [] => .at place.reverse
  | place, part :: rest =>
    match tree.find? place.reverse with
    | some .directory =>
      if nameLimit < part.utf8ByteSize then .tooLong
      else walk tree (if part = ".." then place.drop 1 else part :: place) rest
    | some (.file _) => .blocked
    | none => .nowhere

/-- The place that a path in a directory leads to. -/
def follow (tree : FileTree) (directory path : Path) : Except FileError (List String) :=
  if pathLimit < path.text.utf8ByteSize then .error (.tooLong path.text)
  else
    match tree.walk [] (directory.join path).parts with
    | .at place => .ok place
    | .nowhere => .error (.notFound path.text)
    | .blocked => .error (.notDirectory path.text)
    | .tooLong => .error (.tooLong path.text)

/-- What stands at a path in a directory, if something does. -/
def lookUp (tree : FileTree) (directory path : Path) : Except FileError (Option FileNode) :=
  if path.hasNull then .ok none
  else
    match tree.follow directory path with
    | .ok place => .ok (tree.find? place)
    | .error (.tooLong path) => .error (.tooLong path)
    | .error _ => .ok none

/-- The content of the file at a path in a directory. -/
def read (tree : FileTree) (directory path : Path) : Except FileError Bytes :=
  match tree.follow directory path with
  | .error error => .error error
  | .ok place =>
    match tree.find? place with
    | some (.file content) => .ok content
    | some .directory => .error (.isDirectory path.text)
    | none => .error (.notFound path.text)

/-- Stores a content at a place. -/
def put (content : Bytes) (place : List String) :
    List (List String × FileNode) → List (List String × FileNode)
  | [] => [(place, .file content)]
  | node :: rest =>
    if node.1 = place then (place, .file content) :: rest else node :: put content place rest

/-- The tree with a new content of the file at a path in a directory. -/
def write (tree : FileTree) (directory path : Path) (content : Bytes) :
    Except FileError FileTree :=
  match tree.follow directory path with
  | .error error => .error error
  | .ok place =>
    match tree.find? place with
    | some .directory => .error (.isDirectory path.text)
    | _ => .ok ⟨put content place tree.nodes⟩

end FileTree

end SymbolRecord
