import SymbolRecord.Path
/-!
# Home directories

A relative path that begins with a tilde begins in a home directory: with a tilde alone in that of
whoever runs the program, and with a tilde and a name in that of the user of this name.  Where users
are at home is not for the program to say, so it is given to it.  A path that begins in a home which
is not known does not stand for anything, and neither does one whose home begins with a tilde again.

* `Homes`: where users are at home.
* `PathFault`: why an argument is not used as a path, with the words for it.
* `Path.user?`, `Path.ofHome?`: whose home a path begins in, and the directory that a home is.
* `Path.expand`: a path with the home directory in its place.
-/

namespace SymbolRecord

/-- Where users are at home, by their names; no name stands for whoever runs the program. -/
abbrev Homes : Type := String → Option String

/-- Why an argument is not used as a path. -/
inductive PathFault where
  /-- A double dash was given in its place. -/
  | unnamed
  /-- It has a null character. -/
  | nullCharacter
  /-- It begins in a home directory that is not known. -/
  | homeless
  deriving DecidableEq

/-- The words for a reason. -/
def PathFault.message : PathFault → String
  | .unnamed => "expected str, bytes or os.PathLike object, not list"
  | .nullCharacter => "embedded null byte"
  | .homeless => "Could not determine home directory."

namespace Path

/-- The user in whose home a path begins. -/
def user? (path : Path) : Option String :=
  if path.isAbsolute then none
  else
    match path.parts.head?.map String.toList with
    | some ('~' :: name) => some (String.ofList name)
    | _ => none

/-- The directory that a home is.  Slashes at its end do not count, and nothing else is the root. -/
def ofHome? (home : String) : Option Path :=
  match (home.toList.reverse.dropWhile (· = '/')).reverse with
  | [] => some ⟨"/", []⟩
  | '~' :: _ => none
  | name => some (ofText (String.ofList name))

/-- A path with a home directory in the place of its first part. -/
def inHome (path home : Path) : Path := ⟨home.root, home.parts ++ path.parts.drop 1⟩

/-- The path that a path stands for when the homes of users are known. -/
def expand (homes : Homes) (path : Path) : Except PathFault Path :=
  match path.user? with
  | none => .ok path
  | some user =>
    if user.toList.contains (Char.ofNat 0) then .error .nullCharacter
    else
      match (homes user).bind ofHome? with
      | some home => .ok (path.inHome home)
      | none => .error .homeless

/-- The path that a text names, if it is used as one. -/
def named (homes : Homes) (s : String) : Except PathFault Path :=
  match (ofText s).expand homes with
  | .error fault => .error fault
  | .ok path => if path.hasNull then .error .nullCharacter else .ok path

end Path

end SymbolRecord
