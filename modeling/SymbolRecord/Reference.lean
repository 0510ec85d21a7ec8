import SymbolRecord.Mixin.Basic
import SymbolRecord.Uri.Host
/-!
# References to mixin types

A configuration names the mixin types to register by references of the form `module:attribute`.
They are looked up in a catalogue: the modules by name, and in each module the attributes and
their attributes in turn.

* `Exposed`: what a reference can lead to.
* `Catalogue`: the modules that can be referred to.
* `Reference.resolve`: what a reference leads to, or why it leads nowhere.
-/

namespace SymbolRecord

/-- What a reference can lead to. -/
inductive Exposed where
  /-- A mixin type, with its attributes. -/
  | mixinType (type : MixinType) (attributes : List (String × Exposed))
  /-- A text. -/
  | text (s : String)
  /-- Anything else, with its name, if it has one, and its attributes. -/
  | other (name? : Option String) (attributes : List (String × Exposed))

namespace Exposed

/-- The attributes of what was found. -/
def attributes : Exposed → Entries Exposed
  | .mixinType _ attributes => attributes
  | .text _ => []
  | .other _ attributes => attributes

end Exposed

/-- A module that can be referred to. -/
structure Module where
  /-- Whether it can have modules inside. -/
  isPackage : Bool
  /-- Its attributes. -/
  attributes : Entries Exposed

/-- The modules that can be referred to, by their full names. -/
abbrev Catalogue : Type := Entries Module

/-- Why a reference leads nowhere. -/
inductive ReferenceError where
  /-- It has not the form of a reference. -/
  | malformed (reference : String)
  /-- A module does not exist.  Its parent is given if that cannot have modules inside. -/
  | noModule (name : String) (parent? : Option String)
  /-- A module has no such attribute. -/
  | noAttribute (module path : String)
  /-- The module is named relative to another. -/
  | relative (module : String)
  deriving DecidableEq

/-- The sentence that says why. -/
def ReferenceError.message : ReferenceError → String
  | .malformed reference => "Expected 'module:attribute', got " ++ Text.quote reference
  | .noModule name none => "No module named " ++ Text.quote name
  | .noModule name (some parent) =>
    "No module named " ++ Text.quote name ++ "; " ++ Text.quote parent ++ " is not a package"
  | .noAttribute module path => Text.quote module ++ " has no attribute " ++ Text.quote path
  | .relative name =>
    "the 'package' argument is required to perform a relative import for " ++ Text.quote name

namespace Reference

/-- Goes on to the parts of a name from a module that was found, up to the module itself. -/
def descend (catalogue : Catalogue) :
    String → Module → List String → Except ReferenceError Module
  | _, found, [] => .ok found
  | name, found, part :: rest =>
    let inner := name ++ "." ++ part
    if found.isPackage then
      match catalogue.get? inner with
      | some next => descend catalogue inner next rest
      | none => .error (.noModule inner none)
    else .error (.noModule inner (some name))

/-- The module of a name.  The shortest beginning of the name that does not exist is at fault. -/
def findModule (catalogue : Catalogue) (name : List Char) : Except ReferenceError Module :=
  match (Uri.cutAt '.' name).map String.ofList with
  | [] => .error (.noModule (String.ofList name) none)
  | part :: rest =>
    match catalogue.get? part with
    | some found => descend catalogue part found rest
    | none => .error (.noModule part none)

/-- Follows a path of attributes. -/
def follow : List String → Exposed → Option Exposed
  | [], found => some found
  | name :: rest, found => (found.attributes.get? name).bind (follow rest)

/-- The attribute at a path in a module. -/
def findAttribute (module : Module) (path : List Char) : Option Exposed :=
  follow ((Uri.cutAt '.' path).map String.ofList) (.other none module.attributes)

/-- What a reference leads to. -/
def resolve (catalogue : Catalogue) (reference : String) : Except ReferenceError Exposed :=
  match Uri.cutFirst ':' reference.toList with
  | (name, some path) =>
    if name.isEmpty || path.isEmpty then .error (.malformed reference)
    else if name.head? = some '.' then .error (.relative (String.ofList name))
    else
      match findModule catalogue name with
      | .error error => .error error
      | .ok module =>
        match findAttribute module path with
        | some found => .ok found
        | none => .error (.noAttribute (String.ofList name) (String.ofList path))
  | (_, none) => .error (.malformed reference)

end Reference

end SymbolRecord
