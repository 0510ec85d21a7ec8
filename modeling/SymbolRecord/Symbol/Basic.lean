import SymbolRecord.Kind
import SymbolRecord.Record.Naming
import SymbolRecord.Record.Comment
import SymbolRecord.Registry
/-!
# Symbols

A symbol is one named declaration of a module.  Seven core fields are common to all symbols; every
other piece of information is a mixin, stored under its key.

* `Core`: the core fields, with `Core.keys` and `Core.codec`.
* `Symbol`: the core fields and the mixins.
* `Symbol.getMixin`, `Symbol.setMixin`: access by mixin type.
* `Symbol.absolutePath`, `Symbol.commentFromSameModule?`: what follows from the fields.
* `Symbol.agrees`: equality field by field.
-/

namespace SymbolRecord

/-- The fields that are common to all symbols. -/
structure Core where
  /-- The unique identifier. -/
  identifier : Identifier
  /-- The kind. -/
  kind : Kind
  /-- The path from the module to the symbol. -/
  pathComponents : List String
  /-- The symbol that declares this symbol's type. -/
  type : Option String
  /-- The names. -/
  names : Names
  /-- The documentation comment. -/
  docComment : Option Comment
  /-- The access level. -/
  accessLevel : String
  deriving DecidableEq

namespace Core

/-- The keys of the fields that every record has, in the order in which they are written. -/
def requiredKeys : List String :=
  ["identifier", "kind", "pathComponents", "names", "accessLevel"]

/-- The keys of the fields that a record may lack. -/
def optionalKeys : List String := ["type", "docComment"]

/-- The keys of all core fields. -/
def keys : List String := requiredKeys ++ optionalKeys

/-- Whether a key belongs to a core field. -/
def isKey (key : String) : Bool := key ∈ keys

/-- The core fields in the order of reading. -/
def description : Fields Core Core :=
  Fields.start mk
    |>.required (.same "identifier") Identifier.codec identifier
    |>.required (.same "kind") Kind.codec kind
    |>.required ⟨"pathComponents", "path_components"⟩ Codec.text.listOf pathComponents
    |>.optional (.same "type") Codec.text type
    |>.required (.same "names") Names.codec names
    |>.optional ⟨"docComment", "doc_comment"⟩ Comment.codec docComment
    |>.required ⟨"accessLevel", "access_level"⟩ Codec.text accessLevel

/-- Core fields. -/
def codec : Codec Core := description.codec "Symbol"

/-- The part of a record that holds its core fields, under their wire keys only. -/
def entries (record : Entries Value) : Entries Value :=
  record.filter fun entry => isKey entry.1

/-- The core fields as they are written. -/
def wire (core : Core) : Entries Value :=
  [("identifier", Identifier.codec.wire core.identifier), ("kind", Kind.codec.wire core.kind),
    ("pathComponents", Codec.text.listOf.wire core.pathComponents),
    ("names", Names.codec.wire core.names), ("accessLevel", .text core.accessLevel)]
    ++ Fields.written (.same "type") (Codec.text.optional.wire core.type)
    ++ Fields.written (.same "docComment") (Comment.codec.optional.wire core.docComment)

/-- The path from the module to the symbol, as one text. -/
def absolutePath (core : Core) : String := String.intercalate "/" core.pathComponents

/-- Whether the documentation comment was written in the symbol's own module; unknown without a
comment that has lines.  Only comments of the same module have ranges. -/
def commentFromSameModule? (core : Core) : Option Bool :=
  core.docComment.bind fun comment => comment.lines.head?.map fun line => line.range.isSome

/-- Whether the documentation comment was written in a given module.  When the comment names its
module, the names decide. -/
def commentFrom? (core : Core) (moduleName : Option String) : Option Bool :=
  core.commentFromSameModule?.map fun fromRanges =>
    match moduleName, core.docComment.bind Comment.moduleName with
    | some symbolModule, some commentModule => commentModule == symbolModule
    | _, _ => fromRanges

end Core

/-- One named declaration of a module. -/
structure Symbol extends Core where
  /-- The mixins by key. -/
  mixins : Table Mixin

/-- Why a mixin cannot be set. -/
inductive MixinMisuse where
  /-- The type, of this name, declares no key. -/
  | keyless (type : String)
  /-- The mixin is of another type than the one it is set for. -/
  | mismatch (key expected found : String)
  /-- A mixin is stored under a key that is not its own. -/
  | misplaced (type own given : String)
  deriving DecidableEq

/-- The words for a misuse. -/
def MixinMisuse.message : MixinMisuse → String
  | .keyless type => type ++ " declares no key"
  | .mismatch key expected found =>
    "Mixin " ++ Text.quote key ++ " expects " ++ expected ++ ", got " ++ found
  | .misplaced type own given =>
    type ++ " belongs under " ++ Text.quote own ++ ", not " ++ Text.quote given

namespace Symbol

/-- The mixin of a type, if the symbol has one. -/
def getMixin (symbol : Symbol) (type : MixinType) : Except MixinMisuse (Option Mixin) :=
  match type.key? with
  | none => .error (.keyless type.name)
  | some key => .ok ((symbol.mixins.get? key).filter (·.isOf type))

/-- Attaches, replaces or, without a value, removes the mixin of a type. -/
def setMixin (symbol : Symbol) (type : MixinType) (value : Option Mixin) :
    Except MixinMisuse Symbol :=
  match type.key?, value with
  | none, _ => .error (.keyless type.name)
  | some key, none => .ok { symbol with mixins := symbol.mixins.erase key }
  | some key, some mixin =>
    if mixin.isOf type then .ok { symbol with mixins := symbol.mixins.put key mixin }
    else .error (.mismatch key type.name mixin.typeName)

/-- The first entry that is not stored under the key of its own type. -/
def misplaced? : Entries Mixin → Option MixinMisuse
  | [] => none
  | (key, mixin) :: rest =>
    match mixin.key? with
    | none => some (.keyless mixin.typeName)
    | some own => if key = own then misplaced? rest else some (.misplaced mixin.typeName own key)

/-- A symbol with the given mixins, which must stand under their own keys. -/
def make (core : Core) (mixins : Table Mixin) : Except MixinMisuse Symbol :=
  match misplaced? mixins.entries with
  | none => .ok { core with mixins := mixins }
  | some misuse => .error misuse

/-- Whether two mixin tables hold agreeing mixins under the same keys, in any order. -/
def mixinsAgree (a b : Table Mixin) : Bool :=
  a.entries.length == b.entries.length &&
    a.entries.all fun entry => match b.get? entry.1 with
      | some mixin => entry.2.agrees mixin
      | none => false

/-- Whether two symbols agree in every field and every mixin. -/
def agrees (a b : Symbol) : Bool := a.toCore == b.toCore && mixinsAgree a.mixins b.mixins

end Symbol

end SymbolRecord
