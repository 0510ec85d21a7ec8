import SymbolRecord.Reference
import SymbolRecord.Spelling
import SymbolRecord.Toml.Document
import SymbolRecord.Wording
/-!
# Configuration

A directory may hold a configuration file, which names further mixin types to register and sets
two switches.  The file is read strictly: a key that is not a setting is an error.

Most failures are reported as errors of the configuration.  Some are not caught on the way, and are
kept apart as such: a file that is not UTF-8, an integer with too many digits, tables nested too
deep, and a module that is named relative to another.

* `Config`, `Config.read`: the settings, read from a table.
* `ConfigError`, `ConfigFailure`: what goes wrong, with the words for it.
* `Config.load`, `Config.mixinTypes`: the settings of a file, and the types they name.
-/

namespace SymbolRecord

/-- The settings. -/
structure Config where
  /-- References to the mixin types to register. -/
  mixins : List String
  /-- Whether documents are indented. -/
  indent : Bool
  /-- Whether keys that decoding leaves out are errors. -/
  strict : Bool
  deriving DecidableEq

/-- Why a table is refused. -/
inductive ConfigRefusal where
  /-- The references are not a list. -/
  | notList
  /-- There are issues. -/
  | report (report : Report)
  deriving DecidableEq

/-- The words for a refusal. -/
def ConfigRefusal.message : ConfigRefusal → String
  | .notList => "mixins must be a list of 'module:Attribute' strings"
  | .report found => found.text

namespace Config

/-- The settings without a configuration file. -/
def default : Config := ⟨[], false, false⟩

/-- The name of the configuration file. -/
def filename : String := "symbolgraph.toml"

/-- The name of the settings in reports. -/
def model : String := "SymbolGraphConfig"

/-- The keys of the settings. -/
def keys : List String := ["mixins", "indent", "strict"]

/-- Reads a reference: a text with exactly one colon. -/
def reference? : Value → Option String
  | .text s => if s.toList.count ':' = 1 then some s else none
  | _ => none

/-- The words for a value that is no reference. -/
def referenceReason (v : Value) : String :=
  match v.spelling? with
  | some spelling =>
    "Invalid mixin reference " ++ spelling ++ "; expected 'module:Attribute'"
  | none => Spelling.tooLong

/-- Reads the items of a list as references; the first that is none fails it. -/
def readReferences : List Value → Except String (List String)
  | [] => .ok []
  | v :: rest =>
    match reference? v with
    | some s => (readReferences rest).map (s :: ·)
    | none => .error (referenceReason v)

/-- Reads the references. -/
def readMixins : Value → Reading (List String)
  | .list items =>
    match readReferences items with
    | .ok references => .accepted references
    | .error reason => .fail (.refused reason) (.list items)
  | _ => .accepted []

/-- The settings in the order of reading. -/
def description : Fields Config Config :=
  Fields.start mk
    |>.defaulted (.same "mixins")
      ⟨readMixins, Codec.text.listOf.wire, Codec.text.listOf.fields⟩ [] mixins
    |>.defaulted (.same "indent") Codec.flag false indent
    |>.defaulted (.same "strict") Codec.flag false strict

/-- An issue for each key that is not a setting. -/
def unknownKeys (entries : Entries Value) : List Issue :=
  (entries.filter fun entry => entry.1 ∉ keys).map fun entry =>
    ⟨[.key entry.1], .unknownKey, entry.2.typeName⟩

/-- Adds issues to a reading. -/
def withIssues {α : Type} (reading : Reading α) (issues : List Issue) : Reading α :=
  match reading, issues with
  | .rejected first others, issues => .rejected first (others ++ issues)
  | .accepted _, first :: others => .rejected first others
  | .accepted a, [] => .accepted a

/-- Reads the settings. -/
def readSettings : Value → Reading Config
  | .object entries => withIssues (description.read entries) (unknownKeys entries)
  | v => .fail (.record model) v

/-- Whether the references of a table are given and are neither a list nor null. -/
def lacksList (v : Value) : Bool :=
  match v.get? "mixins" with
  | none => false
  | some .null => false
  | some (.list _) => false
  | some _ => true

/-- Reads the settings of a table.  References that are no list are refused before anything else is
looked at. -/
def read (v : Value) : Except ConfigRefusal Config :=
  if lacksList v then .error .notList
  else
    match readSettings v with
    | .accepted config => .ok config
    | .rejected first others => .error (.report ⟨model, first, others⟩)

end Config

/-! ## Loading -/

/-- An error of the configuration. -/
inductive ConfigError where
  /-- The file at this path is no TOML, in these words of the parser. -/
  | malformed (path words : String)
  /-- The settings in the file at this path are refused. -/
  | refused (path : String) (refusal : ConfigRefusal)
  /-- A reference leads nowhere. -/
  | unresolved (reference : String) (error : ReferenceError)
  /-- A reference leads to something else than a mixin type. -/
  | notMixinType (reference : String)
  /-- A reference leads to a mixin type without a key. -/
  | keyless (reference : String)
  deriving DecidableEq

/-- The sentence that says what is wrong. -/
def ConfigError.message : ConfigError → String
  | .malformed path words => "Invalid TOML in " ++ path ++ ": " ++ words
  | .refused path refusal => "Invalid config in " ++ path ++ ": " ++ refusal.message
  | .unresolved reference error =>
    "Cannot import mixin " ++ Text.quote reference ++ ": " ++ error.message
  | .notMixinType reference => Text.quote reference ++ " is not a Mixin subclass"
  | .keyless reference => Text.quote reference ++ " does not declare a mixin_key"

/-- A failure of the configuration that is not reported as an error of it. -/
inductive ConfigEscape where
  /-- The file is not UTF-8. -/
  | encoding
  /-- A decimal integer has this many digits, which are too many. -/
  | digits (count : Nat)
  /-- Lists and tables are nested too deep. -/
  | nesting
  /-- A module is named relative to another. -/
  | relative (module : String)
  deriving DecidableEq

/-- The words for a failure that is not reported, if there are any. -/
def ConfigEscape.message? : ConfigEscape → Option String
  | .digits count =>
    some ("Exceeds the limit (" ++ toString Toml.digitLimit
      ++ " digits) for integer string conversion: value has " ++ toString count
      ++ " digits; use sys.set_int_max_str_digits() to increase the limit")
  | .relative module => some (ReferenceError.message (.relative module))
  | _ => none

/-- What goes wrong with a configuration. -/
inductive ConfigFailure where
  /-- An error of the configuration. -/
  | error (error : ConfigError)
  /-- A failure that is not reported as one. -/
  | escape (escape : ConfigEscape)
  deriving DecidableEq

namespace Config

section Loading

variable [Wording]

/-- The table of a configuration file. -/
def parse (path : String) (content : Bytes) : Except ConfigFailure Value :=
  match Utf8.decode? content with
  | none => .error (.escape .encoding)
  | some text =>
    match Toml.parse text with
    | .ok v => .ok v
    | .error .malformed => .error (.error (.malformed path (Wording.settings content)))
    | .error (.digits count) => .error (.escape (.digits count))
    | .error .nesting => .error (.escape .nesting)

/-- The settings of a configuration file. -/
def ofContent (path : String) (content : Bytes) : Except ConfigFailure Config :=
  match parse path content with
  | .error failure => .error failure
  | .ok v =>
    match read v with
    | .ok config => .ok config
    | .error refusal => .error (.error (.refused path refusal))

/-- The settings of a configuration file, if there is one. -/
def load (path : String) : Option Bytes → Except ConfigFailure Config
  | some content => ofContent path content
  | none => .ok default

end Loading

/-- The mixin type that a reference leads to. -/
def mixinType (catalogue : Catalogue) (reference : String) : Except ConfigFailure MixinType :=
  match Reference.resolve catalogue reference with
  | .error (.relative module) => .error (.escape (.relative module))
  | .error error => .error (.error (.unresolved reference error))
  | .ok (.mixinType type _) =>
    if type.key?.isSome then .ok type else .error (.error (.keyless reference))
  | .ok _ => .error (.error (.notMixinType reference))

/-- The mixin types that references lead to, in order; the first that fails ends it. -/
def resolveAll (catalogue : Catalogue) : List String → Except ConfigFailure (List MixinType)
  | [] => .ok []
  | reference :: rest =>
    match mixinType catalogue reference with
    | .error failure => .error failure
    | .ok type => (resolveAll catalogue rest).map (type :: ·)

/-- The mixin types that the settings name. -/
def mixinTypes (catalogue : Catalogue) (config : Config) : Except ConfigFailure (List MixinType) :=
  resolveAll catalogue config.mixins

end Config

end SymbolRecord
