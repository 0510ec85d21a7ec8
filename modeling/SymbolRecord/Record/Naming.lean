import SymbolRecord.Codec
/-!
# Names of symbols

A symbol is identified by its precise identifier and shown under a title.  Declarations are shown
as fragments, each one token of the declaration.

* `Identifier`, `DeclarationFragment`, `Names`, each with its codec.
-/

namespace SymbolRecord

/-- The unique identifier of a symbol. -/
structure Identifier where
  /-- The identifier itself. -/
  precise : String
  /-- The language whose interface is meant. -/
  interfaceLanguage : Option String
  deriving DecidableEq

/-- Identifiers. -/
def Identifier.codec : Codec Identifier :=
  (Fields.start Identifier.mk
    |>.required (.same "precise") Codec.text precise
    |>.optional ⟨"interfaceLanguage", "interface_language"⟩ Codec.text interfaceLanguage).codec
      "Identifier"

/-- One token of a declaration, such as a keyword or an identifier. -/
structure DeclarationFragment where
  /-- What sort of token it is. -/
  kind : String
  /-- Its text. -/
  spelling : String
  /-- The symbol that it refers to. -/
  preciseIdentifier : Option String
  deriving DecidableEq

/-- Declaration fragments. -/
def DeclarationFragment.codec : Codec DeclarationFragment :=
  (Fields.start DeclarationFragment.mk
    |>.required (.same "kind") Codec.text kind
    |>.required (.same "spelling") Codec.text spelling
    |>.optional ⟨"preciseIdentifier", "precise_identifier"⟩ Codec.text preciseIdentifier).codec
      "DeclarationFragment"

/-- The names of a symbol in different contexts. -/
structure Names where
  /-- The title. -/
  title : String
  /-- The name in a navigator. -/
  navigator : Option (List DeclarationFragment)
  /-- The name below a heading. -/
  subHeading : Option (List DeclarationFragment)
  /-- The name in running text. -/
  prose : Option String
  deriving DecidableEq

/-- Names. -/
def Names.codec : Codec Names :=
  (Fields.start Names.mk
    |>.required (.same "title") Codec.text title
    |>.optional (.same "navigator") DeclarationFragment.codec.listOf navigator
    |>.optional ⟨"subHeading", "sub_heading"⟩ DeclarationFragment.codec.listOf subHeading
    |>.optional (.same "prose") Codec.text prose).codec "Names"

end SymbolRecord
