import SymbolRecord.Mixin.Availability
import SymbolRecord.Mixin.Declaration
import SymbolRecord.Mixin.Flag
import SymbolRecord.Mixin.Generics
import SymbolRecord.Mixin.Location
import SymbolRecord.Mixin.Snippet
/-!
# Mixins

A mixin is an optional part of a symbol with a type of its own, stored and written under the key
of that type.  Nine types are built in; callers bring further types, whose values are kept as what
the library needs of them: their fields and their payload.

A mixin type says under which key its mixins are stored and how one is read from a payload.  Reading
can have three outcomes, because one type gives up a malformed payload instead of refusing it.

A type is known by a number of its own, which its mixins carry.  Two types may have the same name or
the same key and are two types all the same; and a type may be derived from others, whose mixins its
own mixins count as.

* `TypeTag`, `TypeTag.isKindOf`: which type a mixin is of, and of which other types it is a kind.
* `Mixin`: a value of any mixin type, with `Mixin.payload`, `Mixin.fields`, `Mixin.tag`.
* `MixinType`: a mixin type, with `MixinType.ofCodec`, `MixinType.lenient` and
  `MixinType.extension`.
* `MixinType.builtin`: the built-in types.
-/

namespace SymbolRecord

/-- What a mixin type is known by. -/
structure TypeTag where
  /-- The number that this type has and no other. -/
  number : Nat
  /-- The name of the type. -/
  name : String
  /-- The key under which its mixins are stored, if it declares one. -/
  key? : Option String
  /-- The numbers of the types that it is derived from. -/
  bases : List Nat
  deriving DecidableEq

namespace TypeTag

/-- The number of the type that all other mixin types are derived from. -/
def baseNumber : Nat := 0

/-- A type that is derived from that one alone. -/
def plain (number : Nat) (name : String) (key? : Option String) : TypeTag :=
  ⟨number, name, key?, [baseNumber]⟩

/-- Whether the mixins of a type are mixins of another one: it is that type, or derived from it. -/
def isKindOf (tag other : TypeTag) : Bool :=
  tag.number == other.number || tag.bases.contains other.number

end TypeTag

/-- A mixin of a type that a caller brings, with the tag of its type. -/
structure ExtensionMixin extends TypeTag where
  /-- All of its fields. -/
  fields : Value
  /-- What is written for it. -/
  payload : Value
  deriving DecidableEq

/-- A value of any mixin type. -/
inductive Mixin where
  | availability (m : Availability)
  | declarationFragments (m : DeclarationFragments)
  | mutability (m : Mutability)
  | swiftExtension (m : SwiftExtension)
  | swiftGenerics (m : SwiftGenerics)
  | location (m : Location)
  | functionSignature (m : FunctionSignature)
  | spi (m : Spi)
  | snippet (m : Snippet)
  | extension (m : ExtensionMixin)
  deriving DecidableEq

/-- What reading a payload yields. -/
inductive Intake where
  /-- A mixin. -/
  | mixin (m : Mixin)
  /-- No mixin, because the payload had this many issues and the type gives it up. -/
  | dropped (issues : Nat)
  /-- A refusal. -/
  | refused (report : Report)

/-- A mixin type. -/
structure MixinType extends TypeTag where
  /-- Reads a payload. -/
  read : Value → Intake

namespace MixinType

variable {α : Type}

/-- The type whose mixins are read by a codec. -/
def ofCodec (tag : TypeTag) (codec : Codec α) (wrap : α → Mixin) : MixinType where
  toTypeTag := tag
  read v :=
    match codec.read v with
    | .accepted a => .mixin (wrap a)
    | .rejected first others => .refused ⟨tag.name, first, others⟩

/-- The same type, which gives up what it would refuse. -/
def lenient (type : MixinType) : MixinType :=
  { type with
    read := fun v =>
      match type.read v with
      | .refused report => .dropped report.count
      | intake => intake }

/-- A type that a caller brings, whose records are read and written by a codec. -/
def extension (tag : TypeTag) (codec : Codec α) : MixinType :=
  ofCodec tag codec fun a => .extension ⟨tag, codec.fields a, codec.wire a⟩

/-- Availability by platform. -/
def availability : MixinType :=
  ofCodec (.plain 1 "Availability" (some "availability")) Availability.codec .availability

/-- The declaration. -/
def declarationFragments : MixinType :=
  ofCodec (.plain 2 "DeclarationFragments" (some "declarationFragments")) DeclarationFragments.codec
    .declarationFragments

/-- Whether a variable is read-only. -/
def mutability : MixinType :=
  ofCodec (.plain 3 "Mutability" (some "isReadOnly")) Mutability.codec .mutability

/-- The extension around the declaration. -/
def swiftExtension : MixinType :=
  ofCodec (.plain 4 "SwiftExtension" (some "swiftExtension")) SwiftExtension.codec .swiftExtension

/-- Generic parameters. -/
def swiftGenerics : MixinType :=
  ofCodec (.plain 5 "SwiftGenerics" (some "swiftGenerics")) SwiftGenerics.codec .swiftGenerics

/-- The place of the declaration; what is malformed is given up. -/
def location : MixinType :=
  (ofCodec (.plain 6 "Location" (some "location")) Location.codec .location).lenient

/-- The signature of a function. -/
def functionSignature : MixinType :=
  ofCodec (.plain 7 "FunctionSignature" (some "functionSignature")) FunctionSignature.codec
    .functionSignature

/-- Whether a symbol is part of a system programming interface. -/
def spi : MixinType := ofCodec (.plain 8 "SPI" (some "spi")) Spi.codec .spi

/-- Example code. -/
def snippet : MixinType := ofCodec (.plain 9 "Snippet" (some "snippet")) Snippet.codec .snippet

/-- The types that are built in. -/
def builtin : List MixinType :=
  [availability, declarationFragments, mutability, swiftExtension, swiftGenerics, location,
    functionSignature, spi, snippet]

end MixinType

namespace Mixin

/-- What a mixin's type is known by. -/
def tag : Mixin → TypeTag
  | .availability _ => MixinType.availability.toTypeTag
  | .declarationFragments _ => MixinType.declarationFragments.toTypeTag
  | .mutability _ => MixinType.mutability.toTypeTag
  | .swiftExtension _ => MixinType.swiftExtension.toTypeTag
  | .swiftGenerics _ => MixinType.swiftGenerics.toTypeTag
  | .location _ => MixinType.location.toTypeTag
  | .functionSignature _ => MixinType.functionSignature.toTypeTag
  | .spi _ => MixinType.spi.toTypeTag
  | .snippet _ => MixinType.snippet.toTypeTag
  | .extension m => m.toTypeTag

/-- The name of a mixin's type. -/
def typeName (mixin : Mixin) : String := mixin.tag.name

/-- The key that a mixin's type declares. -/
def key? (mixin : Mixin) : Option String := mixin.tag.key?

/-- What is written for a mixin. -/
def payload : Mixin → Value
  | .availability m => Availability.codec.wire m
  | .declarationFragments m => DeclarationFragments.codec.wire m
  | .mutability m => Mutability.codec.wire m
  | .swiftExtension m => SwiftExtension.codec.wire m
  | .swiftGenerics m => SwiftGenerics.codec.wire m
  | .location m => Location.codec.wire m
  | .functionSignature m => FunctionSignature.codec.wire m
  | .spi m => Spi.codec.wire m
  | .snippet m => Snippet.codec.wire m
  | .extension m => m.payload

/-- All fields of a mixin. -/
def fields : Mixin → Value
  | .availability m => Availability.codec.fields m
  | .declarationFragments m => DeclarationFragments.codec.fields m
  | .mutability m => Mutability.codec.fields m
  | .swiftExtension m => SwiftExtension.codec.fields m
  | .swiftGenerics m => SwiftGenerics.codec.fields m
  | .location m => Location.codec.fields m
  | .functionSignature m => FunctionSignature.codec.fields m
  | .spi m => Spi.codec.fields m
  | .snippet m => Snippet.codec.fields m
  | .extension m => m.fields

/-- Whether a mixin is of a type, or of one that is derived from it. -/
def isOf (mixin : Mixin) (type : MixinType) : Bool := mixin.tag.isKindOf type.toTypeTag

/-- Whether two mixins are of one type and agree in every field.  The slices of a snippet may stand
in any order. -/
def agrees : Mixin → Mixin → Bool
  | .snippet a, .snippet b =>
    a.language == b.language && a.lines == b.lines && a.slices.agrees b.slices
  | a, b => a == b

end Mixin

end SymbolRecord
