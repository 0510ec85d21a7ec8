import SymbolRecord.Codec
/-!
# Extensions and generics

A symbol that is declared in an extension names the extended module and the constraints of the
extension.  A generic symbol has parameters and constraints on them.

* `ConstraintKind`, `GenericConstraint`, `GenericParameter`.
* `SwiftExtension`, `SwiftGenerics`: the mixins.
-/

namespace SymbolRecord

/-- What a generic constraint demands. -/
inductive ConstraintKind where
  | conformance | superclass | sameType | sameShape
  deriving DecidableEq

namespace ConstraintKind

/-- All constraint kinds. -/
def all : List ConstraintKind := [.conformance, .superclass, .sameType, .sameShape]

/-- The word for a constraint kind. -/
def word : ConstraintKind → String
  | .conformance => "conformance"
  | .superclass => "superclass"
  | .sameType => "sameType"
  | .sameShape => "sameShape"

/-- Constraint kinds. -/
def codec : Codec ConstraintKind := .choice all word

end ConstraintKind

/-- A demand such as `T: Hashable` or `T == Int`. -/
structure GenericConstraint where
  /-- What is demanded. -/
  kind : ConstraintKind
  /-- The left-hand side. -/
  lhs : String
  /-- The right-hand side. -/
  rhs : String
  deriving DecidableEq

/-- Generic constraints. -/
def GenericConstraint.codec : Codec GenericConstraint :=
  (Fields.start GenericConstraint.mk
    |>.required (.same "kind") ConstraintKind.codec kind
    |>.required (.same "lhs") Codec.text lhs
    |>.required (.same "rhs") Codec.text rhs).codec "GenericConstraint"

/-- A generic parameter. -/
structure GenericParameter where
  /-- Its name. -/
  name : String
  /-- Its place among the parameters of its depth. -/
  index : Int
  /-- How many generic contexts lie around it. -/
  depth : Int
  deriving DecidableEq

/-- Generic parameters. -/
def GenericParameter.codec : Codec GenericParameter :=
  (Fields.start GenericParameter.mk
    |>.required (.same "name") Codec.text name
    |>.required (.same "index") Codec.integer index
    |>.required (.same "depth") Codec.integer depth).codec "GenericParameter"

/-- The extension in which a symbol is declared. -/
structure SwiftExtension where
  /-- The module whose type is extended. -/
  extendedModule : String
  /-- The kind of the extended type. -/
  typeKind : Option String
  /-- The constraints of the extension. -/
  constraints : List GenericConstraint
  deriving DecidableEq

/-- Extensions. -/
def SwiftExtension.codec : Codec SwiftExtension :=
  (Fields.start SwiftExtension.mk
    |>.required ⟨"extendedModule", "extended_module"⟩ Codec.text extendedModule
    |>.optional ⟨"typeKind", "type_kind"⟩ Codec.text typeKind
    |>.list (.same "constraints") GenericConstraint.codec constraints).codec "SwiftExtension"

/-- The generic parameters of a symbol. -/
structure SwiftGenerics where
  /-- The parameters. -/
  parameters : List GenericParameter
  /-- The constraints on them. -/
  constraints : List GenericConstraint
  deriving DecidableEq

/-- Generics. -/
def SwiftGenerics.codec : Codec SwiftGenerics :=
  (Fields.start SwiftGenerics.mk
    |>.list (.same "parameters") GenericParameter.codec parameters
    |>.list (.same "constraints") GenericConstraint.codec constraints).codec "SwiftGenerics"

end SymbolRecord
