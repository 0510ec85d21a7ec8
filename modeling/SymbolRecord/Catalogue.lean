import SymbolRecord.Reference
/-!
# The standard catalogue

References in a configuration can name the built-in mixin types.  Each type stands in a module of
its own group, and all of them stand in the module `symbolgraph.mixins`.  The base type, which has
no key, can be referred to as well.

* `Catalogue.standard`: the modules of the built-in mixin types.
-/

namespace SymbolRecord

namespace MixinType

/-- The base type: it has neither a key nor fields. -/
def base : MixinType :=
  extension ⟨TypeTag.baseNumber, "Mixin", none, []⟩ ((Fields.start ()).codec "Mixin")

/-- A mixin type as what a reference can lead to.  Its key is an attribute. -/
def exposed (type : MixinType) : String × Exposed :=
  (type.name, .mixinType type (type.key?.toList.map fun key => ("mixin_key", .text key)))

end MixinType

namespace Catalogue

/-- The groups of the built-in mixin types. -/
def groups : List (String × List MixinType) :=
  [("availability", [.availability]), ("base", [.base]),
    ("declarations", [.declarationFragments, .functionSignature]),
    ("flags", [.mutability, .spi]), ("location", [.location]), ("snippet", [.snippet]),
    ("swift", [.swiftExtension, .swiftGenerics])]

/-- The module of a group. -/
def ofGroup (group : String × List MixinType) : String × Module :=
  ("symbolgraph.mixins." ++ group.1, ⟨false, group.2.map MixinType.exposed⟩)

/-- The modules of the built-in mixin types. -/
def standard : Catalogue :=
  [("symbolgraph", ⟨true, [MixinType.exposed .base]⟩),
    ("symbolgraph.mixins", ⟨true, (.base :: MixinType.builtin).map MixinType.exposed⟩)]
    ++ groups.map ofGroup

end Catalogue

end SymbolRecord
