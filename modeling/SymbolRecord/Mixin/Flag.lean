import SymbolRecord.Codec
/-!
# Flags

Two mixins are nothing but a truth value, and their payload is that value.

* `Mutability`: whether a variable is read-only.
* `Spi`: whether a symbol is part of a system programming interface.
-/

namespace SymbolRecord

/-- Whether a variable or property is read-only. -/
structure Mutability where
  /-- True if it is read-only. -/
  isReadOnly : Bool
  deriving DecidableEq

/-- Mutabilities. -/
def Mutability.codec : Codec Mutability :=
  .bare "is_read_only" Codec.strictFlag Mutability.mk Mutability.isReadOnly

/-- Whether a symbol is published as a system programming interface. -/
structure Spi where
  /-- True if it is. -/
  isSpi : Bool
  deriving DecidableEq

/-- System programming interfaces. -/
def Spi.codec : Codec Spi := .bare "is_spi" Codec.strictFlag Spi.mk Spi.isSpi

end SymbolRecord
