import SymbolRecord.Symbol.Decode
/-!
# Encoding symbols

A symbol is encoded into one object: the core fields first, then its mixins in ascending order of
their keys, each written by the encoder that its key resolves to.  A mixin under the key of a core
field, or under a key without an encoder, is left out with a note.

* `Symbol.encode`: the object of a symbol.
-/

namespace SymbolRecord

namespace Symbol

/-- Notes that a mixin is left out. -/
def noteOmitted (key : String) : Run Unit :=
  .log logger ("Omitting unregistered mixin " ++ Text.quote key)

/-- How the mixin under a key is written into the object of a symbol, if it is. -/
def mixinEncoder? (registry : Registry) (key : String) : Option Encoder :=
  if Core.isKey key then none else registry.encoder? key

/-- Writes the mixins under the given keys into an object, one after another. -/
def writeMixins (registry : Registry) (mixins : Table Mixin) :
    List String → Entries Value → Run (Entries Value)
  | [], container => .ok container
  | key :: rest, container =>
    match mixinEncoder? registry key, mixins.get? key with
    | some encoder, some mixin =>
      (encoder key mixin container).andThen fun container =>
        writeMixins registry mixins rest container
    | _, _ => (noteOmitted key).andThen fun _ => writeMixins registry mixins rest container

/-- The object of a symbol. -/
def encode (registry : Registry) (symbol : Symbol) : Run (Entries Value) :=
  writeMixins registry symbol.mixins symbol.mixins.entries.sortedKeys symbol.toCore.wire

end Symbol

end SymbolRecord
