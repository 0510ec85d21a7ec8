import SymbolRecord.Run
/-!
# Descriptors and registries

A descriptor says how the mixins under one key are read and written.  A registry holds the
descriptors that callers have registered; the built-in descriptors come on top of it and win over
any extension under the same key.

A descriptor without a decoder makes its key unreadable and one without an encoder makes it
unwritable; in both cases the data is left out without an error.

* `Descriptor`, `MixinType.descriptor`: how the mixins of one type are read and written.
* `Registry`, `Registry.resolve?`: the descriptor that counts for a key.
* `Registry.resolve?_builtin`: an extension never changes what a built-in key resolves to.
-/

namespace SymbolRecord

/-- Writes a mixin, found under a key, into the object of its symbol. -/
abbrev Encoder : Type := String → Mixin → Entries Value → Run (Entries Value)

/-- Reads the mixin under a key out of the object of a symbol. -/
abbrev Decoder : Type := String → Entries Value → Run (Option Mixin)

/-- How the mixins under one key are read and written. -/
structure Descriptor where
  /-- The key. -/
  key : String
  /-- How a mixin is written. -/
  encoder? : Option Encoder
  /-- How a mixin is read. -/
  decoder? : Option Decoder

namespace MixinType

/-- Writes the payload of a mixin under the key where it was found. -/
def encode : Encoder := fun key mixin container => .ok (Entries.put container key mixin.payload)

/-- The name of the logger of a type. -/
def logger (type : MixinType) : String :=
  "symbolgraph.mixins." ++ String.ofList (type.name.toList.map Char.toLower)

/-- Notes that a malformed payload is given up. -/
def noteDropped (type : MixinType) (issues : Nat) : Run Unit :=
  .log type.logger
    ("Dropping malformed " ++ String.ofList (type.name.toList.map Char.toLower) ++ " mixin ("
      ++ toString issues ++ " errors)")

/-- Reads a payload as a run that notes when it is given up. -/
def intake (type : MixinType) (refuse : Report → Failure) (v : Value) : Run (Option Mixin) :=
  match type.read v with
  | .mixin m => .ok (some m)
  | .dropped issues => (type.noteDropped issues).andThen fun _ => .ok none
  | .refused report => .fail (refuse report)

/-- Reads the payload under a key. -/
def decode (type : MixinType) : Decoder := fun key container =>
  match Entries.get? container key with
  | some v => type.intake (fun report => .decode (.payload key report)) v
  | none => .ok none

/-- The descriptor of a type under a key. -/
def descriptor (type : MixinType) (key : String) : Descriptor :=
  ⟨key, some encode, some type.decode⟩

end MixinType

/-- The extensions in force for a run. -/
structure Registry where
  /-- The registered descriptors by key. -/
  extensions : Table Descriptor

namespace Registry

/-- The registry without extensions. -/
def empty : Registry := ⟨.empty⟩

instance : Inhabited Registry := ⟨empty⟩

/-- The built-in descriptors. -/
def builtins : Entries Descriptor :=
  MixinType.builtin.filterMap fun type => type.key?.map fun key => (key, type.descriptor key)

/-- The keys of the built-in descriptors. -/
def builtinKeys : List String := builtins.keys

/-- Whether a key is built in. -/
def isBuiltin (key : String) : Bool := builtins.has key

/-- The registry of descriptors under their own keys; of a repeated key the last one counts. -/
def ofDescriptors (descriptors : List Descriptor) : Registry :=
  ⟨.ofPairs (descriptors.map fun descriptor => (descriptor.key, descriptor))⟩

/-- The descriptor that counts for a key: the built-in one, or else the registered one. -/
def resolve? (registry : Registry) (key : String) : Option Descriptor :=
  match builtins.get? key with
  | some descriptor => some descriptor
  | none => registry.extensions.get? key

/-- Whether a key resolves to a descriptor. -/
def contains (registry : Registry) (key : String) : Bool := (registry.resolve? key).isSome

/-- How the mixin under a key is read, if it can be. -/
def decoder? (registry : Registry) (key : String) : Option Decoder :=
  (registry.resolve? key).bind Descriptor.decoder?

/-- How the mixin under a key is written, if it can be. -/
def encoder? (registry : Registry) (key : String) : Option Encoder :=
  (registry.resolve? key).bind Descriptor.encoder?

/-- An extension never changes what a built-in key resolves to. -/
theorem resolve?_builtin (a b : Registry) {key : String} (h : isBuiltin key = true) :
    a.resolve? key = b.resolve? key := by
  unfold isBuiltin Entries.has at h
  unfold resolve?
  cases he : builtins.get? key with
  | none => simp [he] at h
  | some _ => rfl

end Registry

end SymbolRecord
