import SymbolRecord.Symbol.Basic
/-!
# Decoding symbols

A record is decoded in two steps.  The core fields are read first, and the first issue among them
fails the record.  Then the other keys are gone through in ascending order: a key that resolves to
a decoder is handed to it, and a key that does not is skipped, with a note.

* `Symbol.decode`: the symbol of a record.
* `Symbol.unrecognizedKeys`: the keys that decoding a record leaves out.
-/

namespace SymbolRecord

namespace Symbol

/-- The logger of symbols. -/
def logger : String := "symbolgraph.symbol"

/-- Notes that a key is skipped. -/
def noteSkipped (key : String) : Run Unit :=
  .log logger ("Skipping unrecognized symbol key " ++ Text.quote key)

/-- The keys of a record beside those of the core fields, in ascending order. -/
def otherKeys (record : Entries Value) : List String :=
  record.sortedKeys.filter fun key => !Core.isKey key

/-- Reads the core fields of a record; the first issue fails it. -/
def readCore (record : Entries Value) : Except DecodeError Core :=
  match Core.codec.read (.object (Core.entries record)) with
  | .accepted core => .ok core
  | .rejected first _ =>
    let field := match first.place with
      | step :: _ => step.text
      | [] => ""
    .error (.coreField field first.fault)

/-- Reads the mixins under the given keys of a record, one after another. -/
def readMixins (registry : Registry) (record : Entries Value) :
    List String → Table Mixin → Run (Table Mixin)
  | [], mixins => .ok mixins
  | key :: rest, mixins =>
    match registry.decoder? key with
    | none => (noteSkipped key).andThen fun _ => readMixins registry record rest mixins
    | some decoder =>
      (decoder key record).andThen fun
        | some mixin => readMixins registry record rest (mixins.put key mixin)
        | none => readMixins registry record rest mixins

/-- The symbol of a record. -/
def decode (registry : Registry) : Value → Run Symbol
  | .object record =>
    match readCore record with
    | .error error => .fail (.decode error)
    | .ok core =>
      (readMixins registry record (otherKeys record) .empty).andThen fun mixins =>
        .ok { core with mixins := mixins }
  | v => .fail (.decode (.notObject v.typeName))

/-- Whether decoding leaves out a key. -/
def isUnrecognized (registry : Registry) (key : String) : Bool :=
  (registry.decoder? key).isNone

/-- The keys that decoding a record leaves out, in ascending order. -/
def unrecognizedKeys (registry : Registry) (record : Entries Value) : List String :=
  (otherKeys record).filter (isUnrecognized registry)

/-- Finds the keys that decoding a record leaves out, and notes each. -/
def reportUnrecognized (registry : Registry) (record : Entries Value) : Run (List String) :=
  let keys := unrecognizedKeys registry record
  ⟨keys.flatMap fun key => (noteSkipped key).events, .ok keys⟩

end Symbol

end SymbolRecord
