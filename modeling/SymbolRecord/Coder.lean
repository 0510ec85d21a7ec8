import SymbolRecord.Symbol.Encode
import SymbolRecord.Json.Document
import SymbolRecord.Lines
import SymbolRecord.Wording
/-!
# Coders

A coder carries the registrations of its caller and turns bytes into symbols and back.  Every call
works on the registrations as they stand when it starts; what a decoder registers meanwhile counts
for later calls only.

Symbols travel in three ways: one to a document, several in one document as a list, and several in
a text with one to a line.  Written documents have their keys in ascending order at every depth.

* `Coder.register`, `Coder.snapshot`: registrations.
* `Coder.decode`, `Coder.decodeDocument`, `Coder.decodeLines`: reading.
* `Coder.encode`, `Coder.encodeList`, `Coder.encodeLines`: writing.
-/

namespace SymbolRecord

/-- The registrations of a caller, and how documents are laid out. -/
structure Coder where
  /-- Whether documents are indented. -/
  indent : Bool
  /-- The registered descriptors by key. -/
  registered : Table Descriptor

/-- What can be registered. -/
inductive Registration where
  /-- A mixin type, with its own descriptor. -/
  | type (type : MixinType)
  /-- A descriptor. -/
  | descriptor (descriptor : Descriptor)

namespace Registration

/-- The descriptor that is registered.  A type without a key has none. -/
def descriptor? : Registration → Except Failure Descriptor
  | .descriptor d => .ok d
  | .type t =>
    match t.key? with
    | some key => .ok (t.descriptor key)
    | none => .error (.keyless t.name)

end Registration

/-- The symbols of a document. -/
inductive Document where
  /-- One symbol. -/
  | single (symbol : Symbol)
  /-- A list of symbols. -/
  | several (symbols : List Symbol)

namespace Coder

/-- A coder without registrations. -/
def new (indent : Bool) : Coder := ⟨indent, .empty⟩

/-- The logger of coders. -/
def logger : String := "symbolgraph.coder"

/-- Notes that a registration under a built-in key is without effect. -/
def noteBuiltin (key : String) : List Event :=
  if Registry.isBuiltin key then
    [.log logger ("Mixin key " ++ Text.quote key ++ " is built in; the built-in descriptor wins")]
  else []

/-- Registers one descriptor; an earlier one under the same key is replaced in its place. -/
def add (coder : Coder) (descriptor : Descriptor) : Coder :=
  { coder with registered := coder.registered.put descriptor.key descriptor }

/-- Registers mixin types and descriptors in order.  What comes before a type without a key stays
registered. -/
def register (coder : Coder) : List Registration → Coder × Run Unit
  | [] => (coder, .ok ())
  | registration :: rest =>
    match registration.descriptor? with
    | .error failure => (coder, .fail failure)
    | .ok descriptor =>
      let (coder, run) := register (coder.add descriptor) rest
      (coder, ⟨noteBuiltin descriptor.key ++ run.events, run.outcome⟩)

/-- Registers the types that a run has asked for. -/
def absorb (coder : Coder) : List Event → Coder
  | [] => coder
  | .register type :: rest => absorb (coder.register [.type type]).1 rest
  | .log .. :: rest => absorb coder rest

/-- The registry of the registrations as they stand. -/
def snapshot (coder : Coder) : Registry := ⟨coder.registered⟩

/-- How the documents of the coder are laid out. -/
def layout (coder : Coder) : Json.Layout := if coder.indent then .indented else .compact

/-! ## Reading -/

section Reading

variable [Wording]

/-- The value of a JSON document. -/
def parse (bytes : Bytes) : Run Value :=
  match Json.parse? bytes with
  | some v => .ok v
  | none => .fail (.decode (.malformed (Wording.document bytes)))

/-- The symbol of a document. -/
def decode (coder : Coder) (bytes : Bytes) : Run Symbol :=
  (parse bytes).andThen (Symbol.decode coder.snapshot)

/-- The symbol or symbols of a document. -/
def decodeDocument (coder : Coder) (bytes : Bytes) : Run Document :=
  (parse bytes).andThen fun
    | .list items =>
      (Run.forAll (Symbol.decode coder.snapshot) items).andThen fun symbols =>
        .ok (.several symbols)
    | v => (Symbol.decode coder.snapshot v).andThen fun symbol => .ok (.single symbol)

/-- The symbols of a text with one to a line. -/
def decodeLines (coder : Coder) (bytes : Bytes) : Run (List Symbol) :=
  Run.forAll (fun line => (parse line).andThen (Symbol.decode coder.snapshot)) bytes.records

end Reading

/-! ## Writing -/

/-- The bytes of a value with all keys in ascending order. -/
def print (layout : Json.Layout) (v : Value) : Run Bytes :=
  match Json.document layout (Json.sortKeys v) with
  | .ok bytes => .ok bytes
  | .error reason => .fail (.encode ⟨reason⟩)

/-- The document of a symbol. -/
def encode (coder : Coder) (symbol : Symbol) : Run Bytes :=
  (symbol.encode coder.snapshot).andThen fun container => print coder.layout (.object container)

/-- The document of a list of symbols. -/
def encodeList (coder : Coder) (symbols : List Symbol) : Run Bytes :=
  (Run.forAll (Symbol.encode coder.snapshot) symbols).andThen fun containers =>
    print coder.layout (.list (containers.map .object))

/-- The document of one symbol or of a list of symbols. -/
def encodeDocument (coder : Coder) : Document → Run Bytes
  | .single symbol => coder.encode symbol
  | .several symbols => coder.encodeList symbols

/-- The text of symbols with one to a line, which is never indented. -/
def encodeLines (coder : Coder) (symbols : List Symbol) : Run Bytes :=
  (Run.forAll
    (fun symbol =>
      (Symbol.encode coder.snapshot symbol).andThen fun container =>
        (print .compact (.object container)).andThen fun line => .ok (line ++ [0x0A]))
    symbols).andThen fun lines => .ok lines.flatten

end Coder

end SymbolRecord
