import SymbolRecord.Reading
import SymbolRecord.Number.Numeral
/-!
# Codecs

Every typed part of a record has a codec, which reads it out of a value and writes it in two ways:
in *wire form*, as it stands in a file, with the keys of the format and without absent fields, and
as *fields*, with the names that the records themselves use and with absent fields as nulls.

Reading is lenient where the format's writers have been: integers and truth values may be spelled
as texts or as other numbers, a field is found under its wire key or, failing that, under its own
name, and unknown keys are ignored.

The codec of a record is described field by field.  A description `Fields ρ α` reads an `α` out of
the entries of an object and writes the part of a record `ρ` that it stands for; `Fields.and`
puts a further field behind a description, so a record is the constructor followed by its fields.

* `Codec`: reading and the two ways of writing.
* `Codec.text`, `Codec.integer`, `Codec.flag`, `Codec.strictFlag`, `Codec.choice`: scalars.
* `Codec.listOf`, `Codec.tableOf`, `Codec.optional`: lists, maps and values that may be absent.
* `Codec.bare`, `Codec.restricted`: records of one field, and records that pass a test.
* `Slot`, `Fields`, `Fields.codec`: records.
-/

namespace SymbolRecord

/-- How a type is read out of a value and written as one. -/
structure Codec (α : Type) where
  /-- Reads a value. -/
  read : Value → Reading α
  /-- Writes the form that stands in files. -/
  wire : α → Value
  /-- Writes all fields under their own names. -/
  fields : α → Value

/-- The key of a field in files, and its own name. -/
structure Slot where
  /-- The key in files. -/
  key : String
  /-- The field's own name. -/
  name : String

/-- A field whose key and name are the same. -/
def Slot.same (name : String) : Slot := ⟨name, name⟩

/-- The value of a field and the key it was found under: the wire key wins, even with a null. -/
def Slot.find? (slot : Slot) (entries : Entries Value) : Option (String × Value) :=
  match Entries.get? entries slot.key with
  | some v => some (slot.key, v)
  | none => (Entries.get? entries slot.name).map fun v => (slot.name, v)

/-- How a record of type `α` is read out of the entries of an object, and how the part of a record
of type `ρ` that it stands for is written. -/
structure Fields (ρ α : Type) where
  /-- Reads the entries of an object. -/
  read : Entries Value → Reading α
  /-- Writes the wire form of the part. -/
  wire : ρ → Entries Value
  /-- Writes the fields of the part. -/
  fields : ρ → Entries Value

namespace Codec

variable {α β : Type}

/-! ## Scalars -/

/-- A codec of a type that is written the same way in both forms. -/
def scalar (read : Value → Reading α) (write : α → Value) : Codec α := ⟨read, write, write⟩

/-- Reads a text. -/
def readText : Value → Reading String
  | .text s => .accepted s
  | v => .fail .text v

/-- Texts. -/
def text : Codec String := scalar readText .text

/-- Whether an integer lies strictly inside the range of signed 64-bit integers. -/
def isInside (n : Int) : Bool :=
  NumberLiteral.leastInteger < n && n < -NumberLiteral.leastInteger

/-- Reads an integer: from an integer of any size, a truth value, a whole double or a text. -/
def readInteger : Value → Reading Int
  | .int n => .accepted n
  | .bool b => .accepted (if b then 1 else 0)
  | .float x =>
    match x.whole? with
    | none => .fail .fraction (.float x)
    | some n => if isInside n then .accepted n else .fail .integerSize (.float x)
  | .text s =>
    match Numeral.read s with
    | .integer n => .accepted n
    | .tooLong => .fail .integerSize (.text s)
    | .malformed => .fail .integerText (.text s)
  | v => .fail .integer v

/-- Integers. -/
def integer : Codec Int := scalar readInteger .int

/-- The texts that stand for false, in lower case. -/
def falseWords : List String := ["0", "off", "f", "false", "n", "no"]

/-- The texts that stand for true, in lower case. -/
def trueWords : List String := ["1", "on", "t", "true", "y", "yes"]

/-- The truth value that an integer stands for. -/
def flagOfInteger (n : Int) (v : Value) : Reading Bool :=
  if n = 0 then .accepted false else if n = 1 then .accepted true else .fail .flagText v

/-- Reads a truth value: from a truth value, a whole number or a word in any case.  A number
outside the range of signed 64-bit integers stands for nothing. -/
def readFlag : Value → Reading Bool
  | .bool b => .accepted b
  | .int n =>
    if NumberLiteral.leastInteger ≤ n ∧ n < -NumberLiteral.leastInteger then
      flagOfInteger n (.int n)
    else .fail .flag (.int n)
  | .float x =>
    match x.whole? with
    | some n => if isInside n then flagOfInteger n (.float x) else .fail .flag (.float x)
    | none => .fail .flag (.float x)
  | .text s =>
    let lower := String.ofList (s.toList.map Char.toLower)
    if lower ∈ falseWords then .accepted false
    else if lower ∈ trueWords then .accepted true
    else .fail .flagText (.text s)
  | v => .fail .flag v

/-- Truth values, leniently. -/
def flag : Codec Bool := scalar readFlag .bool

/-- Reads a truth value from nothing but a truth value. -/
def readStrictFlag : Value → Reading Bool
  | .bool b => .accepted b
  | v => .fail .flag v

/-- Truth values, strictly. -/
def strictFlag : Codec Bool := scalar readStrictFlag .bool

/-- One of several named alternatives. -/
def choice (all : List α) (name : α → String) : Codec α :=
  scalar
    (fun v =>
      let found := match v with
        | .text s => all.find? fun a => name a = s
        | _ => none
      match found with
      | some a => .accepted a
      | none => .fail (.choice (all.map name)) v)
    fun a => .text (name a)

/-! ## Containers -/

/-- Reads the items of a list from a position on. -/
def readItems (read : Value → Reading α) : Nat → List Value → Reading (List α)
  | _, [] => .accepted []
  | position, v :: rest =>
    .both (· :: ·) ((read v).within (.index position)) (readItems read (position + 1) rest)

/-- Lists. -/
def listOf (item : Codec α) : Codec (List α) where
  read
    | .list items => readItems item.read 0 items
    | v => .fail .list v
  wire as := .list (as.map item.wire)
  fields as := .list (as.map item.fields)

/-- Reads the values of an object. -/
def readEntries (read : Value → Reading α) : List (String × Value) → Reading (List (String × α))
  | [] => .accepted []
  | (key, v) :: rest =>
    .both (fun a as => (key, a) :: as) ((read v).within (.key key)) (readEntries read rest)

/-- Maps with any keys. -/
def tableOf (item : Codec α) : Codec (Table α) where
  read
    | .object entries => (readEntries item.read entries).map Table.ofPairs
    | v => .fail .table v
  wire table := .object (Entries.mapValues item.wire table.entries)
  fields table := .object (Entries.mapValues item.fields table.entries)

/-- Values that may be absent. -/
def optional (item : Codec α) : Codec (Option α) where
  read
    | .null => .accepted none
    | v => (item.read v).map some
  wire
    | none => .null
    | some a => item.wire a
  fields
    | none => .null
    | some a => item.fields a

/-- A record whose wire form is nothing but the value of its only field. -/
def bare (name : String) (field : Codec β) (make : β → α) (get : α → β) : Codec α where
  read v := ((field.read v).within (.key name)).map make
  wire a := field.wire (get a)
  fields a := .object [(name, field.fields (get a))]

/-- A type whose members are those records that pass a test; a record that does not is refused
with a reason. -/
def restricted (codec : Codec β) (make : β → Except String α) (get : α → β) : Codec α where
  read v := (codec.read v).check fun b =>
    match make b with
    | .ok a => .accepted a
    | .error reason => .fail (.refused reason) v
  wire a := codec.wire (get a)
  fields a := codec.fields (get a)

end Codec

namespace Fields

variable {ρ α β : Type}

/-- A description without fields. -/
def start (a : α) : Fields ρ α := ⟨fun _ => .accepted a, fun _ => [], fun _ => []⟩

/-- The wire form of a field: nothing when its value is absent. -/
def written (slot : Slot) (v : Value) : Entries Value :=
  if v.isNull then [] else [(slot.key, v)]

/-- One field; without `default?` it is required. -/
def one (slot : Slot) (codec : Codec α) (default? : Option α) (get : ρ → α) : Fields ρ α where
  read entries :=
    match slot.find? entries, default? with
    | some (key, v), _ => (codec.read v).within (.key key)
    | none, some a => .accepted a
    | none, none => .rejected ⟨[.key slot.key], .missing, (Value.object entries).typeName⟩ []
  wire r := written slot (codec.wire (get r))
  fields r := [(slot.name, codec.fields (get r))]

/-- Puts a further field behind a description. -/
def and (description : Fields ρ (α → β)) (field : Fields ρ α) : Fields ρ β where
  read entries := .both (fun f a => f a) (description.read entries) (field.read entries)
  wire r := description.wire r ++ field.wire r
  fields r := description.fields r ++ field.fields r

/-- Puts a required field behind a description. -/
def required (description : Fields ρ (α → β)) (slot : Slot) (codec : Codec α) (get : ρ → α) :
    Fields ρ β :=
  description.and (one slot codec none get)

/-- Puts a field behind a description that has a default when its key is absent. -/
def defaulted (description : Fields ρ (α → β)) (slot : Slot) (codec : Codec α) (a : α)
    (get : ρ → α) : Fields ρ β :=
  description.and (one slot codec (some a) get)

/-- Puts a field behind a description that may be absent or null. -/
def optional (description : Fields ρ (Option α → β)) (slot : Slot) (codec : Codec α)
    (get : ρ → Option α) : Fields ρ β :=
  description.defaulted slot codec.optional none get

/-- Puts a list behind a description that is left out of the wire form when it is empty. -/
def list (description : Fields ρ (List α → β)) (slot : Slot) (codec : Codec α)
    (get : ρ → List α) : Fields ρ β :=
  let field := one slot codec.listOf (some []) get
  description.and { field with wire := fun r => if (get r).isEmpty then [] else field.wire r }

/-- The codec of a record of some name. -/
def codec (name : String) (description : Fields ρ ρ) : Codec ρ where
  read
    | .object entries => description.read entries
    | v => .fail (.record name) v
  wire r := .object (description.wire r)
  fields r := .object (description.fields r)

end Fields

end SymbolRecord
