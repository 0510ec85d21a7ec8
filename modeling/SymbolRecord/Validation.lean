import SymbolRecord.Coder
import SymbolRecord.FileTree
/-!
# Validation

Validating a file decodes every record in it as a consumer would and collects what went wrong
instead of stopping at the first error.  Keys that decoding leaves out are warnings, or errors when
validation is strict.  A file whose name ends in `.jsonl` holds one record to a line; any other file
holds one document, which is one record or a list of records.

* `Remark`: one error or warning and the place it is about.
* `Verdict`: all errors and warnings of a file, and how many records decoded.
* `Verdict.ofLines`, `Verdict.ofDocument`, `Verdict.ofFile`: the verdict on a content or a file.
-/

namespace SymbolRecord

/-- An error or warning about a file. -/
structure Remark where
  /-- The file. -/
  path : String
  /-- What is wrong. -/
  message : String
  /-- The line of the record, in a file with one record to a line. -/
  line : Option Int
  /-- The key at fault. -/
  key : Option String
  /-- The position of the record, in a list of records. -/
  index : Option Int
  deriving DecidableEq

namespace Remark

/-- The place that a remark is about: the file with the line, or else with the position. -/
def location (remark : Remark) : String :=
  match remark.line, remark.index with
  | some line, _ => remark.path ++ ":" ++ String.ofList (NumberLiteral.write line)
  | none, some index => remark.path ++ "[" ++ String.ofList (NumberLiteral.write index) ++ "]"
  | none, none => remark.path

end Remark

/-- What validating a file found. -/
structure Verdict where
  /-- The errors. -/
  errors : List Remark
  /-- The warnings. -/
  warnings : List Remark
  /-- How many records decoded. -/
  count : Nat
  deriving DecidableEq

/-- The place of a record in a file. -/
structure RecordPlace where
  /-- The file. -/
  path : String
  /-- The line. -/
  line : Option Nat
  /-- The position in a list. -/
  index : Option Nat

/-- A remark about a record. -/
def RecordPlace.remark (place : RecordPlace) (message : String) (key : Option String) : Remark :=
  ⟨place.path, message, place.line.map Int.ofNat, key, place.index.map Int.ofNat⟩

namespace Verdict

/-- The verdict on nothing. -/
def empty : Verdict := ⟨[], [], 0⟩

/-- The verdict with one error. -/
def ofError (remark : Remark) : Verdict := ⟨[remark], [], 0⟩

/-- The verdicts on two parts of a file, as one. -/
def append (a b : Verdict) : Verdict :=
  ⟨a.errors ++ b.errors, a.warnings ++ b.warnings, a.count + b.count⟩

instance : Append Verdict := ⟨append⟩

/-- Whether there are no errors. -/
def ok (verdict : Verdict) : Bool := verdict.errors.isEmpty

@[simp] theorem errors_append (a b : Verdict) : (a ++ b).errors = a.errors ++ b.errors := rfl

@[simp] theorem warnings_append (a b : Verdict) :
    (a ++ b).warnings = a.warnings ++ b.warnings := rfl

@[simp] theorem count_append (a b : Verdict) : (a ++ b).count = a.count + b.count := rfl

/-- The sentence with a full stop. -/
def sentence (message : String) : String := message ++ "."

/-- The verdict on a record that decoded. -/
def ofUnrecognized (place : RecordPlace) (strict : Bool) (keys : List String) : Verdict :=
  let remarks := keys.map fun key =>
    place.remark ("Unrecognized key " ++ Text.quote key ++ " dropped.") (some key)
  if strict then ⟨remarks, [], 1⟩ else ⟨[], remarks, 1⟩

/-- The verdict on a record.  What code that a caller brought fails with is passed on. -/
def ofRecord (registry : Registry) (strict : Bool) (place : RecordPlace) (v : Value) :
    Run Verdict :=
  match v with
  | .object record =>
    let run := Symbol.decode registry v
    match run.outcome with
    | .ok _ =>
      let found := Symbol.reportUnrecognized registry record
      ⟨run.events ++ found.events, found.outcome.map (ofUnrecognized place strict)⟩
    | .error (.decode error) =>
      ⟨run.events, .ok (ofError (place.remark (sentence error.message) error.key?))⟩
    | .error failure => ⟨run.events, .error failure⟩
  | _ => .ok (ofError (place.remark (sentence (DecodeError.notObjectMessage v.typeName)) none))

/-- The verdicts on several parts, joined. -/
def ofAll {α : Type} (f : α → Run Verdict) (parts : List α) : Run Verdict :=
  (Run.forAll f parts).andThen fun verdicts => .ok (verdicts.foldr append empty)

variable [Wording]

/-- The verdict on a numbered line. -/
def ofLine (registry : Registry) (strict : Bool) (path : String) (line : Nat × Bytes) :
    Run Verdict :=
  let place : RecordPlace := ⟨path, some line.1, none⟩
  match Json.parse? line.2 with
  | none =>
    let message := DecodeError.malformedMessage (Wording.document line.2)
    .ok (ofError (place.remark (sentence message) none))
  | some v => ofRecord registry strict place v

/-- The verdict on a content with one record to a line. -/
def ofLines (registry : Registry) (strict : Bool) (path : String) (content : Bytes) :
    Run Verdict :=
  ofAll (ofLine registry strict path) content.numberedLines

/-- The verdict on a content that is one document. -/
def ofDocument (registry : Registry) (strict : Bool) (path : String) (content : Bytes) :
    Run Verdict :=
  match Json.parse? content with
  | none =>
    let message := DecodeError.malformedMessage (Wording.document content)
    .ok (ofError ⟨path, sentence message, none, none, none⟩)
  | some (.list items) =>
    ofAll (fun item => ofRecord registry strict ⟨path, none, some item.1⟩ item.2)
      (Bytes.numberFrom 0 items)
  | some v => ofRecord registry strict ⟨path, none, none⟩ v

/-- The ending of the names of files with one record to a line. -/
def linesSuffix : String := ".jsonl"

/-- Whether a file holds one record to a line. -/
def isLines (path : Path) : Bool := path.suffix = linesSuffix

/-- The verdict on the content of a file. -/
def ofContent (registry : Registry) (strict : Bool) (path : Path) (content : Bytes) :
    Run Verdict :=
  if isLines path then ofLines registry strict path.text content
  else ofDocument registry strict path.text content

/-- The verdict on what stands at a path. -/
def ofFile (registry : Registry) (strict : Bool) (path : Path) (node? : Option FileNode) :
    Run Verdict :=
  match node? with
  | none => .ok (ofError ⟨path.text, "Symbol file does not exist.", none, none, none⟩)
  | some .directory => .ok (ofError ⟨path.text, "Symbol path is not a file.", none, none, none⟩)
  | some (.file content) => ofContent registry strict path content

end Verdict

end SymbolRecord
