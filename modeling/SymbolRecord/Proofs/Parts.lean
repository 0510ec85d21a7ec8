import SymbolRecord.Proofs.Judgment
/-!
# The parts of a content

A file with one record to a line and a file that is one document are judged by different code, but
in the same way: the content comes apart into parts, each with the place it stands at, and the
verdict joins what is said of each.  A part is a line, or an item of a list, or the whole document;
it is no JSON, in the words of the parser, or it is judged as a record.

* `Verdict.Part`, `Verdict.readPart`, `Verdict.parts`: the parts of a content.
* `Verdict.outcome_ofContent`: the verdict on a content, from its parts.
* `Verdict.errors_ofContent_eq_nil_iff`: a content is accepted when each of its parts is.
-/

namespace SymbolRecord

open Json

namespace Verdict

/-- A part of a content that is judged on its own. -/
structure Part where
  /-- Where the part stands. -/
  place : RecordPlace
  /-- The value of the part, or the words of the parser if it is no JSON. -/
  reading : Except String Value

namespace Part

/-- The value of a part, unless it is no JSON. -/
def value? (part : Part) : Option Value := part.reading.toOption

/-- The part that is an item of a list. -/
def ofItem (path : String) (item : Nat × Value) : Part := ⟨⟨path, none, some item.1⟩, .ok item.2⟩

/-- The verdict on a part. -/
def judge (registry : Registry) (strict : Bool) (part : Part) : Verdict :=
  match part.reading with
  | .error words =>
    ofError (part.place.remark (sentence (DecodeError.malformedMessage words)) none)
  | .ok v => Verdict.judge registry strict part.place v

theorem value?_eq_some_iff {part : Part} {v : Value} :
    part.value? = some v ↔ part.reading = .ok v := by
  rw [value?]
  cases part.reading with
  | error words => simp [Except.toOption]
  | ok w => simp [Except.toOption]

end Part

variable {registry : Registry}

theorem join_singleton (verdict : Verdict) : join [verdict] = verdict := by
  show (⟨verdict.errors ++ [], verdict.warnings ++ [], verdict.count⟩ : Verdict) = verdict
  rw [List.append_nil, List.append_nil]

/-- A record is accepted strictly when it is decoded and no key is left out. -/
theorem errors_judge_eq_nil_iff (h : registry.Standard) {place : RecordPlace} {v : Value} :
    (judge registry true place v).errors = [] ↔
      (∃ symbol, (Symbol.decode registry v).outcome = .ok symbol) ∧ leftOut registry v = [] := by
  cases hdecode : (Symbol.decode registry v).outcome with
  | ok symbol =>
    rw [judge_of_ok hdecode]
    show (leftOut registry v).map _ = [] ↔ _
    rw [List.map_eq_nil_iff]
    exact ⟨fun hnil => ⟨⟨symbol, rfl⟩, hnil⟩, And.right⟩
  | error failure =>
    obtain ⟨error, rfl⟩ := Symbol.failsBy_decode h v failure hdecode
    rw [judge_of_error hdecode]
    refine iff_of_false (List.cons_ne_nil _ _) ?_
    rintro ⟨⟨symbol, hsymbol⟩, -⟩
    nomatch hsymbol

/-- A part is accepted strictly when it is JSON and accepted as a record. -/
theorem errors_judge_part_eq_nil_iff (h : registry.Standard) {part : Part} :
    (part.judge registry true).errors = [] ↔
      ∃ v symbol, part.value? = some v ∧ (Symbol.decode registry v).outcome = .ok symbol ∧
        leftOut registry v = [] := by
  simp only [Part.judge, Part.value?_eq_some_iff]
  cases hreading : part.reading with
  | error words =>
    refine iff_of_false (List.cons_ne_nil _ _) ?_
    rintro ⟨v, symbol, hv, -⟩
    nomatch hv
  | ok v =>
    rw [errors_judge_eq_nil_iff h]
    constructor
    · rintro ⟨⟨symbol, hsymbol⟩, hleft⟩
      exact ⟨v, symbol, rfl, hsymbol, hleft⟩
    · rintro ⟨w, symbol, hw, hsymbol, hleft⟩
      obtain rfl := Except.ok.inj hw
      exact ⟨⟨symbol, hsymbol⟩, hleft⟩

variable [Wording]

/-- What the parser makes of a part that is a text of its own. -/
def readPart (bytes : Bytes) : Except String Value :=
  match parse? bytes with
  | none => .error (Wording.document bytes)
  | some v => .ok v

/-- The part that is a numbered line. -/
def Part.ofLine (path : String) (line : Nat × Bytes) : Part :=
  ⟨⟨path, some line.1, none⟩, readPart line.2⟩

/-- The parts of a content that is one document. -/
def documentParts (path : String) (content : Bytes) : List Part :=
  match readPart content with
  | .ok (.list items) => (Bytes.numberFrom 0 items).map (Part.ofItem path)
  | reading => [⟨⟨path, none, none⟩, reading⟩]

/-- The parts of a content. -/
def parts (path : Path) (content : Bytes) : List Part :=
  if isLines path then content.numberedLines.map (Part.ofLine path.text)
  else documentParts path.text content

theorem outcome_ofLine (h : registry.Standard) (strict : Bool) (path : String)
    (line : Nat × Bytes) :
    (ofLine registry strict path line).outcome =
      .ok ((Part.ofLine path line).judge registry strict) := by
  simp only [ofLine, Part.judge, Part.ofLine, readPart]
  cases parse? line.2 with
  | none => rfl
  | some v => exact outcome_ofRecord h strict _ v

theorem outcome_ofDocument (h : registry.Standard) (strict : Bool) (path : String)
    (content : Bytes) :
    (ofDocument registry strict path content).outcome =
      .ok (join ((documentParts path content).map (Part.judge registry strict))) := by
  cases hparse : parse? content with
  | none =>
    rw [ofDocument, documentParts, readPart, hparse]
    exact congrArg Except.ok (join_singleton _).symm
  | some v =>
    cases v with
    | list items =>
      rw [outcome_ofDocument_list h strict path hparse, documentParts, readPart, hparse]
      simp only [List.map_map]
      rfl
    | _ =>
      rw [ofDocument, documentParts, readPart, hparse]
      simp only [List.map_singleton, join_singleton]
      exact outcome_ofRecord h strict _ _

/-- **The verdict on a content joins the verdicts on its parts**, and never fails. -/
theorem outcome_ofContent (h : registry.Standard) (strict : Bool) (path : Path) (content : Bytes) :
    (ofContent registry strict path content).outcome =
      .ok (join ((parts path content).map (Part.judge registry strict))) := by
  rw [ofContent, parts]
  cases isLines path with
  | false => exact outcome_ofDocument h strict path.text content
  | true =>
    rw [if_pos rfl, if_pos rfl, List.map_map]
    exact outcome_ofAll fun line _ => outcome_ofLine h strict path.text line

/-! ## What is accepted -/

/-- A verdict without errors on what stands at a path is one on the content of a file. -/
theorem exists_content_of_ofFile {strict : Bool} {path : Path} {node? : Option FileNode}
    {verdict : Verdict}
    (h : (ofFile registry strict path node?).outcome = .ok verdict)
    (herrors : verdict.errors = []) :
    ∃ content, node? = some (.file content) ∧
      (ofContent registry strict path content).outcome = .ok verdict := by
  cases node? with
  | none =>
    rw [← Except.ok.inj h] at herrors
    exact absurd herrors (by simp [ofError])
  | some node =>
    cases node with
    | directory =>
      rw [← Except.ok.inj h] at herrors
      exact absurd herrors (by simp [ofError])
    | file content => exact ⟨content, rfl, h⟩

/-- **A content is accepted strictly when each of its parts is.** -/
theorem errors_ofContent_eq_nil_iff (h : registry.Standard) {path : Path} {content : Bytes}
    {verdict : Verdict} (hverdict : (ofContent registry true path content).outcome = .ok verdict) :
    verdict.errors = [] ↔
      ∀ part ∈ parts path content, ∃ v symbol, part.value? = some v ∧
        (Symbol.decode registry v).outcome = .ok symbol ∧ leftOut registry v = [] := by
  rw [outcome_ofContent h, Except.ok.injEq] at hverdict
  rw [← hverdict, errors_join, List.flatMap_eq_nil_iff, List.forall_mem_map]
  exact forall₂_congr fun part _ => errors_judge_part_eq_nil_iff h

end Verdict

end SymbolRecord
