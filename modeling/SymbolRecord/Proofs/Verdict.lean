import Mathlib.Data.List.Basic
import SymbolRecord.Validation
import SymbolRecord.Proofs.Coder
import SymbolRecord.Proofs.Ending
import SymbolRecord.Proofs.Judgment
import SymbolRecord.Proofs.Lines
import SymbolRecord.Proofs.Normal
import SymbolRecord.Proofs.Standard
/-!
# Verdicts on lines, and what readers read

Validating a file with one record to a line is meant to find what a reader of the file would.  The
two cut the file differently: the reader at line feeds and carriage returns, the verdict at line
feeds alone.  They agree as long as no line has a carriage return inside it, and a file where one
does is never accepted by both, since no record goes on behind a blank that ends it.

* `Verdict.exists_ofAll`: verdicts on parts that report their outcomes, joined.
* `Bytes.Unbroken`: no line has a carriage return inside it.
* `Coder.exists_verdict_of_lines`: when the verdict on a file and its reader agree.
* `Coder.not_agree_at_return`: three files on which they do not.
-/

namespace SymbolRecord

open Json

/-! ## One record -/

namespace Verdict

variable {registry : Registry}

theorem exists_ofRecord (h : registry.Standard) (place : RecordPlace) (v : Value) :
    ∃ verdict, (ofRecord registry false place v).outcome = .ok verdict ∧
      verdict.Reports (one (Symbol.decode registry v).outcome) :=
  ⟨_, outcome_ofRecord h false place v, (matches_judge h place v).reports⟩

theorem exists_ofLine [Wording] {coder : Coder} (h : coder.snapshot.Standard) (path : String)
    (line : Nat × Bytes) :
    ∃ verdict, (ofLine coder.snapshot false path line).outcome = .ok verdict ∧
      verdict.Reports (one (coder.decodeLine line.2).outcome) := by
  rw [ofLine, Coder.decodeLine, Coder.parse]
  cases parse? line.2 with
  | none => exact ⟨_, rfl, _, _, [], rfl, rfl, rfl⟩
  | some v => exact exists_ofRecord h _ v

/-! ## Several records -/

/-- What two verdicts report one after the other. -/
theorem reports_append {a b : Verdict} {run : Run Symbol} {rest : Run (List Symbol)}
    (ha : a.Reports (one run.outcome)) (hb : b.Reports rest.outcome) :
    (a ++ b).Reports
      (run.andThen fun symbol => rest.andThen fun symbols => .ok (symbol :: symbols)).outcome := by
  rw [Run.outcome_andThen]
  cases hrun : run.outcome with
  | error failure =>
    rw [hrun] at ha
    obtain ⟨error, remark, others, rfl, herrors, hmessage⟩ := ha
    refine ⟨error, remark, others ++ b.errors, rfl, ?_, hmessage⟩
    rw [errors_append, herrors, List.cons_append]
  | ok symbol =>
    rw [hrun] at ha
    obtain ⟨herrors, hcount⟩ := ha
    show (a ++ b).Reports (rest.andThen fun symbols => .ok (symbol :: symbols)).outcome
    rw [Run.outcome_andThen]
    cases hrest : rest.outcome with
    | error failure =>
      rw [hrest] at hb
      obtain ⟨error, remark, others, rfl, herrors', hmessage⟩ := hb
      refine ⟨error, remark, others, rfl, ?_, hmessage⟩
      rw [errors_append, herrors, herrors', List.nil_append]
    | ok symbols =>
      rw [hrest] at hb
      obtain ⟨herrors', hcount'⟩ := hb
      refine ⟨?_, ?_⟩
      · rw [errors_append, herrors, herrors', List.nil_append]
      · rw [count_append, hcount, hcount', Nat.add_comm]
        rfl

/-- Verdicts on parts, each of which reports what is read from its part, report together what is
read from all parts. -/
theorem exists_ofAll {α : Type} {f : α → Run Verdict} {g : α → Run Symbol}
    (hone : ∀ a, ∃ verdict, (f a).outcome = .ok verdict ∧ verdict.Reports (one (g a).outcome)) :
    ∀ parts : List α, ∃ verdicts, (Run.forAll f parts).outcome = .ok verdicts ∧
      (join verdicts).Reports (Run.forAll g parts).outcome
  | [] => ⟨[], rfl, rfl, rfl⟩
  | a :: rest => by
    obtain ⟨verdict, hverdict, hreports⟩ := hone a
    obtain ⟨verdicts, hverdicts, hrest⟩ := exists_ofAll hone rest
    exact ⟨verdict :: verdicts,
      Run.forAll_cons_eq_ok.mpr ⟨verdict, verdicts, hverdict, hverdicts, rfl⟩,
      reports_append hreports hrest⟩

/-- The verdict on lines reports what is read from them one by one. -/
theorem exists_ofLines [Wording] {coder : Coder} (h : coder.snapshot.Standard) (path : String)
    (content : Bytes) :
    ∃ verdict, (ofLines coder.snapshot false path content).outcome = .ok verdict ∧
      verdict.Reports (Run.forAll coder.decodeLine content.lines).outcome := by
  obtain ⟨verdicts, hverdicts, hreports⟩ :=
    exists_ofAll (exists_ofLine h path) content.numberedLines
  refine ⟨_, Run.andThen_eq_ok.mpr ⟨verdicts, hverdicts, rfl⟩, ?_⟩
  rw [← Bytes.map_snd_numberedLines, Run.forAll_map]
  exact hreports

theorem reports_iff {verdict : Verdict} {outcome : Except Failure (List Symbol)} :
    verdict.Reports outcome ↔
      (verdict.errors = [] ↔ ∃ symbols, outcome = .ok symbols) ∧
        (∀ symbols, outcome = .ok symbols → verdict.count = symbols.length) ∧
        ∀ failure, outcome = .error failure →
          ∃ error remark others, failure = .decode error ∧ verdict.errors = remark :: others ∧
            remark.message = error.message ++ "." := by
  constructor
  · intro h
    refine ⟨h.errors_eq_nil_iff, fun symbols hsymbols => ?_, fun failure hfailure => ?_⟩
    · rw [hsymbols] at h
      exact h.2
    · rw [hfailure] at h
      exact h
  · rintro ⟨herrors, hcount, hfailure⟩
    cases outcome with
    | ok symbols => exact ⟨herrors.mpr ⟨symbols, rfl⟩, hcount symbols rfl⟩
    | error failure => exact hfailure failure rfl

end Verdict

/-! ## Carriage returns -/

namespace Bytes

/-- A content is unbroken when no line of it, without the blanks at its ends, has a carriage
return. -/
def Unbroken (content : Bytes) : Prop :=
  ∀ line ∈ content.numberedLines, (0x0D : UInt8) ∉ line.2

theorem unbroken_iff {content : Bytes} :
    content.Unbroken ↔ ∀ line ∈ content.lines, (0x0D : UInt8) ∉ line := by
  rw [← map_snd_numberedLines, List.forall_mem_map]
  rfl

/-- The records of an unbroken content are its lines. -/
theorem Unbroken.records_eq {content : Bytes} (h : content.Unbroken) :
    content.records = content.lines := by
  have hline : ∀ line ∈ content.lines, pieces isReturn line = [line] := by
    intro line hmem
    obtain ⟨htrimmed, hne⟩ := trimmed_of_mem_lines hmem
    refine pieces_eq_singleton htrimmed hne fun b hb => ?_
    rw [isReturn, beq_eq_false_iff_ne]
    rintro rfl
    exact unbroken_iff.mp h line hmem hb
  rw [records_eq_flatMap, List.flatMap_congr hline, List.flatMap_singleton']

/-- A line with a carriage return inside it has a piece before the first one, which a blank ends
and something else follows. -/
theorem exists_piece_of_return {line : Bytes} (htrimmed : Trimmed isBlank line)
    (hreturn : (0x0D : UInt8) ∈ line) :
    ∃ piece byte rest, piece ∈ pieces isReturn line ∧ line = piece ++ byte :: rest ∧
      isBlank byte = true ∧ ∃ b ∈ byte :: rest, isBlank b = false := by
  obtain ⟨front, rest, rfl, hfirst⟩ := List.eq_append_cons_of_mem hreturn
  have hcut : ∀ b ∈ front, isReturn b = false := by
    intro b hb
    rw [isReturn, beq_eq_false_iff_ne]
    rintro rfl
    exact hfirst hb
  -- The line begins with no blank, so its first piece loses nothing in front and is not empty.
  obtain ⟨hne, back, hfront, hback⟩ : trim front ≠ [] ∧
      ∃ back, front = trim front ++ back ∧ ∀ b ∈ back, isBlank b = true := by
    cases front with
    | nil => exact absurd (htrimmed.head 0x0D rfl) (by decide)
    | cons b others => exact exists_trimEnds_append (htrimmed.head b rfl) others
  have hpiece : trim front ∈ pieces isReturn (front ++ 0x0D :: rest) := by
    rw [pieces_append front rest rfl, pieces_of_cut (cut_eq_singleton hcut), unlessEmpty,
      if_neg (by rwa [List.isEmpty_iff])]
    exact List.mem_append_left _ List.mem_cons_self
  have hend : ∃ b ∈ (0x0D : UInt8) :: rest, isBlank b = false := by
    obtain ⟨b, hb⟩ := Option.isSome_iff_exists.mp
      (List.getLast?_isSome.mpr (List.cons_ne_nil 0x0D rest))
    refine ⟨b, List.mem_of_getLast? hb, htrimmed.last b ?_⟩
    rw [List.getLast?_append, hb]
    rfl
  obtain ⟨b, hb, hblank⟩ := hend
  have hsplit : front ++ 0x0D :: rest = trim front ++ (back ++ 0x0D :: rest) := by
    rw [← List.append_assoc]
    exact congrArg (· ++ _) hfront
  cases back with
  | nil => exact ⟨trim front, 0x0D, rest, hpiece, hsplit, by decide, b, hb, hblank⟩
  | cons c back =>
    exact ⟨trim front, c, back ++ 0x0D :: rest, hpiece, hsplit, hback c List.mem_cons_self, b,
      List.mem_append_right (c :: back) hb, hblank⟩

/-- A content whose lines and whose records are all documents is unbroken: the first piece of a
broken line and the whole line are never both one. -/
theorem unbroken_of_parse? {content : Bytes}
    (hlines : ∀ line ∈ content.lines, (parse? line).isSome)
    (hrecords : ∀ record ∈ content.records, (parse? record).isSome) : content.Unbroken := by
  refine unbroken_iff.mpr fun line hline hreturn => ?_
  obtain ⟨piece, byte, rest, hpiece, rfl, hbyte, hrest⟩ :=
    exists_piece_of_return (trimmed_of_mem_lines hline).1 hreturn
  have hrecord : piece ∈ content.records := by
    rw [records_eq_flatMap]
    exact List.mem_flatMap.mpr ⟨_, hline, hpiece⟩
  obtain ⟨v, hv⟩ := Option.isSome_iff_exists.mp (hrecords piece hrecord)
  have hwhole := hlines _ hline
  rw [parse?_append hv hbyte hrest] at hwhole
  exact absurd hwhole (by simp)

end Bytes

namespace Coder

variable {coder : Coder}

theorem isSome_parse?_of_decodeLine [Wording] {line : Bytes} {symbol : Symbol}
    (h : (coder.decodeLine line).outcome = .ok symbol) : (parse? line).isSome := by
  obtain ⟨v, hv, -⟩ := Run.andThen_eq_ok.mp h
  rw [parse_eq_ok.mp hv]
  rfl

/-- **When validating lines decodes as a reader does.**  The verdict has no errors if and only if
reading succeeds, then it has the number of the symbols, and else the failure is the first error:
this holds of exactly those contents that have no carriage return inside a line, or on which the
verdict and the reader give up with the same words.  What the parser says of the bytes that it
refuses is left open, and of a line with a carriage return inside it the verdict and the reader do
not give it the same bytes. -/
theorem exists_verdict_of_lines [Wording] (coder : Coder)
    (hcoder : ∀ key descriptor, coder.registered.get? key = some descriptor →
      ∃ type, descriptor.IsOf type key)
    (path : Path) (hpath : Verdict.isLines path = true) (content : Bytes) :
    ∃ verdict, (Verdict.ofFile coder.snapshot false path (some (.file content))).outcome =
        .ok verdict ∧
      (((verdict.errors = [] ↔ ∃ symbols, (coder.decodeLines content).outcome = .ok symbols) ∧
          (∀ symbols, (coder.decodeLines content).outcome = .ok symbols →
            verdict.count = symbols.length) ∧
          ∀ failure, (coder.decodeLines content).outcome = .error failure →
            ∃ error remark others, failure = .decode error ∧ verdict.errors = remark :: others ∧
              remark.message = error.message ++ ".") ↔
        content.Unbroken ∨
          ∃ error remark others, (coder.decodeLines content).outcome = .error (.decode error) ∧
            verdict.errors = remark :: others ∧ remark.message = error.message ++ ".") := by
  obtain ⟨verdict, hverdict, hlines⟩ :=
    Verdict.exists_ofLines (standard_snapshot hcoder) path.text content
  refine ⟨verdict, ?_, ?_⟩
  · rw [Verdict.ofFile, Verdict.ofContent, if_pos hpath]
    exact hverdict
  rw [← Verdict.reports_iff]
  constructor
  · intro hreports
    cases hread : (coder.decodeLines content).outcome with
    | error failure =>
      rw [hread] at hreports
      obtain ⟨error, remark, others, rfl, h⟩ := hreports
      exact Or.inr ⟨error, remark, others, rfl, h⟩
    | ok symbols =>
      rw [hread] at hreports
      obtain ⟨seen, hseen⟩ := hlines.errors_eq_nil_iff.mp hreports.1
      rw [decodeLines_eq] at hread
      refine Or.inl (Bytes.unbroken_of_parse? (fun line hline => ?_) fun record hrecord => ?_)
      · obtain ⟨symbol, hsymbol⟩ := Run.exists_of_forAll_eq_ok hseen line hline
        exact isSome_parse?_of_decodeLine hsymbol
      · obtain ⟨symbol, hsymbol⟩ := Run.exists_of_forAll_eq_ok hread record hrecord
        exact isSome_parse?_of_decodeLine hsymbol
  · rintro (hunbroken | ⟨error, remark, others, hread, herrors, hmessage⟩)
    · rw [decodeLines_eq, hunbroken.records_eq]
      exact hlines
    · rw [hread]
      exact ⟨error, remark, others, rfl, herrors, hmessage⟩

/-! ## Two records, and one on two lines -/

/-- The text of a record. -/
def record : Bytes :=
  Utf8.encode (write .compact 0 (.object
    [("identifier", .object [("precise", .text "s:f")]),
      ("kind", .object [("identifier", .text "func"), ("displayName", .text "F")]),
      ("names", .object [("title", .text "f")]), ("note", .text "kept"),
      ("accessLevel", .text "public"), ("pathComponents", .list [])]))

/-- A path of a file with one record to a line. -/
def linesPath : Path := Path.ofText "kit.jsonl"

/-- Words that give the number of the bytes that were refused. -/
@[reducible] def counted : Wording where
  document bytes := "malformed document of " ++ toString bytes.length ++ " bytes"
  settings _ := "malformed document"

attribute [local instance] counted

/-- On a record that a carriage return and a line feed end, the verdict and the reader agree. -/
theorem exists_verdict_of_record :
    ∃ verdict, (Verdict.ofFile noting.snapshot false linesPath
        (some (.file (record ++ [0x0D, 0x0A])))).outcome = .ok verdict ∧
      (verdict.errors = [] ↔
        ∃ symbols, (noting.decodeLines (record ++ [0x0D, 0x0A])).outcome = .ok symbols) := by
  have hnoting : ∀ key descriptor, noting.registered.get? key = some descriptor →
      ∃ type, descriptor.IsOf type key := by
    intro key descriptor hget
    obtain ⟨type, -, rfl⟩ := stable_noting key descriptor hget
    exact ⟨type, type.isOf_descriptor key⟩
  have hunbroken : (record ++ [0x0D, 0x0A]).Unbroken := by
    rw [Bytes.Unbroken]
    decide +kernel
  obtain ⟨verdict, hverdict, hagree⟩ :=
    exists_verdict_of_lines noting hnoting linesPath (by decide +kernel) (record ++ [0x0D, 0x0A])
  exact ⟨verdict, hverdict, (hagree.mpr (Or.inl hunbroken)).1⟩

/-- With a carriage return between two records, the reader reads both and the verdict finds an
error.  With one inside a record, the verdict finds no error and the reader fails.  With one inside
what is no record, the verdict finds an error and the reader fails, and they do not say the same:
the reader has refused the bytes before the carriage return, and the verdict the whole line. -/
theorem not_agree_at_return :
    ((noting.decodeLines (record ++ 0x0D :: record)).outcome.map List.length = .ok 2 ∧
      (Verdict.ofFile noting.snapshot false linesPath
        (some (.file (record ++ 0x0D :: record)))).outcome.map Verdict.ok = .ok false) ∧
    ((noting.decodeLines (0x7B :: 0x0D :: record.tail)).outcome.map List.length =
        .error (.decode (.malformed "malformed document of 1 bytes")) ∧
      (Verdict.ofFile noting.snapshot false linesPath
        (some (.file (0x7B :: 0x0D :: record.tail)))).outcome.map Verdict.ok = .ok true) ∧
    (noting.decodeLines [0x7B, 0x0D, 0x21]).outcome.map List.length =
        .error (.decode (.malformed "malformed document of 1 bytes")) ∧
      (Verdict.ofFile noting.snapshot false linesPath
        (some (.file [0x7B, 0x0D, 0x21]))).outcome.map
          (fun verdict => verdict.errors.map Remark.message) =
        .ok ["Invalid JSON: malformed document of 3 bytes."] := by
  decide +kernel

end Coder

end SymbolRecord
