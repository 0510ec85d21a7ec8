import SymbolRecord.Proofs.Dispatch
import SymbolRecord.Proofs.Parts
import SymbolRecord.Proofs.Verdict
/-!
# One line, one entry

The verdict on a file with one record to a line is a tally of its lines.  A line that is blank
leaves no mark on it, but is numbered like the others.  Every other line is either an error or a
record: an error when it is no JSON or is not decoded, and then nothing else is said of it; a record
when it is decoded, and then there is a warning for each key that is left out.

The tally is stated as a relation between the numbered lines and a verdict, with a rule for each
kind of line and none for anything else, and the verdict is proved to follow it.  What holds of all
tallies is proved from the rules: the lines add up, and the errors stand in the order of the lines.

* `Verdict.Tallies`: the rules.
* `Verdict.tallies_lines`: the verdict on a content follows them.
* `Verdict.Tallies.count_add_errors`, `Verdict.Tallies.exists_numbers`: what the rules entail.
* `Verdict.every_line_in_the_tally`: the verdict on a file.
-/

namespace SymbolRecord

open Json

/-- Whether there is nothing on a line but blanks of ASCII. -/
def Bytes.isBlankLine (line : Bytes) : Bool := line.all isBlank

theorem Bytes.trim_eq_nil_iff {line : Bytes} : trim line = [] ↔ isBlankLine line = true := by
  rw [trim, trimEnds_eq_nil_iff, isBlankLine, List.all_eq_true]

namespace Verdict

open Bytes

/-! ## The rules -/

/-- The verdicts on numbered lines, line by line.  What is on a line is what stands between the
blanks at its ends. -/
inductive Tallies [Wording] (registry : Registry) (path : String) :
    List (Nat × Bytes) → Verdict → Prop where
  /-- There are no lines. -/
  | nil : Tallies registry path [] ⟨[], [], 0⟩
  /-- A line is blank. -/
  | blank {n : Nat} {line : Bytes} {rest : List (Nat × Bytes)} {verdict : Verdict}
      (hblank : isBlankLine line = true) (hrest : Tallies registry path rest verdict) :
      Tallies registry path ((n, line) :: rest) verdict
  /-- A line is no JSON: it is an error. -/
  | malformed {n : Nat} {line : Bytes} {rest : List (Nat × Bytes)} {verdict : Verdict}
      (hblank : isBlankLine line = false) (hparse : parse? (trim line) = none)
      (hrest : Tallies registry path rest verdict) :
      Tallies registry path ((n, line) :: rest)
        ⟨⟨path, DecodeError.malformedMessage (Wording.document (trim line)) ++ ".", some n, none,
            none⟩ :: verdict.errors,
          verdict.warnings, verdict.count⟩
  /-- A line has a value that is not decoded: it is an error. -/
  | undecoded {n : Nat} {line : Bytes} {v : Value} {error : DecodeError}
      {rest : List (Nat × Bytes)} {verdict : Verdict}
      (hblank : isBlankLine line = false) (hparse : parse? (trim line) = some v)
      (hdecode : (Symbol.decode registry v).outcome = .error (.decode error))
      (hrest : Tallies registry path rest verdict) :
      Tallies registry path ((n, line) :: rest)
        ⟨⟨path, error.message ++ ".", some n, error.key?, none⟩ :: verdict.errors,
          verdict.warnings, verdict.count⟩
  /-- A line has a record that is decoded: it counts, with a warning for each key that is left
  out. -/
  | decoded {n : Nat} {line : Bytes} {record : Entries Value} {symbol : Symbol}
      {rest : List (Nat × Bytes)} {verdict : Verdict}
      (hblank : isBlankLine line = false) (hparse : parse? (trim line) = some (.object record))
      (hdecode : (Symbol.decode registry (.object record)).outcome = .ok symbol)
      (hrest : Tallies registry path rest verdict) :
      Tallies registry path ((n, line) :: rest)
        ⟨verdict.errors,
          ((Symbol.unrecognizedKeys registry record).map fun key =>
            ⟨path, "Unrecognized key " ++ Text.quote key ++ " dropped.", some n, some key, none⟩)
              ++ verdict.warnings,
          verdict.count + 1⟩

variable {registry : Registry} {path : String}

/-- An error in front of a verdict adds nothing but itself. -/
theorem ofError_append (remark : Remark) (verdict : Verdict) :
    ofError remark ++ verdict = ⟨remark :: verdict.errors, verdict.warnings, verdict.count⟩ :=
  congrArg (mk _ _) (Nat.zero_add verdict.count)

section Lines

variable [Wording]

/-- The verdict on a line that is not blank is the entry of the line in the tally. -/
theorem Tallies.cons (h : registry.Standard) {n : Nat} {line : Bytes}
    (hblank : isBlankLine line = false) {rest : List (Nat × Bytes)} {verdict : Verdict}
    (hrest : Tallies registry path rest verdict) :
    Tallies registry path ((n, line) :: rest)
      ((Part.ofLine path (n, trim line)).judge registry false ++ verdict) := by
  simp only [Part.judge, Part.ofLine, readPart]
  cases hparse : parse? (trim line) with
  | none =>
    show Tallies registry path _ (ofError _ ++ verdict)
    rw [ofError_append]
    exact .malformed hblank hparse hrest
  | some v =>
    show Tallies registry path _ (Verdict.judge registry false _ v ++ verdict)
    cases hdecode : (Symbol.decode registry v).outcome with
    | error failure =>
      obtain ⟨error, rfl⟩ := Symbol.failsBy_decode h v failure hdecode
      rw [judge_of_error hdecode, ofError_append]
      exact .undecoded hblank hparse hdecode hrest
    | ok symbol =>
      obtain ⟨record, rfl, -, -⟩ := Symbol.decode_ok_iff.mp hdecode
      rw [judge_of_ok hdecode]
      have hcount : 1 + verdict.count = verdict.count + 1 := Nat.add_comm _ _
      have htally := Tallies.decoded (n := n) hblank hparse hdecode hrest
      rw [← hcount] at htally
      exact htally

/-- The verdicts on the lines that are not blank join to a tally of all lines. -/
theorem tallies_join (h : registry.Standard) : ∀ lines : List (Nat × Bytes),
    Tallies registry path lines
      (join ((((lines.map fun line => (line.1, trim line.2)).filter
        fun line => !line.2.isEmpty).map (Part.ofLine path)).map (Part.judge registry false)))
  | [] => .nil
  | (n, line) :: rest => by
    have hrest := tallies_join h rest
    rw [List.map_cons, List.filter_cons]
    cases hblank : isBlankLine line with
    | true =>
      have hempty : (trim line).isEmpty = true := by
        rw [trim_eq_nil_iff.mpr hblank]
        rfl
      simp only [hempty, Bool.not_true, Bool.false_eq_true, if_false]
      exact .blank hblank hrest
    | false =>
      have hempty : (trim line).isEmpty = false := by
        rw [List.isEmpty_eq_false_iff, ne_eq, trim_eq_nil_iff, hblank]
        exact Bool.false_ne_true
      simp only [hempty, Bool.not_false, if_true]
      exact .cons h hblank hrest

/-- **The verdict on a content is the tally of its lines.** -/
theorem tallies_lines (h : registry.Standard) (path : String) (content : Bytes) :
    Tallies registry path (numberFrom 1 (content.splitOn 0x0A))
      (join ((content.numberedLines.map (Part.ofLine path)).map (Part.judge registry false))) := by
  rw [numberedLines_eq]
  exact tallies_join h _

/-! ## What the rules entail -/

/-- Every line that is not blank is an error or counts, and not both. -/
theorem Tallies.count_add_errors {lines : List (Nat × Bytes)} {verdict : Verdict}
    (h : Tallies registry path lines verdict) :
    verdict.count + verdict.errors.length = lines.countP fun line => !isBlankLine line.2 := by
  induction h with
  | nil => rfl
  | blank hblank _ ih => simp [hblank, ih]
  | malformed hblank _ _ ih =>
    rw [List.countP_cons, ← ih, hblank, List.length_cons]
    rfl
  | undecoded hblank _ _ _ ih =>
    rw [List.countP_cons, ← ih, hblank, List.length_cons]
    rfl
  | @decoded _ _ _ _ _ verdict hblank _ _ _ ih =>
    rw [List.countP_cons, ← ih, hblank]
    show verdict.count + 1 + verdict.errors.length = verdict.count + verdict.errors.length + 1
    omega

/-- Errors carry the numbers of their lines, some of the numbers in their order. -/
theorem Tallies.exists_numbers {lines : List (Nat × Bytes)} {verdict : Verdict}
    (h : Tallies registry path lines verdict) :
    ∃ numbers : List Nat, numbers.Sublist (lines.map Prod.fst) ∧
      verdict.errors.map Remark.line = numbers.map fun n => some (n : Int) := by
  induction h with
  | nil => exact ⟨[], .slnil, rfl⟩
  | blank _ _ ih =>
    obtain ⟨numbers, hsublist, hlines⟩ := ih
    exact ⟨numbers, hsublist.cons _, hlines⟩
  | decoded _ _ _ _ ih =>
    obtain ⟨numbers, hsublist, hlines⟩ := ih
    exact ⟨numbers, hsublist.cons _, hlines⟩
  | @malformed n _ _ _ _ _ _ ih =>
    obtain ⟨numbers, hsublist, hlines⟩ := ih
    exact ⟨n :: numbers, hsublist.cons_cons n, congrArg (some (n : Int) :: ·) hlines⟩
  | @undecoded n _ _ _ _ _ _ _ _ _ ih =>
    obtain ⟨numbers, hsublist, hlines⟩ := ih
    exact ⟨n :: numbers, hsublist.cons_cons n, congrArg (some (n : Int) :: ·) hlines⟩

/-- **Every line is accounted for exactly once** in the verdict on a file with one record to a line,
unless it is strict: by nothing if it is blank, by one error with its number if it is no JSON or is
not decoded, and otherwise by one record that counts and a warning for each key that is left out.
So records and errors add up to the lines that are not blank, and errors ascend by their lines. -/
theorem every_line_in_the_tally (coder : Coder)
    (hcoder : ∀ key descriptor, coder.registered.get? key = some descriptor →
      ∃ type, descriptor.IsOf type key)
    (path : Path) (hpath : isLines path = true) (content : Bytes) :
    ∃ verdict, (ofFile coder.snapshot false path (some (.file content))).outcome = .ok verdict ∧
      Tallies coder.snapshot path.text (numberFrom 1 (content.splitOn 0x0A)) verdict ∧
      verdict.count + verdict.errors.length =
        (content.splitOn 0x0A).countP (fun line => !isBlankLine line) ∧
      ∃ numbers : List Nat, numbers.Pairwise (· < ·) ∧
        verdict.errors.map Remark.line = numbers.map fun n => some (n : Int) := by
  have hstandard : coder.snapshot.Standard := Coder.standard_snapshot hcoder
  have htally := tallies_lines hstandard path.text content
  refine ⟨_, ?_, htally, ?_, ?_⟩
  · show (ofContent coder.snapshot false path content).outcome = _
    rw [outcome_ofContent hstandard, parts, if_pos hpath]
  · have hnumbered : (content.splitOn 0x0A).countP (fun line => !isBlankLine line) =
        (numberFrom 1 (content.splitOn 0x0A)).countP fun line => !isBlankLine line.2 := by
      rw [← map_snd_numberFrom (content.splitOn 0x0A) 1, List.countP_map, map_snd_numberFrom]
      rfl
    rw [htally.count_add_errors, hnumbered]
  · obtain ⟨numbers, hsublist, hlines⟩ := htally.exists_numbers
    have hascending : ((numberFrom 1 (content.splitOn 0x0A)).map Prod.fst).Pairwise (· < ·) :=
      List.pairwise_map.mpr (pairwise_numberFrom _ 1)
    exact ⟨numbers, hascending.sublist hsublist, hlines⟩

end Lines

/-! ## A file with lines of every kind -/

attribute [local instance] Wording.plain

/-- Five lines: a record, a blank line with a carriage return, a line that is no JSON, a record with
a note that is refused, and a record with a key that is left out. -/
def patchwork : Bytes :=
  [0x0A].intercalate
    [Utf8.encode (write .compact 0 (Coder.recordWith (.text "kept"))), [0x20, 0x0D], [0x7B],
      Utf8.encode (write .compact 0 (Coder.recordWith (.int 3))),
      Utf8.encode (write .compact 0 (.object (("draft", .null) :: Symbol.plainRecord)))]

/-- Four lines are not blank, and the tally accounts for them. -/
theorem tally_of_patchwork :
    ∃ verdict, (ofFile Coder.noting.snapshot false Coder.linesPath
        (some (.file patchwork))).outcome = .ok verdict ∧
      verdict.count + verdict.errors.length = 4 ∧
      ∃ numbers : List Nat, numbers.Pairwise (· < ·) ∧
        verdict.errors.map Remark.line = numbers.map fun n => some (n : Int) := by
  obtain ⟨verdict, hverdict, -, hcount, hnumbers⟩ :=
    every_line_in_the_tally Coder.noting Coder.stable_noting.exists_isOf Coder.linesPath
      (by decide +kernel) patchwork
  have hlines : (patchwork.splitOn 0x0A).countP (fun line => !isBlankLine line) = 4 := by
    decide +kernel
  exact ⟨verdict, hverdict, hcount.trans hlines, hnumbers⟩

/-- On these lines the errors are on the third and the fourth line, and the warning on the fifth. -/
example :
    (ofFile Coder.noting.snapshot false Coder.linesPath (some (.file patchwork))).outcome.map
        (fun verdict => (verdict.errors.map Remark.line, verdict.warnings.map Remark.line,
          verdict.count)) =
      .ok ([some 3, some 4], [some 5], 2) := by
  decide +kernel

end Verdict

end SymbolRecord
