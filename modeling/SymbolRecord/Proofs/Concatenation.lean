import SymbolRecord.Proofs.Tally
/-!
# Contents put behind each other

The verdict on a file with one record to a line is a sum over its lines, in which a line counts for
what is on it and where it stands.  So when a second content is put behind a first one, with a line
feed between the two, the verdict on the whole is the verdict on the first with the verdict on the
second behind it, except that the remarks on the second carry later line numbers.

Nothing is asked of the two contents.  The first may end within a record, in a carriage return, in
blanks or in nothing at all: the line feed ends its last line in any case, and what is on the lines
behind it is not looked at again.

* `Bytes.numberedLines_append`: the lines of the whole.
* `Remark.later`, `Verdict.later`: the same remarks, some lines further down.
* `Verdict.judge_later`: a record is judged alike wherever it stands.
* `Verdict.verdict_of_concatenation`: the verdict on the whole.
-/

namespace SymbolRecord

open Json

/-! ## The lines of two contents -/

namespace Bytes

/-- Numbers that start later are the same numbers, each later by as much. -/
theorem numberFrom_add {α : Type} (m : Nat) (as : List α) :
    ∀ n : Nat, numberFrom (n + m) as = (numberFrom n as).map fun item => (item.1 + m, item.2) := by
  induction as with
  | nil => exact fun _ => rfl
  | cons a as ih =>
    intro n
    have hnext : n + m + 1 = n + 1 + m := by omega
    rw [numberFrom, numberFrom, List.map_cons, hnext, ih]

/-- There is one line more than there are line feeds. -/
theorem length_cut_isFeed (bytes : Bytes) :
    (cut isFeed bytes).length = bytes.count 0x0A + 1 := by
  induction bytes with
  | nil => rfl
  | cons b bytes ih =>
    by_cases hfeed : b = 0x0A
    · have hbreak : isFeed b = true := beq_iff_eq.mpr hfeed
      rw [cut_cons_of_break hbreak, List.length_cons, ih, hfeed, List.count_cons_self]
    · have hkeep : isFeed b = false := beq_eq_false_iff_ne.mpr hfeed
      obtain ⟨piece, pieces, hcut⟩ := exists_cut isFeed bytes
      rw [cut_cons_of_not hkeep hcut, List.length_cons, ← List.length_cons (a := piece), ← hcut, ih,
        List.count_cons_of_ne hfeed]

/-- **The lines of two contents with a line feed between them** are those of the first and, with
later numbers, those of the second. -/
theorem numberedLines_append (a b : Bytes) :
    (a ++ 0x0A :: b).numberedLines =
      a.numberedLines ++
        b.numberedLines.map fun line => (line.1 + (a.count 0x0A + 1), line.2) := by
  have hcut : cut isFeed (a ++ 0x0A :: b) = cut isFeed a ++ cut isFeed b :=
    cut_append isFeed a b rfl
  rw [numberedLines, hcut, List.map_append, numberFrom_append, List.length_map, length_cut_isFeed,
    numberFrom_add, List.filter_append, List.filter_map]
  rfl

end Bytes

/-! ## Remarks further down -/

/-- The remark, with its line some lines further down. -/
def Remark.later (n : Nat) (remark : Remark) : Remark :=
  { remark with line := remark.line.map (· + (n : Int)) }

/-- The place, with its line some lines further down. -/
def RecordPlace.later (n : Nat) (place : RecordPlace) : RecordPlace :=
  { place with line := place.line.map (· + n) }

theorem RecordPlace.remark_later (n : Nat) (place : RecordPlace) (message : String)
    (key : Option String) :
    (place.later n).remark message key = (place.remark message key).later n := by
  cases hline : place.line with
  | none => simp [remark, later, Remark.later, hline]
  | some line => simp [remark, later, Remark.later, hline]

namespace Verdict

/-- The verdict, with all its remarks some lines further down. -/
def later (n : Nat) (verdict : Verdict) : Verdict :=
  ⟨verdict.errors.map (Remark.later n), verdict.warnings.map (Remark.later n), verdict.count⟩

variable {registry : Registry} {strict : Bool}

theorem ofUnrecognized_later (n : Nat) (place : RecordPlace) (keys : List String) :
    ofUnrecognized (place.later n) strict keys = (ofUnrecognized place strict keys).later n := by
  simp only [ofUnrecognized, RecordPlace.remark_later]
  cases strict with
  | false => simp [later]
  | true => simp [later]

/-- **A record is judged alike wherever it stands**, whether it is decoded or not. -/
theorem judge_later (n : Nat) (place : RecordPlace) (v : Value) :
    judge registry strict (place.later n) v = (judge registry strict place v).later n := by
  rw [judge, judge]
  cases (Symbol.decode registry v).outcome with
  | ok symbol => exact ofUnrecognized_later n place _
  | error failure =>
    cases failure with
    | decode error =>
      show ofError _ = (ofError _).later n
      rw [RecordPlace.remark_later]
      rfl
    | _ => rfl

/-- A line is judged alike whatever its number. -/
theorem judge_ofLine_later [Wording] (n : Nat) (path : String) (line : Nat × Bytes) :
    (Part.ofLine path (line.1 + n, line.2)).judge registry strict =
      ((Part.ofLine path line).judge registry strict).later n := by
  simp only [Part.judge, Part.ofLine, readPart]
  cases parse? line.2 with
  | none => rfl
  | some v => exact judge_later n ⟨path, some line.1, none⟩ v

/-! ## Sums of verdicts -/

theorem append_assoc (a b c : Verdict) : a ++ b ++ c = a ++ (b ++ c) := by
  show mk _ _ _ = mk _ _ _
  simp only [errors_append, warnings_append, count_append, List.append_assoc, Nat.add_assoc]

theorem empty_append (verdict : Verdict) : empty ++ verdict = verdict :=
  congrArg (mk verdict.errors verdict.warnings) (Nat.zero_add verdict.count)

theorem join_append (as bs : List Verdict) : join (as ++ bs) = join as ++ join bs := by
  induction as with
  | nil => exact (empty_append (join bs)).symm
  | cons a as ih =>
    show a ++ join (as ++ bs) = a ++ join as ++ join bs
    rw [ih, append_assoc]

theorem later_append (n : Nat) (a b : Verdict) : (a ++ b).later n = a.later n ++ b.later n := by
  show mk _ _ _ = mk _ _ _
  simp only [errors_append, warnings_append, count_append, List.map_append]
  rfl

theorem join_map_later (n : Nat) (verdicts : List Verdict) :
    join (verdicts.map (later n)) = (join verdicts).later n := by
  induction verdicts with
  | nil => rfl
  | cons verdict verdicts ih =>
    show verdict.later n ++ join (verdicts.map (later n)) = (verdict ++ join verdicts).later n
    rw [ih, later_append]

/-! ## The whole -/

section Whole

variable [Wording]

/-- The verdict on the lines of a content. -/
def judgeLines (registry : Registry) (strict : Bool) (path : String) (content : Bytes) : Verdict :=
  join (content.numberedLines.map fun line => (Part.ofLine path line).judge registry strict)

theorem outcome_ofFile_lines (h : registry.Standard) (strict : Bool) {path : Path}
    (hpath : isLines path = true) (content : Bytes) :
    (ofFile registry strict path (some (.file content))).outcome =
      .ok (judgeLines registry strict path.text content) := by
  show (ofContent registry strict path content).outcome = _
  rw [outcome_ofContent h, parts, if_pos hpath, List.map_map]
  rfl

/-- The verdict on lines put behind others is the sum of the two verdicts, the second one further
down. -/
theorem judgeLines_append (registry : Registry) (strict : Bool) (path : String) (a b : Bytes) :
    judgeLines registry strict path (a ++ 0x0A :: b) =
      judgeLines registry strict path a ++
        (judgeLines registry strict path b).later (a.count 0x0A + 1) := by
  have hlater : ((b.numberedLines.map fun line => (line.1 + (a.count 0x0A + 1), line.2)).map
      fun line => (Part.ofLine path line).judge registry strict) =
        (b.numberedLines.map fun line => (Part.ofLine path line).judge registry strict).map
          (later (a.count 0x0A + 1)) := by
    rw [List.map_map, List.map_map]
    exact List.map_congr_left fun line _ => judge_ofLine_later _ path line
  rw [judgeLines, Bytes.numberedLines_append, List.map_append, join_append, hlater, join_map_later]
  rfl

/-- **The verdict on two contents with a line feed between them** is that on the first with that on
the second behind it.  The errors on the second are the same with every line number greater by the
line feeds of the first and one more, its warnings likewise, and the numbers of symbols add up.
Neither content has to end or to begin with a whole line, and validation may be strict or not. -/
theorem verdict_of_concatenation (coder : Coder)
    (hcoder : ∀ key descriptor, coder.registered.get? key = some descriptor →
      ∃ type, descriptor.IsOf type key)
    (strict : Bool) (path : Path) (hpath : isLines path = true) (a b : Bytes) :
    ∃ first second whole,
      (ofFile coder.snapshot strict path (some (.file a))).outcome = .ok first ∧
      (ofFile coder.snapshot strict path (some (.file b))).outcome = .ok second ∧
      (ofFile coder.snapshot strict path (some (.file (a ++ 0x0A :: b)))).outcome = .ok whole ∧
      whole.errors = first.errors ++ second.errors.map (Remark.later (a.count 0x0A + 1)) ∧
      whole.warnings = first.warnings ++ second.warnings.map (Remark.later (a.count 0x0A + 1)) ∧
      whole.count = first.count + second.count := by
  have hstandard : coder.snapshot.Standard := Coder.standard_snapshot hcoder
  have hwhole := judgeLines_append coder.snapshot strict path.text a b
  refine ⟨_, _, _, outcome_ofFile_lines hstandard strict hpath a,
    outcome_ofFile_lines hstandard strict hpath b, outcome_ofFile_lines hstandard strict hpath _,
    ?_, ?_, ?_⟩
  · rw [hwhole, errors_append]
    rfl
  · rw [hwhole, warnings_append]
    rfl
  · rw [hwhole, count_append]
    rfl

end Whole

attribute [local instance] Wording.plain

/-- Lines of every kind behind two lines of which the second ends within a record and in a carriage
return. -/
theorem verdict_behind_a_broken_line :
    ∃ first second whole,
      (ofFile Coder.noting.snapshot true Coder.linesPath
        (some (.file [0x0A, 0x7B, 0x0D]))).outcome = .ok first ∧
      (ofFile Coder.noting.snapshot true Coder.linesPath (some (.file patchwork))).outcome =
        .ok second ∧
      (ofFile Coder.noting.snapshot true Coder.linesPath
        (some (.file ([0x0A, 0x7B, 0x0D] ++ 0x0A :: patchwork)))).outcome = .ok whole ∧
      whole.errors = first.errors ++ second.errors.map (Remark.later 2) ∧
      whole.warnings = first.warnings ++ second.warnings.map (Remark.later 2) ∧
      whole.count = first.count + second.count :=
  verdict_of_concatenation Coder.noting Coder.stable_noting.exists_isOf true Coder.linesPath
    (by decide +kernel) [0x0A, 0x7B, 0x0D] patchwork

/-- The broken line is an error of its own, and those on the lines behind it are two lines further
down than in a file without it. -/
example :
    (ofFile Coder.noting.snapshot true Coder.linesPath
        (some (.file ([0x0A, 0x7B, 0x0D] ++ 0x0A :: patchwork)))).outcome.map
        (fun verdict => (verdict.errors.map Remark.line, verdict.count)) =
      .ok ([some 2, some 5, some 6, some 7], 2) := by
  decide +kernel

end Verdict

end SymbolRecord
