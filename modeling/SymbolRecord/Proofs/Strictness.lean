import SymbolRecord.Proofs.Tally
/-!
# Strict verdicts

A strict verdict files the keys that are left out among the errors; otherwise they are warnings.
Nothing else depends on it: the same records count, the same remarks are made, in the same order.
So the errors of the strict verdict are the errors and the warnings of the other one, merged.

A content is judged part by part, and of one part there are either errors or warnings.  That makes
the merge an interleaving, which is carried from the parts to the whole content, and puts the errors
of the strict verdict in the order of the parts they are about.

* `Interleaving`: a list that merges two others.
* `Verdict.Refiled`: what a strict verdict makes of the other one, `Verdict.refiled_judge` for one
  part and `Verdict.refiled_join` for all.
* `Remark.UpTo`, `Verdict.pairwise_errors_join`: remarks in the order of their places.
* `Verdict.strict_files_warnings_as_errors`: the verdicts on a file.
-/

namespace SymbolRecord

/-! ## Interleavings -/

/-- A list made of the members of two others, each of which keeps its order. -/
inductive Interleaving {α : Type} : List α → List α → List α → Prop where
  /-- There are no members. -/
  | nil : Interleaving [] [] []
  /-- The first member is that of the first list. -/
  | left {as bs cs : List α} (a : α) (hrest : Interleaving as bs cs) :
      Interleaving (a :: as) bs (a :: cs)
  /-- The first member is that of the second list. -/
  | right {as bs cs : List α} (b : α) (hrest : Interleaving as bs cs) :
      Interleaving as (b :: bs) (b :: cs)

namespace Interleaving

variable {α : Type} {as bs cs : List α}

theorem of_left : ∀ as : List α, Interleaving as [] as
  | [] => .nil
  | a :: as => .left a (of_left as)

theorem of_right : ∀ bs : List α, Interleaving [] bs bs
  | [] => .nil
  | b :: bs => .right b (of_right bs)

theorem append {as' bs' cs' : List α} (h : Interleaving as bs cs) (h' : Interleaving as' bs' cs') :
    Interleaving (as ++ as') (bs ++ bs') (cs ++ cs') := by
  induction h with
  | nil => exact h'
  | left a _ ih => exact .left a ih
  | right b _ ih => exact .right b ih

/-- Nothing is merged when there is nothing to merge. -/
theorem eq_nil_iff (h : Interleaving as bs cs) : cs = [] ↔ as = [] ∧ bs = [] := by
  cases h with
  | nil => simp
  | left a _ => simp
  | right b _ => simp

end Interleaving

/-! ## Places in order -/

/-- A record stands at the same place as another one of its file, or before it. -/
structure RecordPlace.UpTo (a b : RecordPlace) : Prop where
  /-- The line is the same or an earlier one, if records have lines. -/
  line : Option.Rel (· ≤ ·) a.line b.line
  /-- The position is the same or an earlier one, if records have positions. -/
  index : Option.Rel (· ≤ ·) a.index b.index

/-- A remark is about the same line or position as another one, or about an earlier one. -/
structure Remark.UpTo (a b : Remark) : Prop where
  /-- The line is the same or an earlier one, if records have lines. -/
  line : Option.Rel (· ≤ ·) a.line b.line
  /-- The position is the same or an earlier one, if records have positions. -/
  index : Option.Rel (· ≤ ·) a.index b.index

/-- A remark is about a place: it has its line and its position. -/
def Remark.IsAt (remark : Remark) (place : RecordPlace) : Prop :=
  remark.line = place.line.map Int.ofNat ∧ remark.index = place.index.map Int.ofNat

theorem RecordPlace.upTo_self (place : RecordPlace) : place.UpTo place :=
  ⟨by cases place.line with | none => exact .none | some n => exact .some (Nat.le_refl n),
    by cases place.index with | none => exact .none | some n => exact .some (Nat.le_refl n)⟩

theorem rel_map_ofNat {m n : Option Nat} (h : Option.Rel (· ≤ ·) m n) :
    Option.Rel (· ≤ ·) (m.map Int.ofNat) (n.map Int.ofNat) := by
  cases h with
  | none => exact .none
  | some hle => exact .some (Int.ofNat_le.mpr hle)

/-- Remarks are in the order of their places. -/
theorem RecordPlace.UpTo.remark {a b : RecordPlace} (h : a.UpTo b) {x y : Remark} (hx : x.IsAt a)
    (hy : y.IsAt b) : x.UpTo y where
  line := by
    rw [hx.1, hy.1]
    exact rel_map_ofNat h.line
  index := by
    rw [hx.2, hy.2]
    exact rel_map_ofNat h.index

namespace Verdict

variable {registry : Registry}

/-! ## Strict and lenient verdicts -/

/-- What a strict verdict makes of the verdict that is not: it files the warnings among the errors,
each in its place, and counts the same. -/
structure Refiled (lenient strict : Verdict) : Prop where
  /-- There are no warnings. -/
  warnings : strict.warnings = []
  /-- As many records count. -/
  count : strict.count = lenient.count
  /-- The errors are the errors and the warnings, merged. -/
  errors : Interleaving lenient.errors lenient.warnings strict.errors

theorem refiled_ofError (remark : Remark) : Refiled (ofError remark) (ofError remark) :=
  ⟨rfl, rfl, .of_left _⟩

theorem Refiled.append {lenient strict lenient' strict' : Verdict} (h : Refiled lenient strict)
    (h' : Refiled lenient' strict') : Refiled (lenient ++ lenient') (strict ++ strict') where
  warnings := by rw [warnings_append, h.warnings, h'.warnings, List.append_nil]
  count := by rw [count_append, count_append, h.count, h'.count]
  errors := h.errors.append h'.errors

/-- **Of one part, the errors are the same, or there is nothing but warnings**, which are the errors
of the strict verdict. -/
theorem refiled_judge (h : registry.Standard) (part : Part) :
    Refiled (part.judge registry false) (part.judge registry true) := by
  simp only [Part.judge]
  cases part.reading with
  | error words => exact refiled_ofError _
  | ok v =>
    show Refiled (judge registry false part.place v) (judge registry true part.place v)
    cases hdecode : (Symbol.decode registry v).outcome with
    | error failure =>
      obtain ⟨error, rfl⟩ := Symbol.failsBy_decode h v failure hdecode
      rw [judge_of_error hdecode, judge_of_error hdecode]
      exact refiled_ofError _
    | ok symbol =>
      rw [judge_of_ok hdecode, judge_of_ok hdecode]
      exact ⟨rfl, rfl, .of_right _⟩

/-- **What holds of the parts holds of the whole.** -/
theorem refiled_join (h : registry.Standard) : ∀ parts : List Part,
    Refiled (join (parts.map (Part.judge registry false)))
      (join (parts.map (Part.judge registry true)))
  | [] => ⟨rfl, rfl, .nil⟩
  | part :: rest => (refiled_judge h part).append (refiled_join h rest)

/-- A strict verdict has no errors when the other one has neither errors nor warnings. -/
theorem Refiled.ok_iff {lenient strict : Verdict} (h : Refiled lenient strict) :
    strict.ok = true ↔ lenient.errors = [] ∧ lenient.warnings = [] := by
  rw [ok, List.isEmpty_iff]
  exact h.errors.eq_nil_iff

/-! ## The order of the errors -/

/-- The errors of a part are about its place. -/
theorem isAt_of_mem_errors (h : registry.Standard) {strict : Bool} {part : Part} {remark : Remark}
    (hremark : remark ∈ (part.judge registry strict).errors) : remark.IsAt part.place := by
  have hofError : ∀ {message key?}, remark ∈ (ofError (part.place.remark message key?)).errors →
      remark.IsAt part.place := by
    intro message key? hmem
    obtain rfl := List.mem_singleton.mp hmem
    exact ⟨rfl, rfl⟩
  rw [Part.judge] at hremark
  cases hreading : part.reading with
  | error words =>
    rw [hreading] at hremark
    exact hofError hremark
  | ok v =>
    rw [hreading] at hremark
    replace hremark : remark ∈ (judge registry strict part.place v).errors := hremark
    cases hdecode : (Symbol.decode registry v).outcome with
    | error failure =>
      obtain ⟨error, rfl⟩ := Symbol.failsBy_decode h v failure hdecode
      rw [judge_of_error hdecode] at hremark
      exact hofError hremark
    | ok symbol =>
      rw [judge_of_ok hdecode] at hremark
      cases strict with
      | false => exact absurd hremark List.not_mem_nil
      | true =>
        obtain ⟨key, -, rfl⟩ := List.mem_map.mp hremark
        exact ⟨rfl, rfl⟩

/-- The parts of a content stand in the order of their places. -/
theorem pairwise_parts [Wording] (path : Path) (content : Bytes) :
    (parts path content).Pairwise fun a b => a.place.UpTo b.place := by
  rw [parts]
  split
  · rw [List.pairwise_map]
    have hnumbers : content.numberedLines.Pairwise fun a b => a.1 < b.1 :=
      (Bytes.pairwise_numberFrom _ 1).filter _
    exact hnumbers.imp fun hlt => ⟨.some (Nat.le_of_lt hlt), .none⟩
  · rw [documentParts]
    split
    · rw [List.pairwise_map]
      exact (Bytes.pairwise_numberFrom _ 0).imp fun hlt => ⟨.none, .some (Nat.le_of_lt hlt)⟩
    · exact List.pairwise_singleton _ _

/-- **Errors stand in the order of the parts they are about.** -/
theorem pairwise_errors_join (h : registry.Standard) (strict : Bool) {parts : List Part}
    (hparts : parts.Pairwise fun a b => a.place.UpTo b.place) :
    (join (parts.map (Part.judge registry strict))).errors.Pairwise Remark.UpTo := by
  rw [errors_join, List.flatMap_map, List.pairwise_flatMap]
  constructor
  · intro part _
    refine List.pairwise_of_forall_mem_list fun x hx y hy => ?_
    exact part.place.upTo_self.remark (isAt_of_mem_errors h hx) (isAt_of_mem_errors h hy)
  · refine hparts.imp fun hupTo x hx y hy => ?_
    exact hupTo.remark (isAt_of_mem_errors h hx) (isAt_of_mem_errors h hy)

/-! ## Files -/

/-- **Strict verdicts differ from others only in where they file what is left out.**  Of every
content, in a file of either kind, the strict verdict has no warnings, counts the same records, and
has the errors and the warnings of the other one as its errors: none is added, lost or changed, each
list keeps its order, and together they ascend by line or by position.  So a strict verdict is a
good one just when the other has neither errors nor warnings, and then the other is good as well. -/
theorem strict_files_warnings_as_errors [Wording] (coder : Coder)
    (hcoder : ∀ key descriptor, coder.registered.get? key = some descriptor →
      ∃ type, descriptor.IsOf type key)
    (path : Path) (content : Bytes) :
    ∃ lenient strict,
      (ofFile coder.snapshot false path (some (.file content))).outcome = .ok lenient ∧
      (ofFile coder.snapshot true path (some (.file content))).outcome = .ok strict ∧
      strict.warnings = [] ∧ strict.count = lenient.count ∧
      Interleaving lenient.errors lenient.warnings strict.errors ∧
      strict.errors.Pairwise Remark.UpTo ∧
      (strict.ok = true ↔ lenient.errors = [] ∧ lenient.warnings = []) ∧
      (strict.ok = true → lenient.ok = true) := by
  have hstandard : coder.snapshot.Standard := Coder.standard_snapshot hcoder
  have hrefiled := refiled_join hstandard (parts path content)
  refine ⟨_, _, outcome_ofContent hstandard false path content,
    outcome_ofContent hstandard true path content, hrefiled.warnings, hrefiled.count,
    hrefiled.errors, pairwise_errors_join hstandard true (pairwise_parts path content),
    hrefiled.ok_iff, fun hok => ?_⟩
  rw [ok, (hrefiled.ok_iff.mp hok).1]
  rfl

attribute [local instance] Wording.plain

/-- On lines of every kind there are two errors and a warning, or strictly three errors. -/
theorem strict_verdict_on_patchwork :
    ∃ lenient strict,
      (ofFile Coder.noting.snapshot false Coder.linesPath (some (.file patchwork))).outcome =
        .ok lenient ∧
      (ofFile Coder.noting.snapshot true Coder.linesPath (some (.file patchwork))).outcome =
        .ok strict ∧
      (lenient.errors.length, lenient.warnings.length) = (2, 1) ∧ strict.warnings = [] ∧
      Interleaving lenient.errors lenient.warnings strict.errors ∧ strict.ok = false := by
  obtain ⟨lenient, strict, hlenient, hstrict, hwarnings, -, herrors, -, hok, -⟩ :=
    strict_files_warnings_as_errors Coder.noting Coder.stable_noting.exists_isOf Coder.linesPath
      patchwork
  have hlengths : (ofFile Coder.noting.snapshot false Coder.linesPath
      (some (.file patchwork))).outcome.map
        (fun verdict => (verdict.errors.length, verdict.warnings.length)) = .ok (2, 1) := by
    decide +kernel
  rw [hlenient] at hlengths
  have htwo : (lenient.errors.length, lenient.warnings.length) = (2, 1) := Except.ok.inj hlengths
  refine ⟨lenient, strict, hlenient, hstrict, htwo, hwarnings, herrors, ?_⟩
  rw [Bool.eq_false_iff]
  intro htrue
  rw [(hok.mp htrue).1] at htwo
  nomatch htwo

end Verdict

end SymbolRecord
