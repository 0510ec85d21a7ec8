import Mathlib
import SymbolRecord.Mixin.Availability
import SymbolRecord.Proofs.Number
/-!
# Texts of versions

The text of a version has its parts with full stops between them, and leaves out the parts that are
absent.  A part may have a minus sign, but it has no full stop.  So the text can be cut at its full
stops again, and each piece is an integer once more: the parts that are present come back, in order.
What does not come back is where a part stood.  With two parts the second one may have been the
minor or the patch, and this is the only doubt: a version in which a patch comes with a minor has
its text for itself.

All this is said of versions that have a text.  A part may be any integer, and an integer with too
many digits is not spelled, so a version with such a part has no text.

* `NumberLiteral.ofList_write`, `NumberLiteral.stop_notMem_write`: the text of one part.
* `SemanticVersion.Spelled`, `SemanticVersion.text_of_spelled`: the versions that have a text.
* `SemanticVersion.splitOn_text`: the pieces of a text between its full stops.
* `SemanticVersion.present_eq_iff`: when the same parts are present in two versions.
* `SemanticVersion.text_keeps_present_parts`: what the text keeps.
-/

namespace SymbolRecord

namespace NumberLiteral

/-- An integer is written the usual way. -/
theorem ofList_write (n : Int) : String.ofList (write n) = n.repr := by
  cases n with
  | ofNat m => rfl
  | negSucc m =>
    rw [Int.repr_eq_if, if_neg (Int.not_le.mpr (Int.negSucc_lt_zero m)), ← String.toList_inj,
      String.toList_ofList, String.toList_append, Int.neg_negSucc]
    exact congrArg (List.cons '-') String.toList_ofList.symm

/-- There is no full stop in the text of an integer. -/
theorem stop_notMem_write (n : Int) : '.' ∉ write n := by
  have hdigits : ∀ m : Nat, '.' ∉ writeDigits m := fun m hmem =>
    absurd (isDigit_of_mem_writeDigits hmem) (by decide)
  cases n with
  | ofNat m => exact hdigits m
  | negSucc m =>
    intro hmem
    rcases List.mem_cons.mp hmem with hminus | hmem
    · exact absurd hminus (by decide)
    · exact hdigits (m + 1) hmem

/-- Reading an integer undoes writing it. -/
theorem toInt?_write (n : Int) : (String.ofList (write n)).toInt? = some n := by
  rw [ofList_write, Int.toInt?_repr]

end NumberLiteral

namespace Spelling

/-- Integers that are not too long are spelled one by one. -/
theorem mapM_integer?_of_isShort {ns : List Int} (h : ∀ n ∈ ns, isShort n = true) :
    ns.mapM integer? = some (ns.map fun n => String.ofList (NumberLiteral.write n)) := by
  induction ns with
  | nil => rfl
  | cons n rest ih =>
    obtain ⟨hn, hrest⟩ := List.forall_mem_cons.mp h
    rw [List.mapM_cons, integer?, if_pos hn, ih hrest]
    rfl

/-- One integer that is too long keeps them all from being spelled. -/
theorem mapM_integer?_of_not_isShort {ns : List Int} {n : Int} (hmem : n ∈ ns)
    (hlong : isShort n = false) : ns.mapM integer? = none := by
  cases hall : ns.mapM integer? with
  | none => rfl
  | some pieces =>
    have hnone : integer? n = none := if_neg (by rw [hlong]; decide)
    induction ns generalizing pieces with
    | nil => exact absurd hmem List.not_mem_nil
    | cons first rest ih =>
      rw [List.mapM_cons] at hall
      obtain ⟨piece, hfirst, hmore⟩ := Option.bind_eq_some_iff.mp hall
      obtain ⟨others, hrest, -⟩ := Option.bind_eq_some_iff.mp hmore
      rcases List.mem_cons.mp hmem with rfl | hlater
      · exact absurd (hnone.symm.trans hfirst) (by simp)
      · exact absurd (ih hlater others hrest) (by simp)

end Spelling

namespace SemanticVersion

open NumberLiteral

/-- The parts of a version that are not absent, in order. -/
def present (version : SemanticVersion) : List Int :=
  [some version.major, version.minor, version.patch].reduceOption

theorem parts_eq_present (version : SemanticVersion) : version.parts = version.present := by
  obtain ⟨major, minor, patch⟩ := version
  cases minor <;> cases patch <;> rfl

/-- A version is spelled when none of its parts is too long. -/
def Spelled (version : SemanticVersion) : Prop :=
  ∀ n ∈ version.present, Spelling.isShort n = true

variable {v w : SemanticVersion} {s : String}

/-- The text of a version that is spelled. -/
theorem text_of_spelled (h : v.Spelled) :
    v.text = .ok (String.intercalate "." (v.present.map fun n => String.ofList (write n))) := by
  simp only [text, parts_eq_present, Spelling.mapM_integer?_of_isShort h]

/-- A version that is not spelled has the words for a part that is too long. -/
theorem text_of_not_spelled (h : ¬ v.Spelled) : v.text = .error Spelling.tooLong := by
  obtain ⟨n, hmem, hlong⟩ : ∃ n ∈ v.present, Spelling.isShort n = false := by
    simpa [Spelled] using h
  simp only [text, parts_eq_present, Spelling.mapM_integer?_of_not_isShort hmem hlong]

/-- A version that has a text is spelled. -/
theorem spelled_of_text (h : v.text = .ok s) : v.Spelled := by
  by_contra hnot
  exact absurd ((text_of_not_spelled hnot).symm.trans h) (by simp)

/-- The text of a version as characters. -/
theorem toList_text (h : v.text = .ok s) : s.toList = ['.'].intercalate (v.present.map write) := by
  have hlist : ("." : String).toList = ['.'] := rfl
  obtain rfl := Except.ok.inj (h.symm.trans (text_of_spelled (spelled_of_text h)))
  rw [String.toList_intercalate, hlist, List.map_map]
  refine congrArg _ (List.map_congr_left fun n _ => ?_)
  exact String.toList_ofList

/-- **The pieces of the text between its full stops** are the texts of the parts. -/
theorem splitOn_text (h : v.text = .ok s) : s.toList.splitOn '.' = v.present.map write := by
  rw [toList_text h]
  refine List.splitOn_intercalate '.' (List.forall_mem_map.mpr fun n _ => stop_notMem_write n) ?_
  exact List.cons_ne_nil _ _

/-- The pieces of the text are read as the parts. -/
theorem map_toInt?_splitOn_text (h : v.text = .ok s) :
    (s.toList.splitOn '.').map (fun piece => (String.ofList piece).toInt?) =
      v.present.map some := by
  rw [splitOn_text h, List.map_map]
  exact List.map_congr_left fun n _ => toInt?_write n

/-- The text of a version is known from its parts, and its parts from the text. -/
theorem text_eq_iff (hv : v.Spelled) : v.text = w.text ↔ v.present = w.present := by
  have htext := text_of_spelled hv
  constructor
  · intro h
    have hread := map_toInt?_splitOn_text htext
    rw [map_toInt?_splitOn_text (h.symm.trans htext)] at hread
    exact (List.map_injective_iff.mpr (Option.some_injective Int) hread).symm
  · intro h
    have hw : w.Spelled := fun n hn => hv n (h ▸ hn)
    rw [htext, text_of_spelled hw, h]

/-- A version that has a patch and no minor has the same parts as one that has the minor instead. -/
def ReadsAs (v w : SemanticVersion) : Prop :=
  ∃ major part, v = ⟨major, none, some part⟩ ∧ w = ⟨major, some part, none⟩

/-- **The same parts are present in two versions** if they are the same version, or if what is the
patch of one is the minor of the other. -/
theorem present_eq_iff (v w : SemanticVersion) :
    v.present = w.present ↔ v = w ∨ v.ReadsAs w ∨ w.ReadsAs v := by
  constructor
  · intro h
    obtain ⟨major, minor, patch⟩ := v
    obtain ⟨major', minor', patch'⟩ := w
    obtain ⟨rfl, hrest⟩ := List.cons.inj h
    -- a single part after the major may be a minor in one version and a patch in the other
    cases minor <;> cases patch <;> cases minor' <;> cases patch' <;>
      simp_all [ReadsAs]
  · rintro (rfl | ⟨major, part, rfl, rfl⟩ | ⟨major, part, rfl, rfl⟩) <;> rfl

/-- **What the text of a version keeps** are the parts that are present, in order, and nothing else.
A version has a text unless a part of it is too long, and then it has the words for that.  A version
that has a text shares it with those in which the same parts are present, and with no others.  So
two versions with the same text are the same, unless what is the patch of one is the minor of the
other; and they are the same if neither has a patch without a minor.  Cut at its full stops, the
text is read as the parts again. -/
theorem text_keeps_present_parts :
    (∀ v : SemanticVersion, v.Spelled → ∃ s, v.text = .ok s) ∧
    (∀ v : SemanticVersion, ¬ v.Spelled → v.text = .error Spelling.tooLong) ∧
    (∀ v w : SemanticVersion, v.Spelled → (v.text = w.text ↔ v.present = w.present)) ∧
    (∀ v w : SemanticVersion, v.Spelled →
      (v.text = w.text ↔ v = w ∨ v.ReadsAs w ∨ w.ReadsAs v)) ∧
    (∀ v w : SemanticVersion, v.Spelled → (v.minor = none → v.patch = none) →
      (w.minor = none → w.patch = none) → v.text = w.text → v = w) ∧
    ∀ (v : SemanticVersion) (s : String), v.text = .ok s →
      (s.toList.splitOn '.').map (fun piece => (String.ofList piece).toInt?) =
        v.present.map some := by
  have hsame : ∀ v w : SemanticVersion, v.Spelled →
      (v.text = w.text ↔ v = w ∨ v.ReadsAs w ∨ w.ReadsAs v) :=
    fun v w hv => (text_eq_iff hv).trans (present_eq_iff v w)
  refine ⟨fun v hv => ⟨_, text_of_spelled hv⟩, fun v hv => text_of_not_spelled hv,
    fun v w hv => text_eq_iff hv, hsame, fun v w hspelled hv hw htext => ?_,
    fun v s htext => map_toInt?_splitOn_text htext⟩
  rcases (hsame v w hspelled).mp htext with heq | ⟨major, part, rfl, rfl⟩ | ⟨major, part, rfl, rfl⟩
  · exact heq
  · exact absurd (hv rfl) (Option.some_ne_none part)
  · exact absurd (hw rfl) (Option.some_ne_none part)

/-- Versions with the same digits in another arrangement have texts of their own, but a patch that
comes without a minor is not told apart from a minor. -/
theorem text_of_bare_patch :
    (⟨1, some 23, none⟩ : SemanticVersion).text ≠ (⟨12, some 3, none⟩ : SemanticVersion).text ∧
      (⟨10 ^ 30, none, some (-7)⟩ : SemanticVersion).text =
        (⟨10 ^ 30, some (-7), none⟩ : SemanticVersion).text := by
  obtain ⟨-, -, -, hsame, hregular, -⟩ := text_keeps_present_parts
  have hspelled : (⟨1, some 23, none⟩ : SemanticVersion).Spelled := by
    rw [Spelled]
    decide +kernel
  have hlarge : (⟨10 ^ 30, none, some (-7)⟩ : SemanticVersion).Spelled := by
    rw [Spelled]
    decide +kernel
  refine ⟨fun htext => ?_, (hsame _ _ hlarge).mpr (Or.inr (Or.inl ⟨10 ^ 30, -7, rfl, rfl⟩))⟩
  have heq := hregular ⟨1, some 23, none⟩ ⟨12, some 3, none⟩ hspelled (fun _ => rfl) (fun _ => rfl)
    htext
  exact absurd (congrArg major heq) (by decide)

/-- The least major that is too long. -/
def longest : SemanticVersion := ⟨Int.ofNat (10 ^ Spelling.digitLimit), none, none⟩

/-- A version with that major has no text, so it is not so that two versions in which the same parts
are present have a text in common, whatever their parts. -/
theorem no_text_of_longest :
    longest.text = .error Spelling.tooLong ∧
      ¬ ∀ v w : SemanticVersion,
        (∃ s, v.text = .ok s ∧ w.text = .ok s) ↔ v.present = w.present := by
  have hlong : longest.text = .error Spelling.tooLong := by
    refine text_of_not_spelled fun hspelled => ?_
    have hshort := of_decide_eq_true (hspelled longest.major List.mem_cons_self)
    exact Nat.lt_irrefl _ ((Nat.length_toDigits_le_iff (by decide) (by decide)).mp hshort)
  refine ⟨hlong, fun hclaim => ?_⟩
  obtain ⟨s, htext, -⟩ := (hclaim longest longest).mpr rfl
  exact absurd (hlong.symm.trans htext) (by simp)

end SemanticVersion

end SymbolRecord
