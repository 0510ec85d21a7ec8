import Mathlib.Data.List.TakeWhile
import SymbolRecord.Json.Token
/-!
# Integers are read back

The decimal text of an integer is a number literal, and if the integer fits 64 bits, that literal
is read as the integer.

* `NumberLiteral.readDigits_writeDigits`: digits are read back.
* `NumberLiteral.isWhole_writeDigits`: they have no leading zero.
* `NumberLiteral.read?_write`: integers are read back.
-/

namespace SymbolRecord

namespace NumberLiteral

/-! ## Digits -/

theorem isDigit_eq (c : Char) : isDigit c = c.isDigit := by
  rw [Bool.eq_iff_iff]
  simp only [isDigit, Char.isDigit, Bool.and_eq_true, decide_eq_true_eq, Char.le_def]

theorem isDigit_of_mem_writeDigits {n : Nat} {c : Char} (h : c ∈ writeDigits n) :
    isDigit c = true := by
  rw [isDigit_eq]
  exact Nat.isDigit_of_mem_toDigits (by decide) (by decide) h

theorem writeDigits_ne_nil (n : Nat) : writeDigits n ≠ [] := Nat.toDigits_ne_nil

theorem readDigits_writeDigits (n : Nat) : readDigits (writeDigits n) = n :=
  Nat.ofDigitChars_toDigits (by decide) (by decide)

/-- A number other than zero does not begin with a zero.  By induction on the number of digits. -/
theorem head?_writeDigits {n : Nat} (hn : n ≠ 0) : (writeDigits n).head? ≠ some '0' := by
  induction n using Nat.strongRecOn with
  | _ n ih =>
    rcases Nat.lt_or_ge n 10 with hlt | hge
    · rw [writeDigits, Nat.toDigits_of_lt_base hlt, List.head?_cons]
      intro h
      exact hn (Nat.digitChar_eq_zero.mp (Option.some_inj.mp h))
    · rw [writeDigits, Nat.toDigits_of_base_le (by decide) hge,
        List.head?_append]
      have hhead := ih (n / 10) (by omega) (by omega)
      unfold writeDigits at hhead
      cases hdigits : (Nat.toDigits 10 (n / 10)).head? with
      | none => exact absurd (List.head?_eq_none_iff.mp hdigits) Nat.toDigits_ne_nil
      | some c =>
        rw [hdigits] at hhead
        exact hhead

theorem isWhole_writeDigits (n : Nat) : isWhole (writeDigits n) = true := by
  by_cases hn : n = 0
  · subst hn
    decide
  · have hhead := head?_writeDigits hn
    cases hdigits : writeDigits n with
    | nil => exact absurd hdigits (writeDigits_ne_nil n)
    | cons c rest =>
      rw [hdigits, List.head?_cons] at hhead
      have hc : c ≠ '0' := fun heq => hhead (congrArg some heq)
      unfold isWhole
      split
      · next heq => exact absurd heq (by simp)
      · rfl
      · next heq => exact absurd (List.cons.inj heq).1 hc
      · rfl

/-! ## Literals -/

theorem takeWhile_writeDigits (n : Nat) : (writeDigits n).takeWhile isDigit = writeDigits n := by
  rw [List.takeWhile_eq_self_iff]
  exact fun c hc => isDigit_of_mem_writeDigits hc

theorem dropWhile_writeDigits (n : Nat) : (writeDigits n).dropWhile isDigit = [] := by
  rw [List.dropWhile_eq_nil_iff]
  exact fun c hc => isDigit_of_mem_writeDigits hc

theorem writeDigits_ne_minus (n : Nat) (rest : List Char) : writeDigits n ≠ '-' :: rest := by
  intro h
  have hmem : '-' ∈ writeDigits n := by
    rw [h]
    exact List.mem_cons_self
  exact absurd (isDigit_of_mem_writeDigits hmem) (by decide)

theorem parts?_writeDigits (n : Nat) :
    parts? (writeDigits n) = some ⟨false, writeDigits n, none, none⟩ := by
  unfold parts?
  split
  next heq =>
    split at heq
    · next rest h => exact absurd h (writeDigits_ne_minus n rest)
    · obtain ⟨rfl, rfl⟩ := Prod.mk.inj heq
      simp only [takeWhile_writeDigits, dropWhile_writeDigits, isWhole_writeDigits, if_true]
      rfl

theorem parts?_minus_writeDigits (n : Nat) :
    parts? ('-' :: writeDigits n) = some ⟨true, writeDigits n, none, none⟩ := by
  unfold parts?
  simp only [takeWhile_writeDigits, dropWhile_writeDigits, isWhole_writeDigits, if_true]
  rfl

/-- **The text of an integer that fits 64 bits is read as that integer.** -/
theorem read?_write {n : Int} (h : inRange n = true) : read? (write n) = some (.int n) := by
  cases n with
  | ofNat m =>
    have hvalue : Parts.value? ⟨false, writeDigits m, none, none⟩ = some (.int (Int.ofNat m)) := by
      simp only [Parts.value?, readDigits_writeDigits]
      exact if_pos h
    rw [write, read?, parts?_writeDigits, Option.bind_some, hvalue]
  | negSucc m =>
    have hvalue : Parts.value? ⟨true, writeDigits (m + 1), none, none⟩ =
        some (.int (Int.negSucc m)) := by
      simp only [Parts.value?, readDigits_writeDigits]
      exact if_pos h
    rw [write, read?, parts?_minus_writeDigits, Option.bind_some, hvalue]

/-! ## The characters of a literal -/

open Json

theorem isNumeric_of_isDigit {c : Char} (h : isDigit c = true) : isNumeric c = true := by
  rw [isNumeric, h]
  rfl

theorem isNumeric_of_all {ds : List Char} (h : ds.all isDigit = true) :
    ∀ c ∈ ds, isNumeric c = true :=
  fun c hc => isNumeric_of_isDigit (List.all_eq_true.mp h c hc)

theorem isNumeric_cons {c : Char} {cs : List Char} (hc : isNumeric c = true)
    (hcs : ∀ d ∈ cs, isNumeric d = true) : ∀ d ∈ c :: cs, isNumeric d = true := by
  intro d hd
  rcases List.mem_cons.mp hd with rfl | hd
  · exact hc
  · exact hcs d hd

theorem isNumeric_append {a b : List Char} (ha : ∀ c ∈ a, isNumeric c = true)
    (hb : ∀ c ∈ b, isNumeric c = true) : ∀ c ∈ a ++ b, isNumeric c = true :=
  fun c hc => (List.mem_append.mp hc).elim (ha c) (hb c)

theorem isNumeric_of_readExponent? {cs : List Char} {exponent? : Option Int}
    (h : readExponent? cs = some exponent?) : ∀ c ∈ cs, isNumeric c = true := by
  cases cs with
  | nil => exact fun _ hmem => absurd hmem List.not_mem_nil
  | cons mark rest =>
    unfold readExponent? at h
    simp only at h
    split at h
    · next hmark =>
      refine isNumeric_cons (by rcases hmark with rfl | rfl <;> rfl) ?_
      split at h
      · split at h
        · next hds => exact isNumeric_cons rfl (isNumeric_of_all hds.2)
        · exact absurd h (by simp)
      · split at h
        · next hds => exact isNumeric_cons rfl (isNumeric_of_all hds.2)
        · exact absurd h (by simp)
      · split at h
        · next hds => exact isNumeric_of_all hds.2
        · exact absurd h (by simp)
    · exact absurd h (by simp)

theorem isNumeric_takeWhile (cs : List Char) : ∀ c ∈ cs.takeWhile isDigit, isNumeric c = true :=
  isNumeric_of_all List.all_takeWhile

/-- What follows the digits before the point in a literal. -/
theorem isNumeric_of_isWhole {cs : List Char} {p : Parts} {negative : Bool}
    (h : (match cs.dropWhile isDigit with
      | '.' :: after =>
        let fraction := after.takeWhile isDigit
        if fraction.isEmpty then none
        else (readExponent? (after.dropWhile isDigit)).map
          (⟨negative, cs.takeWhile isDigit, some fraction, ·⟩)
      | _ => (readExponent? (cs.dropWhile isDigit)).map
          (⟨negative, cs.takeWhile isDigit, none, ·⟩)) = some p) :
    ∀ c ∈ cs, isNumeric c = true := by
  have hrest : ∀ c ∈ cs.dropWhile isDigit, isNumeric c = true := by
    split at h
    · next after heq =>
      rw [heq]
      simp only at h
      split at h
      · exact absurd h (by simp)
      · obtain ⟨_, hexponent, -⟩ := Option.map_eq_some_iff.mp h
        refine isNumeric_cons rfl ?_
        rw [← List.takeWhile_append_dropWhile (p := isDigit) (l := after)]
        exact isNumeric_append (isNumeric_takeWhile after) (isNumeric_of_readExponent? hexponent)
    · obtain ⟨_, hexponent, -⟩ := Option.map_eq_some_iff.mp h
      exact isNumeric_of_readExponent? hexponent
  rw [← List.takeWhile_append_dropWhile (p := isDigit) (l := cs)]
  exact isNumeric_append (isNumeric_takeWhile cs) hrest

theorem head?_of_isWhole {cs : List Char} (h : isWhole (cs.takeWhile isDigit) = true) :
    ∃ c rest, cs = c :: rest ∧ isDigit c = true := by
  cases cs with
  | nil => exact absurd h (by decide)
  | cons c rest =>
    refine ⟨c, rest, rfl, ?_⟩
    cases hc : isDigit c with
    | true => rfl
    | false =>
      rw [List.takeWhile_cons_of_neg (by rw [hc]; exact Bool.false_ne_true)] at h
      exact absurd h (by decide)

theorem isLetter_of_isDigit {c : Char} (h : isDigit c = true) : isLetter c = false := by
  simp only [isDigit, Bool.and_eq_true, decide_eq_true_eq, Char.le_def] at h
  rw [isLetter, Bool.and_eq_false_iff, decide_eq_false_iff_not, Char.le_def]
  left
  have hnine : ('9' : Char).val < ('a' : Char).val := by decide
  intro ha
  exact absurd (UInt32.le_trans ha h.2) (UInt32.not_le.mpr hnine)

/-- The characters of a number literal may occur in numbers, and the first is no letter. -/
theorem isNumeric_of_parts? {cs : List Char} {p : Parts} (h : parts? cs = some p) :
    (∀ c ∈ cs, isNumeric c = true) ∧ ∀ c, cs.head? = some c → isLetter c = false := by
  unfold parts? at h
  simp only at h
  split at h
  · split at h
    · refine ⟨isNumeric_cons rfl (isNumeric_of_isWhole h), fun c hc => ?_⟩
      rw [← Option.some_inj.mp hc]
      rfl
    · exact absurd h (by simp)
  · split at h
    · next hwhole =>
      obtain ⟨c, rest, rfl, hc⟩ := head?_of_isWhole hwhole
      refine ⟨isNumeric_of_isWhole h, fun d hd => ?_⟩
      rw [← Option.some_inj.mp hd]
      exact isLetter_of_isDigit hc
    · exact absurd h (by simp)

end NumberLiteral

end SymbolRecord
