import SymbolRecord.Proofs.Json
import SymbolRecord.Text.Blank
/-!
# A document ends with its value

Nothing but white space may stand behind the value of a document.  So a document, a blank and
something that is not blank are no document together, and a line that is cut in two at a blank is
never read both as a whole and in its first part.

The argument goes down the three stages of reading.  Bytes behind a blank are characters of their
own; the tokens of two texts with a blank between them are those of the one and then those of the
other; and no token may follow those of a complete value.  The way back up is from no tokens to
white space, and from white space to blank bytes.

* `Token.scan_append`: the tokens of two texts.
* `assemble_append`: no token follows a complete value.
* `Token.isSpace_of_scan`, `Utf8.isBlank_of_decode?`: no tokens are white space, which is blank.
* `parse?_append`: what is read with something behind it.
-/

namespace SymbolRecord

open Json

namespace Utf8

/-! ## Characters beyond ASCII -/

/-- The bounds on the next byte of a begun character keep its number beyond ASCII.  With two or
more bytes to come the number so far is at least two after the next one, and then each further
byte multiplies by sixty-four. -/
structure Begun.Large (b : Begun) : Prop where
  least : 0x80 ≤ b.least
  many : 2 ≤ b.value * 64 + (b.least - 0x80)
  one : b.missing ≤ 1 → 0x80 ≤ b.value * 64 + (b.least - 0x80)

theorem large_of_lead {byte : UInt8} {b : Begun} (h : lead byte = .begun b) : b.Large := by
  have hleast := least_of_lead h
  rcases lead_eq_begun h with ⟨hlow, -, rfl⟩ | ⟨hlow, -, rfl⟩ | ⟨hlow, -, rfl⟩
  · exact ⟨hleast, by simp only; omega, fun _ => by simp only; omega⟩
  · refine ⟨hleast, ?_, fun hone => absurd hone (by decide : ¬2 ≤ 1)⟩
    simp only
    split <;> omega
  · refine ⟨hleast, ?_, fun hone => absurd hone (by decide : ¬3 ≤ 1)⟩
    simp only
    split <;> omega

theorem not_isSpace_ofNat {n : Nat} (h : 0x80 ≤ n) : isSpace (Char.ofNat n) = false := by
  have hne : ∀ c : Char, c.toNat ≠ 0 → c.toNat < 0x80 → Char.ofNat n ≠ c := by
    rintro c hzero hlow rfl
    by_cases hvalid : n.isValidChar
    · have hnat : (Char.ofNat n).toNat = n := congrArg Char.toNat (dif_pos hvalid)
      omega
    · exact hzero (congrArg Char.toNat (dif_neg hvalid))
  have hspace := hne ' ' (by decide) (by decide)
  have htab := hne '\t' (by decide) (by decide)
  have hfeed := hne '\n' (by decide) (by decide)
  have hreturn := hne '\r' (by decide) (by decide)
  simp only [isSpace, hspace, htab, hfeed, hreturn, decide_false, Bool.or_self]

/-- The first character that a begun one turns into is no white space. -/
theorem not_isSpace_of_begun {c : Char} {us : List (Option Char)} (bytes : Bytes) :
    ∀ b : Begun, b.Large → units (some b) bytes = some c :: us → isSpace c = false := by
  induction bytes with
  | nil => exact fun b _ h => absurd h (by simp [units])
  | cons first rest ih =>
    intro b hlarge h
    have hleast := hlarge.least
    have hmany := hlarge.many
    obtain ⟨byte, rest', hbytes, hlow, -, ⟨hmissing, hc, -⟩ | ⟨-, hmore⟩⟩ := units_some_eq_cons h
    · have hone := hlarge.one hmissing
      rw [hc]
      exact not_isSpace_ofNat (by omega)
    · obtain ⟨rfl, rfl⟩ := List.cons.inj hbytes
      refine ih _ ⟨Nat.le_refl _, ?_, fun _ => ?_⟩ hmore
      · simp only
        omega
      · simp only
        omega

theorem isBlank_of_isSpace {byte : UInt8} (h : isSpace (Char.ofNat byte.toNat) = true) :
    Bytes.isBlank byte = true := by
  have hall : ∀ n < 256, isSpace (Char.ofNat n) = true → Bytes.isBlank (UInt8.ofNat n) = true := by
    decide +kernel
  have hblank := hall byte.toNat byte.toNat_lt h
  rwa [UInt8.ofNat_toNat] at hblank

/-- Bytes that spell white space are blank. -/
theorem isBlank_of_units :
    ∀ (bytes : Bytes) (cs : List Char), (∀ c ∈ cs, isSpace c = true) →
      units none bytes = cs.map some → ∀ byte ∈ bytes, Bytes.isBlank byte = true
  | [], _, _, _ => fun _ hmem => absurd hmem List.not_mem_nil
  | byte :: rest, cs, hcs, h => by
    rw [units] at h
    cases hlead : lead byte with
    | defect =>
      simp only [hlead] at h
      obtain ⟨_, _, _, hnone, -⟩ := List.map_eq_cons_iff.mp h.symm
      exact absurd hnone (by simp)
    | begun b =>
      simp only [hlead] at h
      cases cs with
      | nil => exact absurd h (units_some_ne_nil b rest)
      | cons c cs =>
        have hspace := hcs c List.mem_cons_self
        rw [not_isSpace_of_begun rest b (large_of_lead hlead) h] at hspace
        exact absurd hspace Bool.false_ne_true
    | char c =>
      simp only [hlead] at h
      obtain ⟨d, cs, rfl, hd, hrest⟩ := List.map_eq_cons_iff.mp h.symm
      obtain rfl := Option.some_inj.mp hd
      have hspace := hcs d List.mem_cons_self
      intro other hmem
      rcases List.mem_cons.mp hmem with rfl | hmem
      · exact isBlank_of_isSpace (by rwa [← (lead_eq_char hlead).2])
      · exact isBlank_of_units rest cs (fun c hc => hcs c (List.mem_cons_of_mem d hc)) hrest.symm
          other hmem

theorem isBlank_of_decode? {bytes : Bytes} {cs : List Char} (h : decode? bytes = some cs)
    (hcs : ∀ c ∈ cs, isSpace c = true) : ∀ byte ∈ bytes, Bytes.isBlank byte = true :=
  isBlank_of_units bytes cs hcs (decode?_eq_some_iff.mp h)

end Utf8

namespace Json

namespace Token

/-! ## The tokens of two texts -/

/-- Where a text may end, a boundary begins its tokens anew. -/
theorem scan_of_finish? {mode : Mode} {tokens : List Token} (h : mode.finish? = some tokens)
    {rest : List Char} (hrest : Boundary rest) :
    scan mode rest = (scan .between rest).map (tokens ++ ·) := by
  cases mode with
  | between =>
    rw [← Option.some_inj.mp h]
    simp
  | word read =>
    obtain ⟨token, hword, rfl⟩ := Option.map_eq_some_iff.mp h
    exact scan_word_boundary hword hrest
  | number read =>
    obtain ⟨v, hread, rfl⟩ := Option.map_eq_some_iff.mp h
    exact scan_number_boundary hread hrest
  | _ => nomatch h

/-- **The tokens of a text with a boundary behind it** are its own, and then those behind it. -/
theorem scan_append {cs rest : List Char} (hrest : Boundary rest) :
    ∀ {mode : Mode} {tokens : List Token}, scan mode cs = some tokens →
      scan mode (cs ++ rest) = (scan .between rest).map (tokens ++ ·) := by
  induction cs with
  | nil => exact fun h => scan_of_finish? h hrest
  | cons c cs ih =>
    intro mode tokens h
    rw [scan_cons] at h
    obtain ⟨⟨first, next⟩, hstep, h⟩ := Option.bind_eq_some_iff.mp h
    obtain ⟨others, hothers, rfl⟩ := Option.map_eq_some_iff.mp h
    rw [List.cons_append, scan_cons, hstep, Option.bind_some, ih hothers, Option.map_map]
    refine congrArg (Option.map · _) (funext fun more => ?_)
    exact (List.append_assoc first others more).symm

/-! ## No tokens -/

/-- A character that begins something else than white space leaves its trace. -/
theorem isSpace_of_begin? {c : Char} (h : begin? c = some ([], .between)) : isSpace c = true := by
  unfold begin? at h
  repeat' split at h
  all_goals first | assumption | cases h

/-- A word or number that may end has a token. -/
theorem eq_between_of_finish? {mode : Mode} (h : mode.finish? = some []) : mode = .between := by
  cases mode with
  | between => rfl
  | word read =>
    obtain ⟨token, -, hnil⟩ := Option.map_eq_some_iff.mp h
    exact absurd hnil (by simp)
  | number read =>
    obtain ⟨v, -, hnil⟩ := Option.map_eq_some_iff.mp h
    exact absurd hnil (by simp)
  | _ => nomatch h

/-- The end of a word or number and the beginning of something new, without a token. -/
theorem eq_between_of_finish?_bind {mode next : Mode} {c : Char}
    (h : (mode.finish?.bind fun done => (begin? c).bind fun result =>
      some (done ++ result.1, result.2)) = some ([], next)) : mode = .between := by
  obtain ⟨done, hdone, h⟩ := Option.bind_eq_some_iff.mp h
  obtain ⟨result, -, h⟩ := Option.bind_eq_some_iff.mp h
  have hnil := congrArg Prod.fst (Option.some_inj.mp h)
  rw [(List.append_eq_nil_iff.mp hnil).1] at hdone
  exact eq_between_of_finish? hdone

theorem finishCode?_ne_between (read : List Char) (high? : Option Nat) (value : Nat) :
    finishCode? read high? value ≠ some .between := by
  intro h
  unfold finishCode? at h
  repeat' split at h
  all_goals cases h

/-- Nothing but white space leads back between tokens without a token. -/
theorem step?_between {mode : Mode} {c : Char} (h : mode.step? c = some ([], .between)) :
    mode = .between ∧ isSpace c = true := by
  cases mode with
  | between => exact ⟨rfl, isSpace_of_begin? h⟩
  | word read =>
    simp only [Mode.step?] at h
    split at h
    · cases h
    · exact absurd (eq_between_of_finish?_bind h) (by simp)
  | number read =>
    simp only [Mode.step?] at h
    split at h
    · cases h
    · exact absurd (eq_between_of_finish?_bind h) (by simp)
  | text read =>
    simp only [Mode.step?] at h
    repeat' split at h
    all_goals cases h
  | escape read =>
    simp only [Mode.step?] at h
    split at h
    · cases h
    · obtain ⟨d, -, h⟩ := Option.map_eq_some_iff.mp h
      cases h
  | code read high? missing value =>
    obtain ⟨digit, -, h⟩ := Option.bind_eq_some_iff.mp h
    split at h
    · obtain ⟨next, hnext, h⟩ := Option.bind_eq_some_iff.mp h
      cases h
      exact absurd hnext (finishCode?_ne_between _ _ _)
    · cases h
  | paired read high =>
    simp only [Mode.step?] at h
    split at h
    all_goals cases h
  | pairedEscape read high =>
    simp only [Mode.step?] at h
    split at h
    all_goals cases h

/-- A text without tokens is white space. -/
theorem isSpace_of_scan {cs : List Char} :
    ∀ {mode : Mode}, scan mode cs = some [] → mode = .between ∧ ∀ c ∈ cs, isSpace c = true := by
  induction cs with
  | nil => exact fun h => ⟨eq_between_of_finish? h, fun _ hmem => nomatch hmem⟩
  | cons c cs ih =>
    intro mode h
    rw [scan_cons] at h
    obtain ⟨⟨first, next⟩, hstep, h⟩ := Option.bind_eq_some_iff.mp h
    obtain ⟨others, hothers, hnil⟩ := Option.map_eq_some_iff.mp h
    obtain ⟨rfl, rfl⟩ := List.append_eq_nil_iff.mp hnil
    obtain ⟨rfl, hspaces⟩ := ih hothers
    obtain ⟨rfl, hspace⟩ := step?_between hstep
    refine ⟨rfl, fun d hd => ?_⟩
    rcases List.mem_cons.mp hd with rfl | hd
    · exact hspace
    · exact hspaces d hd

end Token

/-! ## Behind a complete value -/

/-- No token follows those of a complete value. -/
theorem assemble_append {v : Value} {more : List Token} (hmore : more ≠ []) :
    ∀ {tokens : List Token} {frames : List Frame} {expected : Expected},
      assemble frames expected tokens = some v →
        assemble frames expected (tokens ++ more) = none := by
  intro tokens
  induction tokens with
  | nil =>
    intro frames expected h
    obtain ⟨token, more, rfl⟩ := List.exists_cons_of_ne_nil hmore
    cases expected with
    | nothing w => rfl
    | _ => nomatch h
  | cons token tokens ih =>
    intro frames expected h
    rw [assemble] at h
    rw [List.cons_append, assemble]
    cases hadvance : advance? frames expected token with
    | none => rfl
    | some state =>
      rw [hadvance] at h
      exact ih h

/-! ## Documents -/

theorem boundary_of_isBlank {byte : UInt8} (h : Bytes.isBlank byte = true) (cs : List Char) :
    Boundary (Char.ofNat byte.toNat :: cs) := by
  have hall : ∀ n < 256, Bytes.isBlank (UInt8.ofNat n) = true →
      isLetter (Char.ofNat n) = false ∧ isNumeric (Char.ofNat n) = false := by decide +kernel
  rw [← @UInt8.ofNat_toNat byte] at h
  obtain ⟨hletter, hnumeric⟩ := hall byte.toNat byte.toNat_lt h
  exact boundary_cons cs hletter hnumeric

theorem ascii_of_isBlank {byte : UInt8} (h : Bytes.isBlank byte = true) : byte.toNat < 0x80 := by
  simp only [Bytes.isBlank, Bool.or_eq_true, Bool.and_eq_true, decide_eq_true_eq] at h
  rcases h with rfl | ⟨-, hle⟩
  · decide
  · exact Nat.lt_of_le_of_lt (UInt8.le_iff_toNat_le.mp hle) (by decide)

/-- **A document with a blank and something else behind it is none.** -/
theorem parse?_append {a rest : Bytes} {byte : UInt8} {v : Value} (h : parse? a = some v)
    (hbyte : Bytes.isBlank byte = true) (hrest : ∃ b ∈ byte :: rest, Bytes.isBlank b = false) :
    parse? (a ++ byte :: rest) = none := by
  have hascii : byte.toNat < 0x80 := ascii_of_isBlank hbyte
  by_contra hsome
  obtain ⟨w, hw⟩ := Option.ne_none_iff_exists'.mp hsome
  obtain ⟨cs, hcs, hw⟩ := Option.bind_eq_some_iff.mp hw
  obtain ⟨before, behind, hbefore, hbehind, rfl⟩ :=
    Utf8.exists_decode?_of_append_ascii hascii hcs
  rw [parse?, hbefore, Option.bind_some] at h
  obtain ⟨tokens, htokens, hv⟩ := Option.bind_eq_some_iff.mp h
  obtain ⟨all, hall, hw⟩ := Option.bind_eq_some_iff.mp hw
  rw [Token.scan_append (boundary_of_isBlank hbyte behind) htokens] at hall
  obtain ⟨more, hmore, rfl⟩ := Option.map_eq_some_iff.mp hall
  by_cases hnil : more = []
  · rw [hnil] at hmore
    obtain ⟨-, hspaces⟩ := Token.isSpace_of_scan hmore
    have hwhole : Utf8.decode? (byte :: rest) = some (Char.ofNat byte.toNat :: behind) := by
      rw [Utf8.decode?_eq_some_iff, Utf8.units_ascii hascii, Utf8.decode?_eq_some_iff.mp hbehind]
      rfl
    obtain ⟨b, hb, hnot⟩ := hrest
    rw [Utf8.isBlank_of_decode? hwhole hspaces b hb] at hnot
    exact absurd hnot (by simp)
  · rw [assemble_append hnil hv] at hw
    exact absurd hw (by simp)

end Json

end SymbolRecord
