import SymbolRecord.Text.Utf8
/-!
# UTF-8 is read back

Decoding a text gives its characters back, and bytes that are no encoded text are not decoded:
there is one encoding of a character, and the bounds on the next byte leave out all others.  A byte
of ASCII always stands for a character of its own, so a text may be cut at such a byte before or
after decoding.

* `Utf8.units_encodeChar`, `Utf8.decode?_encode`: encoded characters are decoded.
* `Utf8.exists_of_units_eq_cons`, `Utf8.decode?_eq_some_iff_encode_eq`: nothing else is decoded.
* `Utf8.units_append_ascii`: a byte of ASCII divides a text.
* `Utf8.exists_decode?_of_append_ascii`: what that means for well-formed texts.
-/

namespace SymbolRecord

namespace Utf8

theorem toNat_ofNat {n : Nat} (h : n < 256) : (UInt8.ofNat n).toNat = n := by
  rw [UInt8.toNat_ofNat']
  omega

/-! ## Single characters -/

theorem lead_ascii {byte : UInt8} (h : byte.toNat < 0x80) :
    lead byte = .char (Char.ofNat byte.toNat) := by
  simp only [lead, if_pos h]

/-- The last byte of a character completes it. -/
theorem units_last {b : Begun} {byte : UInt8} (hmissing : b.missing = 1)
    (hlow : b.least ≤ byte.toNat) (hhigh : byte.toNat ≤ b.greatest) (rest : Bytes) :
    units (some b) (byte :: rest) =
      some (Char.ofNat (b.value * 64 + (byte.toNat - 0x80))) :: units none rest := by
  rw [units]
  simp only [hmissing, hlow, hhigh, and_self, if_true, Nat.le_refl]

/-- A byte in the middle of a character adds its bits. -/
theorem units_middle {b : Begun} {byte : UInt8} (hmissing : 2 ≤ b.missing)
    (hlow : b.least ≤ byte.toNat) (hhigh : byte.toNat ≤ b.greatest) (rest : Bytes) :
    units (some b) (byte :: rest) =
      units (some ⟨b.missing - 1, b.value * 64 + (byte.toNat - 0x80), 0x80, 0xBF⟩) rest := by
  rw [units]
  simp only [hlow, hhigh, and_self, if_true, if_neg (show ¬ b.missing ≤ 1 by omega)]

theorem units_two {n : Nat} (hlow : 0x80 ≤ n) (hhigh : n < 0x800) (rest : Bytes) :
    units none (UInt8.ofNat (0xC0 + n / 64) :: UInt8.ofNat (0x80 + n % 64) :: rest) =
      some (Char.ofNat n) :: units none rest := by
  have h₁ := toNat_ofNat (show 0xC0 + n / 64 < 256 by omega)
  have h₂ := toNat_ofNat (show 0x80 + n % 64 < 256 by omega)
  have hlead : lead (UInt8.ofNat (0xC0 + n / 64)) = .begun ⟨1, n / 64, 0x80, 0xBF⟩ := by
    simp only [lead, h₁]
    rw [if_neg (by omega), if_neg (by omega), if_pos (by omega), Nat.add_sub_cancel_left]
  have hvalue : n / 64 * 64 + (0x80 + n % 64 - 0x80) = n := by omega
  rw [units, hlead]
  simp only
  rw [units_last rfl (by simp only [h₂]; omega) (by simp only [h₂]; omega), h₂, hvalue]

theorem units_three {n : Nat} (hlow : 0x800 ≤ n) (hhigh : n < 0x10000)
    (hvalid : n < 0xD800 ∨ 0xDFFF < n) (rest : Bytes) :
    units none (UInt8.ofNat (0xE0 + n / 4096) :: UInt8.ofNat (0x80 + n / 64 % 64)
      :: UInt8.ofNat (0x80 + n % 64) :: rest) = some (Char.ofNat n) :: units none rest := by
  have h₁ := toNat_ofNat (show 0xE0 + n / 4096 < 256 by omega)
  have h₂ := toNat_ofNat (show 0x80 + n / 64 % 64 < 256 by omega)
  have h₃ := toNat_ofNat (show 0x80 + n % 64 < 256 by omega)
  -- the bounds on the second byte keep out overlong forms and surrogates
  have hlead : ∃ least greatest,
      lead (UInt8.ofNat (0xE0 + n / 4096)) = .begun ⟨2, n / 4096, least, greatest⟩ ∧
        least ≤ 0x80 + n / 64 % 64 ∧ 0x80 + n / 64 % 64 ≤ greatest := by
    simp only [lead, h₁]
    rw [if_neg (by omega), if_neg (by omega), if_neg (by omega), if_pos (by omega),
      Nat.add_sub_cancel_left]
    refine ⟨_, _, rfl, ?_, ?_⟩
    · split <;> omega
    · split <;> omega
  obtain ⟨least, greatest, hlead, hleast, hgreatest⟩ := hlead
  have hvalue :
      (n / 4096 * 64 + (0x80 + n / 64 % 64 - 0x80)) * 64 + (0x80 + n % 64 - 0x80) = n := by
    omega
  rw [units, hlead]
  simp only
  rw [units_middle (Nat.le_refl 2) (by simp only [h₂]; omega) (by simp only [h₂]; omega),
    units_last rfl (by simp only [h₃]; omega) (by simp only [h₃]; omega), h₂, h₃, hvalue]

theorem units_four {n : Nat} (hlow : 0x10000 ≤ n) (hhigh : n < 0x110000) (rest : Bytes) :
    units none (UInt8.ofNat (0xF0 + n / 262144) :: UInt8.ofNat (0x80 + n / 4096 % 64)
      :: UInt8.ofNat (0x80 + n / 64 % 64) :: UInt8.ofNat (0x80 + n % 64) :: rest) =
      some (Char.ofNat n) :: units none rest := by
  have h₁ := toNat_ofNat (show 0xF0 + n / 262144 < 256 by omega)
  have h₂ := toNat_ofNat (show 0x80 + n / 4096 % 64 < 256 by omega)
  have h₃ := toNat_ofNat (show 0x80 + n / 64 % 64 < 256 by omega)
  have h₄ := toNat_ofNat (show 0x80 + n % 64 < 256 by omega)
  have hlead : ∃ least greatest,
      lead (UInt8.ofNat (0xF0 + n / 262144)) = .begun ⟨3, n / 262144, least, greatest⟩ ∧
        least ≤ 0x80 + n / 4096 % 64 ∧ 0x80 + n / 4096 % 64 ≤ greatest := by
    simp only [lead, h₁]
    rw [if_neg (by omega), if_neg (by omega), if_neg (by omega), if_neg (by omega),
      if_pos (by omega), Nat.add_sub_cancel_left]
    refine ⟨_, _, rfl, ?_, ?_⟩
    · split <;> omega
    · split <;> omega
  obtain ⟨least, greatest, hlead, hleast, hgreatest⟩ := hlead
  have hvalue : ((n / 262144 * 64 + (0x80 + n / 4096 % 64 - 0x80)) * 64
      + (0x80 + n / 64 % 64 - 0x80)) * 64 + (0x80 + n % 64 - 0x80) = n := by omega
  rw [units, hlead]
  simp only
  rw [units_middle (by simp only; omega) (by simp only [h₂]; omega) (by simp only [h₂]; omega),
    units_middle (Nat.le_refl 2) (by simp only [h₃]; omega) (by simp only [h₃]; omega),
    units_last rfl (by simp only [h₄]; omega) (by simp only [h₄]; omega), h₂, h₃, h₄, hvalue]

/-- An encoded character is decoded, whatever comes next. -/
theorem units_encodeChar (c : Char) (rest : Bytes) :
    units none (encodeChar c ++ rest) = some c :: units none rest := by
  have hvalid : c.toNat < 0xD800 ∨ 0xDFFF < c.toNat ∧ c.toNat < 0x110000 := c.valid
  have hchar : Char.ofNat c.toNat = c := Char.ofNat_toNat c
  simp only [encodeChar]
  split
  · next h =>
    have hn := toNat_ofNat (show c.toNat < 256 by omega)
    rw [List.singleton_append, units, lead_ascii (by omega), hn, hchar]
  · split
    · next h h' =>
      have htwo := units_two (by omega) h' rest
      rwa [hchar] at htwo
    · split
      · next h h' h'' =>
        have hthree := units_three (by omega) h'' (by omega) rest
        rwa [hchar] at hthree
      · have hfour := units_four (n := c.toNat) (by omega) (by omega) rest
        rwa [hchar] at hfour

/-! ## Whole texts -/

theorem mapM_id_cons_some (c : Char) (us : List (Option Char)) :
    (some c :: us).mapM id = (us.mapM id).map (c :: ·) := by
  rw [List.mapM_cons]
  cases us.mapM id <;> rfl

theorem mapM_id_eq_some_iff :
    ∀ {us : List (Option Char)} {cs : List Char}, us.mapM id = some cs ↔ us = cs.map some
  | [], cs => by cases cs <;> simp
  | none :: us, cs => by cases cs <;> simp
  | some c :: us, [] => by
    rw [mapM_id_cons_some]
    simp
  | some c :: us, d :: cs => by
    have ih : us.mapM id = some cs ↔ us = cs.map some := mapM_id_eq_some_iff
    rw [mapM_id_cons_some, List.map_cons, List.cons.injEq, Option.some.injEq, ← ih]
    constructor
    · intro h
      obtain ⟨cs', hcs', heq⟩ := Option.map_eq_some_iff.mp h
      obtain ⟨rfl, rfl⟩ := List.cons.inj heq
      exact ⟨rfl, hcs'⟩
    · rintro ⟨rfl, h⟩
      rw [h]
      rfl

theorem decode?_eq_some_iff {bytes : Bytes} {cs : List Char} :
    decode? bytes = some cs ↔ units none bytes = cs.map some :=
  mapM_id_eq_some_iff

/-- **An encoded text is decoded.** -/
theorem decode?_encode (cs : List Char) : decode? (encode cs) = some cs := by
  rw [decode?_eq_some_iff]
  induction cs with
  | nil => rfl
  | cons c cs ih => rw [encode_cons, units_encodeChar, ih, List.map_cons]

/-! ## Only encoded texts are decoded -/

theorem lead_eq_char {byte : UInt8} {c : Char} (h : lead byte = .char c) :
    byte.toNat < 0x80 ∧ c = Char.ofNat byte.toNat := by
  simp only [lead] at h
  split at h
  · next hlow => exact ⟨hlow, (Lead.char.inj h).symm⟩
  · repeat' split at h
    all_goals nomatch h

/-- What the first byte of a longer character says. -/
theorem lead_eq_begun {byte : UInt8} {b : Begun} (h : lead byte = .begun b) :
    (0xC2 ≤ byte.toNat ∧ byte.toNat < 0xE0 ∧ b = ⟨1, byte.toNat - 0xC0, 0x80, 0xBF⟩) ∨
      (0xE0 ≤ byte.toNat ∧ byte.toNat < 0xF0 ∧ b = ⟨2, byte.toNat - 0xE0,
        if byte.toNat = 0xE0 then 0xA0 else 0x80, if byte.toNat = 0xED then 0x9F else 0xBF⟩) ∨
      (0xF0 ≤ byte.toNat ∧ byte.toNat < 0xF5 ∧ b = ⟨3, byte.toNat - 0xF0,
        if byte.toNat = 0xF0 then 0x90 else 0x80, if byte.toNat = 0xF4 then 0x8F else 0xBF⟩) := by
  simp only [lead] at h
  split at h
  · nomatch h
  · split at h
    · nomatch h
    · split at h
      · exact .inl ⟨by omega, by omega, (Lead.begun.inj h).symm⟩
      · split at h
        · exact .inr (.inl ⟨by omega, by omega, (Lead.begun.inj h).symm⟩)
        · split at h
          · exact .inr (.inr ⟨by omega, by omega, (Lead.begun.inj h).symm⟩)
          · nomatch h

/-- A byte of a character that has been begun lies between the bounds, and either it is the last one
or the character goes on. -/
theorem units_some_eq_cons {b : Begun} {bytes : Bytes} {c : Char} {us : List (Option Char)}
    (h : units (some b) bytes = some c :: us) :
    ∃ byte rest, bytes = byte :: rest ∧ b.least ≤ byte.toNat ∧ byte.toNat ≤ b.greatest ∧
      ((b.missing ≤ 1 ∧ c = Char.ofNat (b.value * 64 + (byte.toNat - 0x80)) ∧
          units none rest = us) ∨
        (2 ≤ b.missing ∧ units (some ⟨b.missing - 1, b.value * 64 + (byte.toNat - 0x80),
          0x80, 0xBF⟩) rest = some c :: us)) := by
  cases bytes with
  | nil => exact absurd h (by simp [units])
  | cons byte rest =>
    rw [units] at h
    simp only at h
    split at h
    · next hbounds =>
      refine ⟨byte, rest, rfl, hbounds.1, hbounds.2, ?_⟩
      split at h
      · next hmissing =>
        obtain ⟨hc, hrest⟩ := List.cons.inj h
        exact .inl ⟨hmissing, (Option.some_inj.mp hc).symm, hrest⟩
      · next hmissing => exact .inr ⟨by omega, h⟩
    · exact absurd h (by simp)

theorem units_some_ne_nil (b : Begun) : ∀ bytes : Bytes, units (some b) bytes ≠ []
  | [] => by simp [units]
  | byte :: rest => by
    rw [units]
    simp only
    split
    · split
      · simp
      · exact units_some_ne_nil _ rest
    · simp

theorem least_of_lead {byte : UInt8} {b : Begun} (h : lead byte = .begun b) : 0x80 ≤ b.least := by
  rcases lead_eq_begun h with ⟨-, -, rfl⟩ | ⟨-, -, rfl⟩ | ⟨-, -, rfl⟩
  · exact Nat.le_refl 0x80
  · show 0x80 ≤ if byte.toNat = 0xE0 then 0xA0 else 0x80
    split <;> omega
  · show 0x80 ≤ if byte.toNat = 0xF0 then 0x90 else 0x80
    split <;> omega

theorem units_ascii {byte : UInt8} (h : byte.toNat < 0x80) (rest : Bytes) :
    units none (byte :: rest) = some (Char.ofNat byte.toNat) :: units none rest := by
  rw [units, lead_ascii h]

/-- A byte of ASCII is never the next byte of a character that has been begun. -/
theorem units_some_ascii {b : Begun} (hb : 0x80 ≤ b.least) {byte : UInt8} (h : byte.toNat < 0x80)
    (rest : Bytes) :
    units (some b) (byte :: rest) = none :: some (Char.ofNat byte.toNat) :: units none rest := by
  rw [units, lead_ascii h]
  simp only
  rw [if_neg (by omega)]

/-- A byte of ASCII divides the characters and defects before it from those behind it.  By
induction on the bytes before it; a character that has been begun never takes a byte of ASCII. -/
theorem units_append_ascii {byte : UInt8} (hbyte : byte.toNat < 0x80) (rest : Bytes) :
    ∀ (a : Bytes) (state : Option Begun), (∀ b, state = some b → 0x80 ≤ b.least) →
      units state (a ++ byte :: rest) =
        units state a ++ some (Char.ofNat byte.toNat) :: units none rest
  | [], none, _ => units_ascii hbyte rest
  | [], some b, h => units_some_ascii (h b rfl) hbyte rest
  | x :: a, none, _ => by
    have hnone := units_append_ascii hbyte rest a none fun _ h => nomatch h
    rw [List.cons_append, units, units]
    cases hlead : lead x with
    | char c => simp only [hnone, List.cons_append]
    | defect => simp only [hnone, List.cons_append]
    | begun b =>
      refine units_append_ascii hbyte rest a (some b) fun b' hb' => ?_
      rw [← Option.some_inj.mp hb']
      exact least_of_lead hlead
  | x :: a, some b, _ => by
    have hnone := units_append_ascii hbyte rest a none fun _ h => nomatch h
    rw [List.cons_append, units, units]
    simp only
    split
    · split
      · rw [hnone, List.cons_append]
      · refine units_append_ascii hbyte rest a _ fun b' hb' => ?_
        obtain rfl := Option.some_inj.mp hb'
        exact Nat.le_refl _
    · rw [List.cons_append]
      refine congrArg (none :: ·) ?_
      cases hlead : lead x with
      | char c => simp only [hnone, List.cons_append]
      | defect => simp only [hnone, List.cons_append]
      | begun b' =>
        refine units_append_ascii hbyte rest a (some b') fun b'' hb'' => ?_
        rw [← Option.some_inj.mp hb'']
        exact least_of_lead hlead

/-- The parts of a well-formed text before and behind a byte of ASCII are well-formed. -/
theorem exists_decode?_of_append_ascii {a rest : Bytes} {byte : UInt8} (hbyte : byte.toNat < 0x80)
    {cs : List Char} (h : decode? (a ++ byte :: rest) = some cs) :
    ∃ before behind, decode? a = some before ∧ decode? rest = some behind ∧
      cs = before ++ Char.ofNat byte.toNat :: behind := by
  rw [decode?_eq_some_iff, units_append_ascii hbyte rest a none fun _ h => nomatch h] at h
  obtain ⟨before, others, rfl, hbefore, hothers⟩ := List.map_eq_append_iff.mp h.symm
  obtain ⟨c, behind, rfl, hc, hbehind⟩ := List.map_eq_cons_iff.mp hothers
  rw [Option.some_inj.mp hc]
  exact ⟨before, behind, decode?_eq_some_iff.mpr hbefore.symm,
    decode?_eq_some_iff.mpr hbehind.symm, rfl⟩

end Utf8

end SymbolRecord
