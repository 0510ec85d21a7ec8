import SymbolRecord.Proofs.Lines
import SymbolRecord.Proofs.Token
/-!
# Compact output

The compact text of a value has no control characters, as those are escaped inside texts and
nothing else puts one there.  So a written object is a line of its own: it begins and ends with a
brace, and no line end stands between them.

* `Json.le_of_mem_write`: no control characters are written.
* `Json.trimmed_write`, `Json.not_break_of_mem_write`: a written object is a line of its own.
-/

namespace SymbolRecord

namespace Json

/-! ## Characters -/

theorem le_hexDigit : ∀ n < 16, 0x20 ≤ (hexDigit n).toNat := by decide

theorem le_of_isNumeric {c : Char} (h : isNumeric c = true) : 0x20 ≤ c.toNat := by
  simp only [isNumeric, Bool.or_eq_true, decide_eq_true_eq] at h
  rcases h with ((((h | rfl) | rfl) | rfl) | rfl) | rfl
  · simp only [NumberLiteral.isDigit, Bool.and_eq_true, decide_eq_true_eq, Char.le_def] at h
    have hzero : ('0' : Char).val.toNat ≤ c.val.toNat := UInt32.le_iff_toNat_le.mp h.1
    have heq : ('0' : Char).val.toNat = 0x30 := rfl
    show 0x20 ≤ c.val.toNat
    omega
  all_goals decide

theorem le_of_mem_escaped {c d : Char} (h : d ∈ escaped c) : 0x20 ≤ d.toNat := by
  have hpair : ∀ {e : Char}, 0x20 ≤ e.toNat → d ∈ ['\\', e] → 0x20 ≤ d.toNat := by
    intro e he hd
    rcases List.mem_cons.mp hd with rfl | hd
    · decide
    · rw [List.mem_singleton.mp hd]
      exact he
  unfold escaped at h
  split at h
  · exact hpair (by decide) h
  · split at h
    · exact hpair (by decide) h
    · split at h
      · exact hpair (by decide) h
      · split at h
        · exact hpair (by decide) h
        · split at h
          · exact hpair (by decide) h
          · split at h
            · exact hpair (by decide) h
            · split at h
              · exact hpair (by decide) h
              · split at h
                · next hcontrol =>
                  simp only [List.mem_cons, List.not_mem_nil, or_false] at h
                  rcases h with rfl | rfl | rfl | rfl | rfl | rfl
                  · decide
                  · decide
                  · decide
                  · decide
                  · exact le_hexDigit _ (by omega)
                  · exact le_hexDigit _ (by omega)
                · next hplain =>
                  rw [List.mem_singleton.mp h]
                  omega

theorem le_of_mem_quoted {s : String} {d : Char} (h : d ∈ quoted s) : 0x20 ≤ d.toNat := by
  rw [quoted, List.mem_cons, List.mem_append, List.mem_singleton, List.mem_flatMap] at h
  rcases h with rfl | ⟨c, -, hd⟩ | rfl
  · decide
  · exact le_of_mem_escaped hd
  · decide

theorem le_of_mem_number {cs : List Char} {v : Value} (h : NumberLiteral.read? cs = some v)
    {d : Char} (hd : d ∈ cs) : 0x20 ≤ d.toNat := by
  obtain ⟨p, hparts, -⟩ := Option.bind_eq_some_iff.mp h
  exact le_of_isNumeric ((NumberLiteral.isNumeric_of_parts? hparts).1 d hd)

theorem le_of_mem_writeScalar {v : Value} (hleaf : v.isLeaf = true) (hv : Spelled v) {d : Char}
    (hd : d ∈ writeScalar v) : 0x20 ≤ d.toNat := by
  have hnull : ∀ e ∈ ['n', 'u', 'l', 'l'], 0x20 ≤ e.toNat := by simp
  have htrue : ∀ e ∈ ['t', 'r', 'u', 'e'], 0x20 ≤ e.toNat := by simp
  have hfalse : ∀ e ∈ ['f', 'a', 'l', 's', 'e'], 0x20 ≤ e.toNat := by simp
  cases v with
  | null => exact hnull d hd
  | bool b =>
    cases b with
    | true => exact htrue d hd
    | false => exact hfalse d hd
  | int n => exact le_of_mem_number (NumberLiteral.read?_write hv) hd
  | float x => exact le_of_mem_number hv hd
  | text s => exact le_of_mem_quoted hd
  | list => exact absurd hleaf (by simp [Value.isLeaf])
  | object => exact absurd hleaf (by simp [Value.isLeaf])
  | foreign => exact hv.elim

/-! ## Values -/

/-- No control character is written for a value. -/
def Printable (v : Value) : Prop :=
  ∀ (level : Nat) (d : Char), d ∈ write .compact level v → 0x20 ≤ d.toNat

theorem le_of_mem_writeItems {level : Nat} {d : Char} :
    ∀ {items : List Value}, (∀ v ∈ items, Printable v) →
      d ∈ writeItems .compact level items → 0x20 ≤ d.toNat
  | [], _, hd => absurd hd (by simp [writeItems])
  | item :: rest, h, hd => by
    rw [writeItems, Layout.line, List.nil_append, List.mem_cons, List.mem_append] at hd
    rcases hd with rfl | hd | hd
    · decide
    · exact h item List.mem_cons_self level d hd
    · exact le_of_mem_writeItems (fun v hv => h v (List.mem_cons_of_mem _ hv)) hd

theorem le_of_mem_writeEntries {level : Nat} {d : Char} :
    ∀ {entries : Entries Value}, (∀ entry ∈ entries, Printable entry.2) →
      d ∈ writeEntries .compact level entries → 0x20 ≤ d.toNat
  | [], _, hd => absurd hd (by simp [writeEntries])
  | (key, item) :: rest, h, hd => by
    simp only [writeEntries, Layout.line, Layout.colon, List.nil_append, List.mem_cons,
      List.mem_append, List.not_mem_nil, or_false] at hd
    rcases hd with rfl | ((hd | rfl) | hd) | hd
    · decide
    · exact le_of_mem_quoted hd
    · decide
    · exact h (key, item) List.mem_cons_self level d hd
    · exact le_of_mem_writeEntries (fun entry hentry => h entry (List.mem_cons_of_mem _ hentry)) hd

/-- **Compact output has no control characters.** -/
theorem le_of_mem_write {v : Value} (h : ∀ u, u.Within v → Spelled u) : Printable v := by
  induction v using Value.ind with
  | leaf v hv =>
    intro level d hd
    have hwrite : write .compact level v = writeScalar v := by
      cases v <;> first | rfl | exact absurd hv (by simp [Value.isLeaf])
    rw [hwrite] at hd
    exact le_of_mem_writeScalar hv (h v (.self v)) hd
  | list items ih =>
    intro level d hd
    have hitems : ∀ v ∈ items, Printable v := fun v hv => ih v hv fun u hu => h u (.item hv hu)
    cases items with
    | nil =>
      have hall : ∀ e ∈ ['[', ']'], 0x20 ≤ e.toNat := by simp
      exact hall d hd
    | cons item rest =>
      simp only [write, Layout.line, List.nil_append, List.mem_cons, List.mem_append,
        List.append_nil, List.not_mem_nil, or_false] at hd
      rcases hd with rfl | (hd | hd) | rfl
      · decide
      · exact hitems item List.mem_cons_self (level + 1) d hd
      · exact le_of_mem_writeItems (fun v hv => hitems v (List.mem_cons_of_mem _ hv)) hd
      · decide
  | object entries ih =>
    intro level d hd
    have hentries : ∀ entry ∈ entries, Printable entry.2 := fun entry hentry =>
      ih entry hentry fun u hu => h u (.entry hentry hu)
    cases entries with
    | nil =>
      have hall : ∀ e ∈ ['\x7b', '\x7d'], 0x20 ≤ e.toNat := by simp
      exact hall d hd
    | cons entry rest =>
      obtain ⟨key, item⟩ := entry
      simp only [write, Layout.line, Layout.colon, List.nil_append, List.mem_cons, List.mem_append,
        List.append_nil, List.not_mem_nil, or_false] at hd
      rcases hd with rfl | (((hd | rfl) | hd) | hd) | rfl
      · decide
      · exact le_of_mem_quoted hd
      · decide
      · exact hentries (key, item) List.mem_cons_self (level + 1) d hd
      · exact le_of_mem_writeEntries (fun e he => hentries e (List.mem_cons_of_mem _ he)) hd
      · decide

/-! ## Bytes -/

theorem le_of_mem_encodeChar {c : Char} (h : 0x20 ≤ c.toNat) {b : UInt8}
    (hb : b ∈ Utf8.encodeChar c) : 0x20 ≤ b.toNat := by
  have hvalid : c.toNat < 0x110000 := by
    rcases c.valid with hlow | ⟨-, hhigh⟩
    · exact Nat.lt_trans hlow (by decide)
    · exact hhigh
  simp only [Utf8.encodeChar] at hb
  split at hb
  · rw [List.mem_singleton.mp hb, UInt8.toNat_ofNat']
    omega
  · split at hb
    · simp only [List.mem_cons, List.not_mem_nil, or_false] at hb
      rcases hb with rfl | rfl
      all_goals rw [UInt8.toNat_ofNat']; omega
    · split at hb
      · simp only [List.mem_cons, List.not_mem_nil, or_false] at hb
        rcases hb with rfl | rfl | rfl
        all_goals rw [UInt8.toNat_ofNat']; omega
      · simp only [List.mem_cons, List.not_mem_nil, or_false] at hb
        rcases hb with rfl | rfl | rfl | rfl
        all_goals rw [UInt8.toNat_ofNat']; omega

/-- A text without control characters has no line end among its bytes. -/
theorem not_break_of_mem_encode {cs : List Char} (h : ∀ c ∈ cs, 0x20 ≤ c.toNat) :
    ∀ b ∈ Utf8.encode cs, Bytes.isLineBreak b = false := by
  intro b hb
  obtain ⟨c, hc, hb⟩ := List.mem_flatMap.mp hb
  have hle := le_of_mem_encodeChar (h c hc) hb
  rw [Bytes.isLineBreak, Bool.or_eq_false_iff, beq_eq_false_iff_ne, beq_eq_false_iff_ne]
  constructor
  · rintro rfl
    exact absurd hle (by decide)
  · rintro rfl
    exact absurd hle (by decide)

/-- A written object begins and ends with a brace. -/
theorem exists_write_object (layout : Layout) (level : Nat) (entries : Entries Value) :
    ∃ inner, write layout level (.object entries) = '\x7b' :: (inner ++ ['\x7d']) := by
  cases entries with
  | nil => exact ⟨[], rfl⟩
  | cons entry rest => exact ⟨_, rfl⟩

theorem trimmed_write (layout : Layout) (level : Nat) (entries : Entries Value) :
    Trimmed Bytes.isBlank (Utf8.encode (write layout level (.object entries))) ∧
      Utf8.encode (write layout level (.object entries)) ≠ [] := by
  obtain ⟨inner, hwrite⟩ := exists_write_object layout level entries
  have hbytes : Utf8.encode (write layout level (.object entries)) =
      0x7B :: (Utf8.encode inner ++ [0x7D]) := by
    rw [hwrite, Utf8.encode_cons, Utf8.encode_append]
    rfl
  rw [hbytes]
  refine ⟨⟨fun b hb => ?_, fun b hb => ?_⟩, by simp⟩
  · rw [← Option.some_inj.mp hb]
    rfl
  · rw [← List.cons_append, List.getLast?_concat] at hb
    rw [← Option.some_inj.mp hb]
    rfl

/-- A written object with a line feed behind it is a written line. -/
theorem isLine_write {entries : Entries Value}
    (h : ∀ u, u.Within (.object entries) → Spelled u) :
    Bytes.IsLine (Utf8.encode (write .compact 0 (.object entries)) ++ [0x0A]) := by
  obtain ⟨htrimmed, hne⟩ := trimmed_write .compact 0 entries
  exact ⟨_, rfl, htrimmed, hne, not_break_of_mem_encode (le_of_mem_write h 0)⟩

end Json

end SymbolRecord
