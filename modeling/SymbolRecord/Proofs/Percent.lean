import SymbolRecord.Mixin.Location
import SymbolRecord.Proofs.Token
import SymbolRecord.Proofs.Uri
import SymbolRecord.Proofs.Utf8
/-!
# Paths survive their escapes

A writer of URIs escapes what has a meaning of its own in a URI, and of the rest whatever it likes:
a slash, a letter or a character beyond ASCII may stand in a path as it is or as the escapes of its
bytes, and next to each other in any mixture.  The reader decodes the escapes of one run of ASCII
characters together, and a character beyond ASCII that stands as it is ends the run.  So a run is
decoded to the characters of the path only if it never ends inside of a character.  It does not,
since a character is escaped as a whole.

The spellings of a path are stated apart from the reader, character by character.

* `Uri.Escapes`, `Uri.Spells`: the spellings of bytes and of texts.
* `Uri.Spells.escapeSpaces`: escaping the spaces of a spelling yields another one.
* `Uri.unescapeRun_of_spells`: a spelling is decoded to its text, whatever run it continues.
* `Uri.SpellsPath`, `Uri.path_of_spelling`: paths behind the scheme of files.
* `Uri.every_spelling_is_read_back`: the file of a location and of a comment.
-/

namespace SymbolRecord

theorem Utf8.decodeLossy_encode (cs : List Char) : decodeLossy (encode cs) = cs := by
  rw [decodeLossy, decode?_eq_some_iff.mp (decode?_encode cs), List.map_map]
  exact List.map_id cs

namespace Uri

variable {c : Char} {cs text rest : List Char} {bytes run : Bytes}

/-! ## Spellings -/

/-- A character is the hexadecimal digit of a number, in either case. -/
def IsDigitOf (c : Char) (n : Nat) : Prop := c = Json.hexDigit n ∨ c = (Json.hexDigit n).toUpper

/-- A text consists of escapes, one for each byte. -/
inductive Escapes : Bytes → List Char → Prop where
  /-- No bytes. -/
  | nil : Escapes [] []
  /-- The escape of a byte. -/
  | cons {byte : UInt8} {bytes : Bytes} {high low : Char} {text : List Char}
    (hhigh : IsDigitOf high (byte.toNat / 16)) (hlow : IsDigitOf low (byte.toNat % 16))
    (h : Escapes bytes text) : Escapes (byte :: bytes) ('%' :: high :: low :: text)

/-- The characters that stand in a path by their escapes only. -/
def reserved : List Char := ['%', '#', '?', '\t', '\r', '\n']

/-- The spellings of a text: each character as it is, unless it is reserved, or by the escapes of
its bytes. -/
inductive Spells : List Char → List Char → Prop where
  /-- The empty text. -/
  | nil : Spells [] []
  /-- A character as it is. -/
  | plain {c : Char} {cs text : List Char} (hc : c ∉ reserved) (h : Spells cs text) :
    Spells (c :: cs) (c :: text)
  /-- A character by the escapes of its bytes. -/
  | escaped {c : Char} {cs escapes text : List Char} (hc : Escapes (Utf8.encodeChar c) escapes)
    (h : Spells cs text) : Spells (c :: cs) (escapes ++ text)

theorem IsDigitOf.hexValue? {n : Nat} (h : IsDigitOf c n) (hn : n < 16) :
    Json.hexValue? c = some n := by
  have hupper : ∀ n < 16, Json.hexValue? (Json.hexDigit n).toUpper = some n := by decide
  rcases h with rfl | rfl
  · exact Json.Token.hexValue?_hexDigit n hn
  · exact hupper n hn

/-- The characters of an escape are no space, and nothing that ends a path. -/
theorem mem_of_mem_escapes (h : Escapes bytes text) (hc : c ∈ text) :
    c = '%' ∨ (Json.hexValue? c).isSome := by
  induction h with
  | nil => exact absurd hc List.not_mem_nil
  | @cons byte bytes high low text hhigh hlow _ ih =>
    have hbyte := byte.toNat_lt
    simp only [List.mem_cons] at hc
    rcases hc with rfl | rfl | rfl | hc
    · exact .inl rfl
    · exact .inr (by rw [hhigh.hexValue? (by omega)]; rfl)
    · exact .inr (by rw [hlow.hexValue? (by omega)]; rfl)
    · exact ih hc

theorem space_notMem_escapes (h : Escapes bytes text) : ' ' ∉ text := fun hmem =>
  absurd (mem_of_mem_escapes h hmem) (by decide)

/-- **Escaping the spaces of a spelling yields a spelling**, of the same text. -/
theorem Spells.escapeSpaces (h : Spells cs text) : Spells cs (escapeSpaces text) := by
  induction h with
  | nil => exact .nil
  | @plain c cs text hc _ ih =>
    rw [Uri.escapeSpaces]
    split
    · next hspace =>
      subst hspace
      have hescape : Escapes (Utf8.encodeChar ' ') ['%', '2', '0'] :=
        .cons (.inl rfl) (.inl rfl) .nil
      exact .escaped hescape ih
    · exact .plain hc ih
  | @escaped c cs escapes text hc _ ih =>
    rw [escapeSpaces_append, escapeSpaces_eq_self (space_notMem_escapes hc)]
    exact .escaped hc ih

/-- A spelling has none of the characters that a reader of URIs cuts at or takes away. -/
theorem Spells.notMem (h : Spells cs text) {mark : Char} (hmark : mark ∈ reserved)
    (hpercent : mark ≠ '%') : mark ∉ text := by
  induction h with
  | nil => exact List.not_mem_nil
  | @plain c cs text hc _ ih =>
    rw [List.mem_cons, not_or]
    refine ⟨?_, ih⟩
    rintro rfl
    exact hc hmark
  | @escaped c cs escapes text hc _ ih =>
    rw [List.mem_append, not_or]
    refine ⟨fun hmem => ?_, ih⟩
    have hdigits : reserved.all (fun mark => (Json.hexValue? mark).isNone) = true := by decide
    rcases mem_of_mem_escapes hc hmem with heq | hsome
    · exact hpercent heq
    · have hnone := List.all_eq_true.mp hdigits mark hmark
      rw [Option.isNone_iff_eq_none.mp hnone] at hsome
      nomatch hsome

/-! ## Decoding -/

/-- The escapes of bytes add the bytes to the run. -/
theorem unescapeRun_of_escapes (h : Escapes bytes text) (rest : List Char) :
    ∀ run : Bytes, unescapeRun run (text ++ rest) = unescapeRun (bytes.reverse ++ run) rest := by
  induction h with
  | nil => exact fun run => rfl
  | @cons byte bytes high low text hhigh hlow _ ih =>
    intro run
    have hbyte := byte.toNat_lt
    have hescaped : escapedByte? high low = some byte := by
      rw [escapedByte?, hhigh.hexValue? (by omega), hlow.hexValue? (by omega)]
      simp only [Nat.div_add_mod, UInt8.ofNat_toNat]
    rw [List.cons_append, List.cons_append, List.cons_append, unescapeRun, hescaped]
    simp only
    rw [ih, List.reverse_cons, List.append_assoc, List.singleton_append]

theorem unescapeRun_cons (hc : c ≠ '%') (run : Bytes) (rest : List Char) :
    unescapeRun run (c :: rest) =
      if 0x80 ≤ c.toNat then Utf8.decodeLossy run.reverse ++ c :: unescapeRun [] rest
      else unescapeRun (UInt8.ofNat c.toNat :: run) rest := by
  rw [unescapeRun.eq_def]
  split
  · next heq => nomatch heq
  · next heq => exact absurd (List.cons.inj heq).1 hc
  · next heq =>
    obtain ⟨rfl, rfl⟩ := List.cons.inj heq
    rfl

/-- **A spelling is decoded to its text.**  The run that it continues holds whole characters, so
nothing is lost where the run ends. -/
theorem unescapeRun_of_spells (h : Spells cs text) :
    ∀ front : List Char, unescapeRun (Utf8.encode front).reverse text = front ++ cs := by
  induction h with
  | nil =>
    intro front
    rw [unescapeRun, List.reverse_reverse, Utf8.decodeLossy_encode, List.append_nil]
  | @plain c cs text hc _ ih =>
    intro front
    have hpercent : c ≠ '%' := by
      rintro rfl
      exact hc List.mem_cons_self
    rw [unescapeRun_cons hpercent]
    split
    · -- a character beyond ASCII ends the run
      rw [List.reverse_reverse, Utf8.decodeLossy_encode]
      exact congrArg (fun cs => front ++ c :: cs) (ih [])
    · next hascii =>
      have hbyte : Utf8.encodeChar c = [UInt8.ofNat c.toNat] := by
        rw [Utf8.encodeChar, if_pos (by omega)]
      have hrun : UInt8.ofNat c.toNat :: (Utf8.encode front).reverse =
          (Utf8.encode (front ++ [c])).reverse := by
        rw [Utf8.encode_append, List.reverse_append, Utf8.encode_cons, Utf8.encode_nil, hbyte]
        rfl
      rw [hrun, ih, List.append_assoc, List.singleton_append]
  | @escaped c cs escapes text hc _ ih =>
    intro front
    have hrun : (Utf8.encodeChar c).reverse ++ (Utf8.encode front).reverse =
        (Utf8.encode (front ++ [c])).reverse := by
      rw [Utf8.encode_append, List.reverse_append, Utf8.encode_cons, Utf8.encode_nil,
        List.append_nil]
    rw [unescapeRun_of_escapes hc, hrun, ih, List.append_assoc, List.singleton_append]

/-! ## Paths of files -/

/-- The scheme of files, with the two slashes in front of an authority. -/
def fileScheme : List Char := "file://".toList

/-- Nothing but a scheme is cut off a URI of a file whose authority is empty. -/
theorem pathOf_file (hplain : ∀ mark ∈ reserved, mark ≠ '%' → mark ∉ text) :
    pathOf (fileScheme ++ '/' :: text) = .ok (unescape ('/' :: text)) := by
  have hnot : ∀ c ∈ text, ∀ mark ∈ reserved, mark ≠ '%' → c ≠ mark := by
    rintro c hc mark hmark hpercent rfl
    exact hplain c hmark hpercent hc
  have hclean : clean (fileScheme ++ '/' :: text) = fileScheme ++ '/' :: text := by
    have htext : text.filter (fun c => c ≠ '\t' && c ≠ '\r' && c ≠ '\n') = text := by
      refine List.filter_eq_self.mpr fun c hc => ?_
      simp [hnot c hc '\t' (by simp [reserved]) (by decide),
        hnot c hc '\r' (by simp [reserved]) (by decide),
        hnot c hc '\n' (by simp [reserved]) (by decide)]
    show 'f' :: 'i' :: 'l' :: 'e' :: ':' :: '/' :: '/' :: '/' :: text.filter _ = _
    rw [htext]
    rfl
  have hscheme : dropScheme (fileScheme ++ '/' :: text) = '/' :: '/' :: '/' :: text :=
    dropScheme_of_isScheme (show isScheme "file".toList = true by decide)
  have hquery : dropQuery ('/' :: text) = '/' :: text := by
    have hends : ∀ c ∈ '/' :: text, c ≠ '#' ∧ c ≠ '?' :=
      List.forall_mem_cons.mpr ⟨by decide, fun c hc =>
        ⟨hnot c hc '#' (by simp [reserved]) (by decide),
          hnot c hc '?' (by simp [reserved]) (by decide)⟩⟩
    rw [dropQuery, List.takeWhile_eq_self_iff.mpr fun c hc => decide_eq_true (hends c hc).1,
      List.takeWhile_eq_self_iff.mpr fun c hc => decide_eq_true (hends c hc).2]
  rw [pathOf, hclean, hscheme]
  show Except.ok (unescape (dropQuery ('/' :: text))) = _
  rw [hquery]

/-- **Every spelling of a path is read back**, behind the scheme of files. -/
theorem pathOf_of_spells (h : Spells cs text) :
    pathOf (Uri.escapeSpaces (fileScheme ++ '/' :: text)) = .ok ('/' :: cs) := by
  have hescaped : Uri.escapeSpaces (fileScheme ++ '/' :: text) =
      fileScheme ++ '/' :: Uri.escapeSpaces text := by
    rw [escapeSpaces_append]
    rfl
  have hspells : Spells ('/' :: cs) ('/' :: Uri.escapeSpaces text) :=
    .plain (by decide) h.escapeSpaces
  rw [hescaped, pathOf_file fun mark hmark hpercent => h.escapeSpaces.notMem hmark hpercent]
  exact congrArg Except.ok (unescapeRun_of_spells hspells [])

/-- A text spells a path: both begin with a slash, and what follows it is spelled. -/
def SpellsPath (decoded spelled : String) : Prop :=
  ∃ cs text, decoded.toList = '/' :: cs ∧ spelled.toList = '/' :: text ∧ Spells cs text

theorem path_of_spelling {decoded spelled : String} (h : SpellsPath decoded spelled) :
    path ("file://" ++ spelled) = .ok decoded := by
  obtain ⟨cs, text, hdecoded, hspelled, hspells⟩ := h
  have huri : ("file://" ++ spelled).toList = fileScheme ++ '/' :: text := by
    rw [String.toList_append, hspelled]
    rfl
  rw [path, huri, pathOf_of_spells hspells, ← hdecoded]
  exact congrArg Except.ok String.ofList_toList

/-- Spaces are escaped, and nothing else is changed. -/
theorem escaped_eq (uri : String) :
    escaped uri =
      String.ofList (uri.toList.flatMap fun c => if c = ' ' then ['%', '2', '0'] else [c]) := by
  have hflat : ∀ cs : List Char,
      Uri.escapeSpaces cs = cs.flatMap fun c => if c = ' ' then ['%', '2', '0'] else [c] := by
    intro cs
    induction cs with
    | nil => rfl
    | cons c cs ih =>
      rw [Uri.escapeSpaces, List.flatMap_cons, ih]
      split <;> rfl
  rw [escaped, hflat]

/-- **Paths survive any escaping.**  A location or a comment whose URI is the scheme of files in
front of any spelling of a path has that path, and its URL is the URI with its spaces escaped and
nothing else changed.  A spelling has every character of the path but the first slash as it is or by
the escapes of its bytes, in digits of either case, whatever its neighbours have; reserved
characters have escapes. -/
theorem every_spelling_is_read_back (decoded spelled : String)
    (hspelled : SpellsPath decoded spelled) :
    (∀ position, (Location.mk ("file://" ++ spelled) position).path = .ok decoded ∧
      (Location.mk ("file://" ++ spelled) position).url =
        String.ofList (("file://" ++ spelled).toList.flatMap fun c =>
          if c = ' ' then ['%', '2', '0'] else [c])) ∧
    ∀ lines moduleName,
      (Comment.mk lines (some ("file://" ++ spelled)) moduleName).path? = some (.ok decoded) ∧
      (Comment.mk lines (some ("file://" ++ spelled)) moduleName).url? =
        some (String.ofList (("file://" ++ spelled).toList.flatMap fun c =>
          if c = ' ' then ['%', '2', '0'] else [c])) := by
  have hpath := path_of_spelling hspelled
  have hurl := escaped_eq ("file://" ++ spelled)
  exact ⟨fun position => ⟨hpath, hurl⟩,
    fun lines moduleName => ⟨congrArg some hpath, congrArg some hurl⟩⟩

/-- A character beyond ASCII stands as it is and by its escapes, next to a percent sign that would
make another escape if it were decoded twice. -/
theorem mixed_spelling_is_read_back :
    SpellsPath "/a é%25é" "/%61 é%2525%C3%a9" ∧
      (Location.mk "file:///%61 é%2525%C3%a9" ⟨0, 0⟩).path = .ok "/a é%25é" ∧
      (Location.mk "file:///%61 é%2525%C3%a9" ⟨0, 0⟩).url = "file:///%61%20é%2525%C3%a9" := by
  have hletter : Escapes (Utf8.encodeChar 'a') ['%', '6', '1'] := .cons (.inl rfl) (.inl rfl) .nil
  have hpercent : Escapes (Utf8.encodeChar '%') ['%', '2', '5'] := .cons (.inl rfl) (.inl rfl) .nil
  have haccent : Escapes (Utf8.encodeChar 'é') ['%', 'C', '3', '%', 'a', '9'] :=
    .cons (.inr rfl) (.inl rfl) (.cons (.inl rfl) (.inl rfl) .nil)
  have hspelled : SpellsPath "/a é%25é" "/%61 é%2525%C3%a9" :=
    ⟨"a é%25é".toList, "%61 é%2525%C3%a9".toList, rfl, rfl,
      .escaped hletter (.plain (by decide) (.plain (by decide) (.escaped hpercent
        (.plain (by decide) (.plain (by decide) (.escaped haccent .nil))))))⟩
  obtain ⟨hpath, hurl⟩ := (every_spelling_is_read_back _ _ hspelled).1 ⟨0, 0⟩
  exact ⟨hspelled, hpath, hurl.trans (by decide +kernel)⟩

end Uri

end SymbolRecord
