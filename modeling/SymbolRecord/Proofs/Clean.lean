import SymbolRecord.Proofs.Decoded
import SymbolRecord.Proofs.Judgment
import SymbolRecord.Proofs.Normal
import SymbolRecord.Proofs.Stable
/-!
# Normal forms validate cleanly

What is written for decoded symbols is decoded again, with no key left out: under each key stands a
core field or the payload of a mixin, which the type of the key does not refuse.  So validating the
normal form of a content finds nothing to remark, however strict it is, and counts the symbols of
the content.

Types need only accept what they write; unlike for normal forms to be normal, they need not write
the same again.

* `MixinType.Consistent`, `Coder.Consistent`: types that do not refuse what they write.
* `Verdict.clean`: the verdict that remarks nothing.
* `Symbol.judge_sortKeys`: the verdict on the object of a decoded symbol.
* `Coder.ofFile_of_normalize`: the verdict on a normal form.
-/

namespace SymbolRecord

open Json

/-- A type is consistent when it does not refuse what it writes for a mixin that it has read, with
the keys in ascending order, and writes legibly. -/
structure MixinType.Consistent (type : MixinType) : Prop where
  /-- What is written is not refused. -/
  read : ∀ v m, type.read v = .mixin m → ∀ report, type.read (sortKeys m.payload) ≠ .refused report
  /-- What is written is legible. -/
  legible : ∀ v m, type.read v = .mixin m → m.payload.Legible

theorem MixinType.Stable.consistent {type : MixinType} (h : type.Stable) : type.Consistent where
  read v m hread report hrefused := by
    obtain ⟨m', hm', -⟩ := h.read v m hread
    nomatch hm'.symm.trans hrefused
  legible := h.legible

namespace Verdict

/-- The verdict that remarks nothing and counts this many records. -/
def clean (count : Nat) : Verdict := ⟨[], [], count⟩

/-- Clean verdicts on single records, joined, are clean. -/
theorem join_clean {α : Type} (parts : List α) :
    join (parts.map fun _ => clean 1) = clean parts.length := by
  induction parts with
  | nil => rfl
  | cons a rest ih =>
    show append (clean 1) (join (rest.map fun _ => clean 1)) = clean (rest.length + 1)
    rw [ih, Nat.add_comm]
    rfl

/-- Where the verdict on each part is clean, so is the verdict on all. -/
theorem outcome_ofAll_clean {α : Type} {f : α → Run Verdict} {parts : List α}
    (h : ∀ a ∈ parts, (f a).outcome = .ok (clean 1)) :
    (ofAll f parts).outcome = .ok (clean parts.length) := by
  rw [outcome_ofAll h, join_clean]

end Verdict

/-! ## One symbol -/

namespace Symbol

variable {registry : Registry} {v : Value} {symbol : Symbol}

/-- **The verdict on the object of a decoded symbol is clean.** -/
theorem judge_sortKeys (h : registry.AllOf MixinType.Consistent)
    (hdecode : (decode registry v).outcome = .ok symbol) {container : Entries Value}
    (hencode : (symbol.encode registry).outcome = .ok container) (strict : Bool)
    (place : RecordPlace) :
    Verdict.judge registry strict place (sortKeys (.object container)) = .clean 1 := by
  obtain ⟨container', hencode', hnodup, hget⟩ := exists_encode_of_decode h hdecode
  obtain rfl : container' = container := Except.ok.inj (hencode'.symm.trans hencode)
  rw [sortKeys_object]
  have hcore := readCore_sorted h hdecode hnodup hget
  obtain ⟨symbol', hdecode', -⟩ := exists_outcome_decode hcore fun key hkey => by
    obtain ⟨m, type, w, -, htype, hread, hdecoder, hu⟩ :=
      exists_type_of_sorted h hdecode hnodup hget hkey
    rw [readMixin, hdecoder]
    simp only [MixinType.decode, hu, MixinType.intake]
    cases hagain : type.read (sortKeys m.payload) with
    | mixin m' => exact ⟨some m', rfl⟩
    | dropped issues => exact ⟨none, rfl⟩
    | refused report => exact absurd hagain (htype.read w m hread report)
  have hleft : Verdict.leftOut registry
      (.object (Entries.sorted (Entries.mapValues sortKeys container'))) = [] := by
    refine List.filter_eq_nil_iff.mpr fun key hkey => ?_
    obtain ⟨m, type, w, -, -, -, hdecoder, -⟩ :=
      exists_type_of_sorted h hdecode hnodup hget hkey
    rw [isUnrecognized, hdecoder]
    exact Bool.false_ne_true
  rw [Verdict.judge_of_ok hdecode', hleft]
  cases strict <;> rfl

end Symbol

namespace Coder

/-- The types that are registered on a coder are consistent. -/
def Consistent (coder : Coder) : Prop :=
  ∀ key descriptor, coder.registered.get? key = some descriptor →
    ∃ type : MixinType, type.Consistent ∧ descriptor = type.descriptor key

variable {coder : Coder}

theorem Consistent.snapshot (h : coder.Consistent) :
    coder.snapshot.AllOf MixinType.Consistent :=
  Registry.allOf_of_extensions
    (fun _ htype => (MixinType.stable_of_mem_builtin htype).consistent) h

theorem Consistent.legible_of_decode (h : coder.Consistent) {v : Value} {symbol : Symbol}
    (hdecode : (Symbol.decode coder.snapshot v).outcome = .ok symbol) {container : Entries Value}
    (hencode : (symbol.encode coder.snapshot).outcome = .ok container) :
    (Value.object container).Legible :=
  Symbol.legible_of_decode h.snapshot (fun _ htype => htype.legible) hdecode hencode

theorem Stable.consistent (h : coder.Stable) : coder.Consistent := by
  intro key descriptor hget
  obtain ⟨type, htype, rfl⟩ := h key descriptor hget
  exact ⟨type, htype.consistent, rfl⟩

/-! ## Lines -/

section Contents

variable [Wording]

/-- What is written for a symbol that was decoded from a line is a line that validates cleanly. -/
theorem Consistent.ofLine_of_encodeLine (h : coder.Consistent) {line : Bytes} {symbol : Symbol}
    (hdecode : (coder.decodeLine line).outcome = .ok symbol) {written : Bytes}
    (hencode : (coder.encodeLine symbol).outcome = .ok written) :
    Bytes.IsLine written ∧ ∀ strict path number,
      (Verdict.ofLine coder.snapshot strict path (number, written.dropLast)).outcome =
        .ok (.clean 1) := by
  obtain ⟨v, -, hv⟩ := Run.andThen_eq_ok.mp hdecode
  obtain ⟨container, line', hcontainer, hprint, rfl⟩ := encodeLine_eq_ok.mp hencode
  have hlegible := h.legible_of_decode hv hcontainer
  refine ⟨isLine_of_print hprint hlegible, fun strict path number => ?_⟩
  rw [dropLast_line, Verdict.ofLine]
  simp only [parse_print hprint hlegible]
  rw [Verdict.outcome_ofRecord h.snapshot.standard,
    Symbol.judge_sortKeys h.snapshot hv hcontainer]

/-- What is written for symbols that were decoded from lines validates cleanly. -/
theorem Consistent.ofLines_of_encodeLines (h : coder.Consistent) {content : Bytes}
    {symbols : List Symbol} (hdecode : (coder.decodeLines content).outcome = .ok symbols)
    {bytes : Bytes} (hencode : (coder.encodeLines symbols).outcome = .ok bytes) (strict : Bool)
    (path : String) :
    (Verdict.ofLines coder.snapshot strict path bytes).outcome = .ok (.clean symbols.length) := by
  obtain ⟨written, hwritten, rfl⟩ := encodeLines_eq_ok.mp hencode
  have hall := Run.forall_of_forAll (fun _ _ _ hd he => h.ofLine_of_encodeLine hd he) hdecode
    hwritten
  have hlines : Bytes.lines written.flatten = written.map List.dropLast :=
    Bytes.pieces_flatten rfl (fun _ => Bytes.isLineBreak_of_isFeed) fun line hline =>
      (hall line hline).1
  have hlength : (Bytes.numberedLines written.flatten).length = symbols.length := by
    rw [← List.length_map (f := Prod.snd), Bytes.map_snd_numberedLines, hlines, List.length_map,
      Run.length_of_forAll hwritten]
  rw [Verdict.ofLines, ← hlength]
  refine Verdict.outcome_ofAll_clean fun line hline => ?_
  have hmem : line.2 ∈ written.map List.dropLast := by
    rw [← hlines, ← Bytes.map_snd_numberedLines]
    exact List.mem_map_of_mem hline
  obtain ⟨one, hone, hdrop⟩ := List.mem_map.mp hmem
  obtain ⟨number, text⟩ := line
  obtain rfl : one.dropLast = text := hdrop
  exact (hall one hone).2 strict path number

/-! ## Documents -/

/-- What is written for a decoded document, with a line feed behind it, validates cleanly. -/
theorem Consistent.ofDocument_of_encodeDocument (h : coder.Consistent) {content : Bytes}
    {document : Document} (hdecode : (coder.decodeDocument content).outcome = .ok document)
    {written : Bytes} (hencode : (coder.encodeDocument document).outcome = .ok written)
    (strict : Bool) (path : String) :
    (Verdict.ofDocument coder.snapshot strict path (written ++ [0x0A])).outcome =
      .ok (.clean document.symbols.length) := by
  rcases decodeDocument_cases hdecode with
    ⟨items, symbols, -, hsymbols, rfl⟩ | ⟨record, symbol, -, hsymbol, rfl⟩
  · obtain ⟨containers, hcontainers, hprint⟩ := Run.andThen_eq_ok.mp hencode
    have hlegible : (Value.list (containers.map .object)).Legible :=
      Value.legible_list.mpr (List.forall_mem_map.mpr (Run.forall_of_forAll
        (fun _ _ _ hd he => h.legible_of_decode hd he) hsymbols hcontainers))
    have hclean := Run.forall_of_forAll
      (fun _ _ _ hd he => Symbol.judge_sortKeys h.snapshot hd he strict) hsymbols hcontainers
    have hparse := parse_of_print hprint hlegible isSpace_feed
    rw [sortKeys_list, List.map_map] at hparse
    have hlength : (Bytes.numberFrom 0 (containers.map (sortKeys ∘ Value.object))).length =
        symbols.length := by
      rw [Bytes.length_numberFrom, List.length_map, Run.length_of_forAll hcontainers]
    rw [Verdict.ofDocument, show parse? (written ++ [0x0A]) = _ from hparse,
      show (Document.several symbols).symbols.length = _ from hlength.symm]
    refine Verdict.outcome_ofAll_clean fun item hitem => ?_
    obtain ⟨container, hcontainer, heq⟩ :=
      List.mem_map.mp (Bytes.snd_mem_of_mem_numberFrom hitem)
    rw [Verdict.outcome_ofRecord h.snapshot.standard, ← heq]
    exact congrArg Except.ok (hclean container hcontainer _)
  · obtain ⟨container, hcontainer, hprint⟩ := Run.andThen_eq_ok.mp hencode
    have hparse := parse_of_print hprint (h.legible_of_decode hsymbol hcontainer) isSpace_feed
    have hclean := Symbol.judge_sortKeys h.snapshot hsymbol hcontainer strict ⟨path, none, none⟩
    rw [sortKeys_object] at hparse hclean
    rw [Verdict.ofDocument, show parse? (written ++ [0x0A]) = _ from hparse]
    exact (Verdict.outcome_ofRecord h.snapshot.standard _ _ _).trans (congrArg Except.ok hclean)

/-! ## Contents -/

/-- The symbols of a content, as a file at a path holds them. -/
def decodeContent (coder : Coder) (path : Path) (content : Bytes) : Run (List Symbol) :=
  if Verdict.isLines path then coder.decodeLines content
  else (coder.decodeDocument content).andThen fun document => .ok document.symbols

/-- **Normal forms validate cleanly.**  Validating the normal form of a content, in a file of the
same kind, finds no errors and no warnings even when it is strict, and counts the symbols that were
decoded from the content. -/
theorem ofFile_of_normalize (coder : Coder) (hcoder : coder.Consistent) (path target : Path)
    (htarget : Verdict.isLines target = Verdict.isLines path) (content bytes : Bytes)
    (hnormalize : (coder.normalize path content).outcome = .ok bytes) :
    ∃ symbols, (coder.decodeContent path content).outcome = .ok symbols ∧
      (Verdict.ofFile coder.snapshot true target (some (.file bytes))).outcome =
        .ok ⟨[], [], symbols.length⟩ := by
  have hstandard := hcoder.snapshot.standard
  rw [normalize] at hnormalize
  rw [decodeContent, Verdict.ofFile, Verdict.ofContent, htarget]
  cases hpath : Verdict.isLines path with
  | true =>
    rw [hpath, if_pos rfl] at hnormalize
    rw [if_pos rfl, if_pos rfl]
    obtain ⟨symbols, hdecode, hencode⟩ := (normalizeLines_eq_ok hstandard).mp hnormalize
    exact ⟨symbols, hdecode, hcoder.ofLines_of_encodeLines hdecode hencode true target.text⟩
  | false =>
    rw [hpath, if_neg Bool.false_ne_true] at hnormalize
    rw [if_neg Bool.false_ne_true, if_neg Bool.false_ne_true]
    obtain ⟨document, written, hdecode, hencode, rfl⟩ :=
      (normalizeDocument_eq_ok hstandard).mp hnormalize
    exact ⟨document.symbols, Run.andThen_eq_ok.mpr ⟨document, hdecode, rfl⟩,
      hcoder.ofDocument_of_encodeDocument hdecode hencode true target.text⟩

end Contents

/-- Two records with a carriage return and a blank line between them, of which the second has line
ends in its note. -/
def spaced : Bytes :=
  Utf8.encode (write .compact 0 (recordWith (.text "kept"))) ++
    0x0D :: 0x0A :: 0x0A :: Utf8.encode (write .compact 0 (recordWith (.text "\r\n")))

attribute [local instance] Wording.plain

theorem ofFile_of_normalize_spaced :
    ∃ bytes, (noting.normalize (Path.ofText "kit.jsonl") spaced).outcome = .ok bytes ∧
      (Verdict.ofFile noting.snapshot true (Path.ofText "out.jsonl")
        (some (.file bytes))).outcome = .ok ⟨[], [], 2⟩ := by
  have hnormal : (noting.normalize (Path.ofText "kit.jsonl") spaced).outcome.isOk = true ∧
      (noting.decodeContent (Path.ofText "kit.jsonl") spaced).outcome.map List.length = .ok 2 := by
    decide +kernel
  cases hnormalize : (noting.normalize (Path.ofText "kit.jsonl") spaced).outcome with
  | error failure =>
    rw [hnormalize] at hnormal
    nomatch hnormal.1
  | ok bytes =>
    obtain ⟨symbols, hsymbols, hverdict⟩ := ofFile_of_normalize noting stable_noting.consistent
      (Path.ofText "kit.jsonl") (Path.ofText "out.jsonl") (by decide +kernel) spaced bytes
      hnormalize
    have hlength := hnormal.2
    rw [hsymbols] at hlength
    obtain hlength : symbols.length = 2 := Except.ok.inj hlength
    rw [hlength] at hverdict
    exact ⟨bytes, rfl, hverdict⟩

end Coder

end SymbolRecord
