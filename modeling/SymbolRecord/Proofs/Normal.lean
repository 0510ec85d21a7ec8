import SymbolRecord.CommandLine.Program
import SymbolRecord.Proofs.Coder
import SymbolRecord.Proofs.Compact
import SymbolRecord.Proofs.RoundTrip
import SymbolRecord.Proofs.Stable
/-!
# Normal forms are normal

The normal form of a content is its own normal form, byte by byte.  What the first round reads is
read leniently; what it writes is read back as it stands, and written the same.

The proof goes over one symbol, which `Symbol.exists_decode_sortKeys` settles, then over one line
or one document, then over a whole content.  It needs that the registered types are stable; they
register nothing themselves.

* `Coder.Stable`: coders whose registered types are stable.
* `Coder.normalizeLines_eq_self`, `Coder.normalizeDocument_eq_self`: the two kinds of content.
* `Coder.normalize_eq_self`: all contents.
-/

namespace SymbolRecord

open Json

namespace Coder

/-- The types that are registered on a coder are stable. -/
def Stable (coder : Coder) : Prop :=
  ∀ key descriptor, coder.registered.get? key = some descriptor →
    ∃ type : MixinType, type.Stable ∧ descriptor = type.descriptor key

variable {coder : Coder}

theorem Stable.snapshot (h : coder.Stable) : coder.snapshot.Stable :=
  Registry.stable_of_extensions h

/-- The registrations of a stable coder are those of types. -/
theorem Stable.exists_isOf (h : coder.Stable) (key : String) (descriptor : Descriptor)
    (hget : coder.registered.get? key = some descriptor) :
    ∃ type, descriptor.IsOf type key := by
  obtain ⟨type, -, rfl⟩ := h key descriptor hget
  exact ⟨type, type.isOf_descriptor key⟩

/-- A coder without registrations is stable. -/
theorem stable_new (indent : Bool) : (new indent).Stable := fun _ _ h => nomatch h

/-! ## One line -/

/-- The line that is written for a symbol. -/
def encodeLine (coder : Coder) (symbol : Symbol) : Run Bytes :=
  (Symbol.encode coder.snapshot symbol).andThen fun container =>
    (print .compact (.object container)).andThen fun line => .ok (line ++ [0x0A])

theorem encodeLines_eq_ok {symbols : List Symbol} {bytes : Bytes} :
    (coder.encodeLines symbols).outcome = .ok bytes ↔
      ∃ written, (Run.forAll coder.encodeLine symbols).outcome = .ok written ∧
        bytes = written.flatten := by
  rw [show coder.encodeLines symbols = (Run.forAll coder.encodeLine symbols).andThen
    fun written => .ok written.flatten from rfl, Run.andThen_eq_ok]
  refine exists_congr fun written => and_congr_right fun _ => ?_
  rw [Run.outcome_ok, Except.ok.injEq, eq_comm]

theorem encodeLine_eq_ok {symbol : Symbol} {bytes : Bytes} :
    (coder.encodeLine symbol).outcome = .ok bytes ↔
      ∃ container line, (symbol.encode coder.snapshot).outcome = .ok container ∧
        (print .compact (.object container)).outcome = .ok line ∧ bytes = line ++ [0x0A] := by
  rw [encodeLine, Run.andThen_eq_ok]
  constructor
  · rintro ⟨container, hencode, h⟩
    obtain ⟨line, hline, h⟩ := Run.andThen_eq_ok.mp h
    exact ⟨container, line, hencode, hline, (Except.ok.inj h).symm⟩
  · rintro ⟨container, line, hencode, hline, rfl⟩
    exact ⟨container, hencode, Run.andThen_eq_ok.mpr ⟨line, hline, rfl⟩⟩

theorem dropLast_line (line : Bytes) : (line ++ [0x0A]).dropLast = line :=
  List.dropLast_concat

/-- A line that was written is read back and written the same. -/
theorem Stable.encodeLine_decodeLine [Wording] (h : coder.Stable) {line : Bytes} {symbol : Symbol}
    (hdecode : (coder.decodeLine line).outcome = .ok symbol) {written : Bytes}
    (hencode : (coder.encodeLine symbol).outcome = .ok written) :
    ∃ symbol' written', (coder.decodeLine written.dropLast).outcome = .ok symbol' ∧
      (coder.encodeLine symbol').outcome = .ok written' ∧ id written' = id written := by
  obtain ⟨v, -, hv⟩ := Run.andThen_eq_ok.mp hdecode
  obtain ⟨container, line', hcontainer, hline, rfl⟩ := encodeLine_eq_ok.mp hencode
  have hparse := parse_print hline (Symbol.legible_of_stable h.snapshot hv hcontainer)
  obtain ⟨symbol', container', hdecode', hencode', halike⟩ :=
    Symbol.exists_decode_sortKeys h.snapshot hv hcontainer
  refine ⟨symbol', line' ++ [0x0A], ?_, encodeLine_eq_ok.mpr ⟨container', line', hencode', ?_, rfl⟩,
    rfl⟩
  · rw [dropLast_line]
    exact Run.andThen_eq_ok.mpr ⟨_, parse_eq_ok.mpr hparse, hdecode'⟩
  · rw [print_congr .compact halike]
    exact hline

/-- What is written for a symbol is a line, if the object of the symbol is legible. -/
theorem isLine_of_encodeLine {symbol : Symbol}
    (hlegible : ∀ container, (symbol.encode coder.snapshot).outcome = .ok container →
      (Value.object container).Legible)
    {written : Bytes} (hencode : (coder.encodeLine symbol).outcome = .ok written) :
    Bytes.IsLine written := by
  obtain ⟨container, line, hcontainer, hline, rfl⟩ := encodeLine_eq_ok.mp hencode
  exact isLine_of_print hline (hlegible container hcontainer)

theorem isSpace_feed : ∀ c ∈ ['\n'], isSpace c = true := by
  intro c hc
  rw [List.mem_singleton.mp hc]
  rfl

/-- The objects of decoded symbols, as one list. -/
theorem Stable.legible_list (h : coder.Stable) {items : List Value} {symbols : List Symbol}
    (hdecode : (Run.forAll (Symbol.decode coder.snapshot) items).outcome = .ok symbols)
    {containers : List (Entries Value)}
    (hencode : (Run.forAll (Symbol.encode coder.snapshot) symbols).outcome = .ok containers) :
    (Value.list (containers.map .object)).Legible :=
  Value.legible_list.mpr (List.forall_mem_map.mpr (Run.forall_of_forAll
    (fun _ _ _ hd he => Symbol.legible_of_stable h.snapshot hd he) hdecode hencode))

/-! ## Contents with one record to a line -/

section Contents

variable [Wording]

/-- Reading lines registers nothing, so they are written by the same coder. -/
theorem normalizeLines_eq (h : coder.snapshot.Standard) (content : Bytes) :
    coder.normalizeLines content = (coder.decodeLines content).andThen coder.encodeLines := by
  rw [normalizeLines]
  simp only [absorb_of_quiet coder (quiet_decodeLines h content)]

theorem normalizeLines_eq_ok (h : coder.snapshot.Standard) {content bytes : Bytes} :
    (coder.normalizeLines content).outcome = .ok bytes ↔
      ∃ symbols, (coder.decodeLines content).outcome = .ok symbols ∧
        (coder.encodeLines symbols).outcome = .ok bytes := by
  rw [normalizeLines_eq h]
  exact Run.andThen_eq_ok

/-- **The normal form of lines is its own normal form.** -/
theorem Stable.normalizeLines_eq_self (h : coder.Stable) {content bytes : Bytes}
    (hnormalize : (coder.normalizeLines content).outcome = .ok bytes) :
    (coder.normalizeLines bytes).outcome = .ok bytes := by
  obtain ⟨symbols, hdecode, hencode⟩ := (normalizeLines_eq_ok h.snapshot.standard).mp hnormalize
  obtain ⟨written, hwritten, rfl⟩ := encodeLines_eq_ok.mp hencode
  rw [decodeLines_eq] at hdecode
  obtain ⟨symbols', written', hdecode', hwritten', hsame⟩ :=
    Run.exists_forAll (h := List.dropLast) (k := id)
      (fun _ _ _ hd he => h.encodeLine_decodeLine hd he) hdecode hwritten
  have hlines : ∀ line ∈ written, Bytes.IsLine line := by
    refine Run.forall_of_forAll (fun _ _ _ hd he => ?_) hdecode hwritten
    obtain ⟨v, -, hv⟩ := Run.andThen_eq_ok.mp hd
    exact isLine_of_encodeLine
      (fun _ hcontainer => Symbol.legible_of_stable h.snapshot hv hcontainer) he
  have hrecords : Bytes.records written.flatten = written.map List.dropLast :=
    Bytes.pieces_flatten rfl (fun _ hbreak => hbreak) hlines
  rw [List.map_id, List.map_id] at hsame
  rw [hsame] at hwritten'
  refine (normalizeLines_eq_ok h.snapshot.standard).mpr
    ⟨symbols', ?_, encodeLines_eq_ok.mpr ⟨written, hwritten', rfl⟩⟩
  rw [decodeLines_eq, hrecords]
  exact hdecode'

/-! ## Contents that are one document -/

/-- Reading a document registers nothing, so it is written by the same coder. -/
theorem normalizeDocument_eq (h : coder.snapshot.Standard) (content : Bytes) :
    coder.normalizeDocument content =
      ((coder.decodeDocument content).andThen coder.encodeDocument).andThen fun bytes =>
        .ok (bytes ++ [0x0A]) := by
  rw [normalizeDocument]
  simp only [absorb_of_quiet coder (quiet_decodeDocument h content)]

theorem normalizeDocument_eq_ok (h : coder.snapshot.Standard) {content bytes : Bytes} :
    (coder.normalizeDocument content).outcome = .ok bytes ↔
      ∃ document written, (coder.decodeDocument content).outcome = .ok document ∧
        (coder.encodeDocument document).outcome = .ok written ∧ bytes = written ++ [0x0A] := by
  rw [normalizeDocument_eq h, Run.andThen_eq_ok]
  constructor
  · rintro ⟨written, hrun, hbytes⟩
    obtain ⟨document, hdecode, hencode⟩ := Run.andThen_eq_ok.mp hrun
    exact ⟨document, written, hdecode, hencode, (Except.ok.inj hbytes).symm⟩
  · rintro ⟨document, written, hdecode, hencode, rfl⟩
    exact ⟨written, Run.andThen_eq_ok.mpr ⟨document, hdecode, hencode⟩, rfl⟩

/-- The normal form of an object is that of an object. -/
theorem Stable.decodeDocument_of_single (h : coder.Stable) {record : Entries Value}
    {symbol : Symbol}
    (hdecode : (Symbol.decode coder.snapshot (.object record)).outcome = .ok symbol)
    {written : Bytes} (hencode : (coder.encode symbol).outcome = .ok written) :
    ∃ record' symbol', parse? (written ++ [0x0A]) = some (.object record') ∧
      (coder.decodeDocument (written ++ [0x0A])).outcome = .ok (.single symbol') ∧
      (coder.encode symbol').outcome = .ok written := by
  obtain ⟨container, hcontainer, hprint⟩ := Run.andThen_eq_ok.mp hencode
  have hparse := parse_of_print hprint
    (Symbol.legible_of_stable h.snapshot hdecode hcontainer) isSpace_feed
  obtain ⟨symbol', container', hdecode', hencode', halike⟩ :=
    Symbol.exists_decode_sortKeys h.snapshot hdecode hcontainer
  rw [sortKeys_object] at hparse hdecode'
  refine ⟨_, symbol', hparse, decodeDocument_object hparse hdecode', ?_⟩
  refine Run.andThen_eq_ok.mpr ⟨container', hencode', ?_⟩
  rw [print_congr coder.layout halike]
  exact hprint

/-- The normal form of a list is that of a list. -/
theorem Stable.decodeDocument_of_several (h : coder.Stable) {items : List Value}
    {symbols : List Symbol}
    (hdecode : (Run.forAll (Symbol.decode coder.snapshot) items).outcome = .ok symbols)
    {written : Bytes} (hencode : (coder.encodeList symbols).outcome = .ok written) :
    ∃ items' symbols', parse? (written ++ [0x0A]) = some (.list items') ∧
      (coder.decodeDocument (written ++ [0x0A])).outcome = .ok (.several symbols') ∧
      (coder.encodeList symbols').outcome = .ok written := by
  obtain ⟨containers, hcontainers, hprint⟩ := Run.andThen_eq_ok.mp hencode
  have hparse := parse_of_print hprint (h.legible_list hdecode hcontainers) isSpace_feed
  rw [sortKeys_list, List.map_map] at hparse
  obtain ⟨symbols', containers', hdecode', hencode', halike⟩ :=
    Run.exists_forAll (h := sortKeys ∘ Value.object) (k := sortKeys ∘ Value.object)
      (fun _ _ _ hd he => Symbol.exists_decode_sortKeys h.snapshot hd he) hdecode hcontainers
  refine ⟨_, symbols', hparse, decodeDocument_list hparse hdecode', ?_⟩
  refine Run.andThen_eq_ok.mpr ⟨containers', hencode', ?_⟩
  have hlist : (Value.list (containers'.map .object)).Alike (.list (containers.map .object)) := by
    rw [Value.Alike, sortKeys_list, sortKeys_list, List.map_map, List.map_map, halike]
  rw [print_congr coder.layout hlist]
  exact hprint

/-- **The normal form of a document is its own normal form**, and a document of the same kind. -/
theorem Stable.normalizeDocument_eq_self (h : coder.Stable) {content bytes : Bytes}
    (hnormalize : (coder.normalizeDocument content).outcome = .ok bytes) :
    (coder.normalizeDocument bytes).outcome = .ok bytes ∧
      (parse? bytes).map Value.typeName = (parse? content).map Value.typeName := by
  have hstandard := h.snapshot.standard
  obtain ⟨document, written, hdecode, hencode, rfl⟩ :=
    (normalizeDocument_eq_ok hstandard).mp hnormalize
  rcases decodeDocument_cases hdecode with
    ⟨items, symbols, hparse, hsymbols, rfl⟩ | ⟨record, symbol, hparse, hsymbol, rfl⟩
  · obtain ⟨items', symbols', hparse', hdecode', hencode'⟩ :=
      h.decodeDocument_of_several hsymbols hencode
    refine ⟨(normalizeDocument_eq_ok hstandard).mpr ⟨_, written, hdecode', hencode', rfl⟩, ?_⟩
    rw [hparse', hparse]
    rfl
  · obtain ⟨record', symbol', hparse', hdecode', hencode'⟩ :=
      h.decodeDocument_of_single hsymbol hencode
    refine ⟨(normalizeDocument_eq_ok hstandard).mpr ⟨_, written, hdecode', hencode', rfl⟩, ?_⟩
    rw [hparse', hparse]
    rfl

/-- **Normal forms are normal.**  What normalizing a content yields is normalized to itself, on
every path; on a path that holds one document, a list stays a list and an object an object. -/
theorem normalize_eq_self (coder : Coder) (hcoder : coder.Stable) (path : Path)
    (content bytes : Bytes) (hnormalize : (coder.normalize path content).outcome = .ok bytes) :
    (coder.normalize path bytes).outcome = .ok bytes ∧
      (Verdict.isLines path = false →
        (parse? bytes).map Value.typeName = (parse? content).map Value.typeName) := by
  rw [normalize] at hnormalize ⊢
  cases hpath : Verdict.isLines path with
  | true =>
    rw [hpath, if_pos rfl] at hnormalize
    rw [if_pos rfl]
    exact ⟨hcoder.normalizeLines_eq_self hnormalize, fun hfalse => absurd hfalse (by simp)⟩
  | false =>
    rw [hpath, if_neg Bool.false_ne_true] at hnormalize
    rw [if_neg Bool.false_ne_true]
    obtain ⟨hself, htype⟩ := hcoder.normalizeDocument_eq_self hnormalize
    exact ⟨hself, fun _ => htype⟩

end Contents

/-! ## A coder of notes -/

/-- A type of notes reads nothing but texts. -/
theorem exists_note_of_read {key : String} {v : Value} {m : Mixin}
    (hread : (Symbol.noteType key).read v = .mixin m) : ∃ words, m = Symbol.note key words := by
  cases v with
  | text words => exact ⟨words, (Intake.mixin.inj hread).symm⟩
  | _ => nomatch hread

theorem stable_noteType (key : String) : (Symbol.noteType key).Stable where
  read v m hread := by
    obtain ⟨words, rfl⟩ := exists_note_of_read hread
    exact ⟨Symbol.note key words, rfl, .refl _⟩
  proper v m hread := by
    obtain ⟨words, rfl⟩ := exists_note_of_read hread
    exact Value.proper_of_isLeaf rfl
  spelled v m x hread hx := by
    obtain ⟨words, rfl⟩ := exists_note_of_read hread
    nomatch hx

/-- A coder with notes under one key. -/
def noting : Coder := (new false).add ((Symbol.noteType "note").descriptor "note")

theorem stable_noting : noting.Stable := by
  intro key descriptor hget
  have hmem := Entries.mem_of_get?_eq_some hget
  obtain ⟨rfl, rfl⟩ : key = "note" ∧ descriptor = (Symbol.noteType "note").descriptor "note" := by
    simpa [noting, add, new, Table.put, Table.empty, Entries.put, MixinType.descriptor] using hmem
  exact ⟨_, stable_noteType _, rfl⟩

/-- A list of one symbol, loosely spelled: a kind of one language, a number as a text, a truth
value for a number, a null and a key that nothing reads. -/
def loose : Value :=
  .list [.object
    [("note", .text "kept"), ("type", .null), ("pathComponents", .list []), ("extra", .int 1),
      ("location", .object [("uri", .text "file:///f"),
        ("position", .object [("line", .text "3"), ("character", .bool true)])]),
      ("kind", .object [("identifier", .text "swift.func"), ("display_name", .text "F")]),
      ("names", .object [("title", .text "f")]), ("accessLevel", .text "public"),
      ("identifier", .object [("precise", .text "s:f")])]]

/-- The same list in its normal form. -/
def strict : Value :=
  .list [.object
    [("accessLevel", .text "public"), ("identifier", .object [("precise", .text "s:f")]),
      ("kind", .object [("displayName", .text "F"), ("identifier", .text "func")]),
      ("location", .object [("position", .object [("character", .int 1), ("line", .int 3)]),
        ("uri", .text "file:///f")]),
      ("names", .object [("title", .text "f")]), ("note", .text "kept"),
      ("pathComponents", .list [])]]

attribute [local instance] Wording.plain

theorem normalize_loose :
    (noting.normalize (Path.ofText "kit.json") (Utf8.encode (write .indented 0 loose))).outcome =
        .ok (Utf8.encode (write .compact 0 strict) ++ [0x0A]) ∧
      (noting.normalize (Path.ofText "kit.json")
          (Utf8.encode (write .compact 0 strict) ++ [0x0A])).outcome =
        .ok (Utf8.encode (write .compact 0 strict) ++ [0x0A]) := by
  have hloose : (noting.normalize (Path.ofText "kit.json")
      (Utf8.encode (write .indented 0 loose))).outcome =
        .ok (Utf8.encode (write .compact 0 strict) ++ [0x0A]) := by decide +kernel
  exact ⟨hloose, (normalize_eq_self noting stable_noting _ _ _ hloose).1⟩

end Coder

end SymbolRecord
