import SymbolRecord.Catalogue
import SymbolRecord.CommandLine.Program
import SymbolRecord.Proofs.Coder
import SymbolRecord.Proofs.Lines
import SymbolRecord.Proofs.Normal
import SymbolRecord.Proofs.Parts
import SymbolRecord.Proofs.Stable
import SymbolRecord.Proofs.Writable
/-!
# What is decoded and cannot be written back

Readers accept more than writers: integers of any size, when they are spelled as texts, and
parameters that are nested deeper than a written document may be.  Within the limits of writing,
whatever is decoded is written back, and beyond them writing fails with an error of its own and
with no other.

* `Symbol.check_encode`: when the object of a decoded symbol may be written.
* `Coder.Stable.exists_print`: encoding a decoded document is printing one value.
* `Verdict.exists_decodeDocument`: what is validated without errors is decoded.
* `Coder.encodeDocument_iff_writable`: when a decoded document is written, and what that means for
  a file that has been validated.
-/

namespace SymbolRecord

open Json

/-! ## One symbol -/

/-- **The object of a decoded symbol may be written** if and only if the symbol is writable. -/
theorem Symbol.check_encode {registry : Registry} {v : Value} {symbol : Symbol}
    (h : registry.Stable) (hdecode : (decode registry v).outcome = .ok symbol)
    {container : Entries Value} (hencode : (symbol.encode registry).outcome = .ok container)
    {depth : Nat} (hdepth : depth + 6 ≤ writtenNestingLimit) :
    check depth (.object container) = .ok () ↔ symbol.Writable (depth + 1) := by
  obtain ⟨container', hencode', hnodup, hget⟩ := exists_encode_of_decode h hdecode
  obtain rfl : container' = container := Except.ok.inj (hencode'.symm.trans hencode)
  have hcore := @Core.check_wire symbol.toCore (depth + 1) (by omega)
  rw [check_object, and_iff_right (by omega), Symbol.Writable, ← hcore]
  constructor
  · intro hall
    have hkey : ∀ key w, Entries.get? container' key = some w → check (depth + 1) w = .ok () :=
      fun key w hw => hall (key, w) (Entries.mem_of_get?_eq_some hw)
    refine ⟨fun entry hentry => hkey entry.1 entry.2 ?_, fun key m hm => ?_⟩
    · -- A mixin never stands under a core key, so the core field is found there.
      have hfree : symbol.mixins.get? entry.1 = none := by
        cases hm : symbol.mixins.get? entry.1 with
        | none => rfl
        | some m =>
          have hisKey := Core.isKey_of_mem_keys_wire (List.mem_map_of_mem hentry)
          rw [(exists_mixin_of_decode h hdecode hm).1] at hisKey
          exact absurd hisKey Bool.false_ne_true
      rw [hget, hfree, Option.map_none, Option.none_or]
      exact (Entries.get?_eq_some_iff symbol.toCore.nodup_keys_wire).mpr hentry
    · refine (m.check_payload (by omega)).mp (hkey key m.payload ?_)
      rw [hget, hm]
      rfl
  · rintro ⟨hwire, hmixins⟩ entry hentry
    rcases mem_of_get?_encode hget ((Entries.get?_eq_some_iff hnodup).mpr hentry) with
      ⟨m, hm, hpayload⟩ | hfield
    · rw [← hpayload]
      exact (m.check_payload (by omega)).mpr (hmixins entry.1 m hm)
    · exact hwire (entry.1, entry.2) (Entries.mem_of_get?_eq_some hfield)

/-! ## Documents -/

namespace Coder

/-- A value is printed if it may be written; else printing fails for that reason. -/
theorem outcome_print (layout : Layout) (v : Value) :
    (check 0 v = .ok () ∧ ∃ bytes, (print layout v).outcome = .ok bytes) ∨
      (check 0 v ≠ .ok () ∧ ∃ error, (print layout v).outcome = .error (.encode error)) := by
  have hsort := check_sortKeys v 0
  rw [Ne, ← hsort, print, document]
  cases check 0 (sortKeys v) with
  | ok u => exact Or.inl ⟨rfl, _, rfl⟩
  | error reason => exact Or.inr ⟨by simp, _, rfl⟩

/-- Encoding a decoded document is printing one value, which may be written if and only if the
document is writable. -/
theorem Stable.exists_print [Wording] {coder : Coder} (h : coder.Stable) {bytes : Bytes}
    {document : Document} (hdecode : (coder.decodeDocument bytes).outcome = .ok document) :
    ∃ v, (coder.encodeDocument document).outcome = (print coder.layout v).outcome ∧
      (check 0 v = .ok () ↔ document.Writable) := by
  rcases decodeDocument_cases hdecode with
    ⟨items, symbols, -, hsymbols, rfl⟩ | ⟨record, symbol, -, hsymbol, rfl⟩
  · obtain ⟨containers, hcontainers⟩ : ∃ containers,
        (Run.forAll (Symbol.encode coder.snapshot) symbols).outcome = .ok containers := by
      refine Run.exists_forAll_eq_ok fun symbol hmem => ?_
      obtain ⟨item, -, hitem⟩ := Run.exists_of_mem_forAll hsymbols symbol hmem
      obtain ⟨container, hcontainer, -⟩ := Symbol.exists_encode_of_decode h.snapshot hitem
      exact ⟨container, hcontainer⟩
    refine ⟨.list (containers.map .object), ?_, ?_⟩
    · rw [encodeDocument, encodeList, Run.outcome_andThen, hcontainers]
      rfl
    · rw [check_list, and_iff_right (by decide), List.forall_mem_map]
      exact Run.forall_iff_of_forAll
        (fun _ _ _ hd he => Symbol.check_encode h.snapshot hd he (by decide)) hsymbols hcontainers
  · obtain ⟨container, hcontainer, -⟩ := Symbol.exists_encode_of_decode h.snapshot hsymbol
    refine ⟨.object container, ?_, Symbol.check_encode h.snapshot hsymbol hcontainer (by decide)⟩
    rw [encodeDocument, encode, Run.outcome_andThen, hcontainer]
    rfl

/-- What is decoded is either writable and written, or neither. -/
theorem Stable.outcome_encodeDocument [Wording] {coder : Coder} (h : coder.Stable) {bytes : Bytes}
    {document : Document} (hdecode : (coder.decodeDocument bytes).outcome = .ok document) :
    (document.Writable ∧ ∃ written, (coder.encodeDocument document).outcome = .ok written) ∨
      (¬ document.Writable ∧
        ∃ error, (coder.encodeDocument document).outcome = .error (.encode error)) := by
  obtain ⟨v, hprint, hcheck⟩ := h.exists_print hdecode
  rw [hprint, ← hcheck]
  exact outcome_print coder.layout v

end Coder

/-! ## Validation -/

namespace Verdict

variable {registry : Registry} {strict : Bool}

theorem exists_decode_of_ofRecord {place : RecordPlace} {v : Value} {verdict : Verdict}
    (h : (ofRecord registry strict place v).outcome = .ok verdict) (herrors : verdict.errors = []) :
    ∃ symbol, (Symbol.decode registry v).outcome = .ok symbol := by
  cases v with
  | object record =>
    rw [ofRecord] at h
    simp only at h
    cases hrun : (Symbol.decode registry (.object record)).outcome with
    | ok symbol => exact ⟨symbol, rfl⟩
    | error failure =>
      rw [hrun] at h
      cases failure with
      | decode error =>
        rw [← Except.ok.inj h] at herrors
        exact absurd herrors (by simp [ofError])
      | _ => cases h
  | _ =>
    rw [← Except.ok.inj h] at herrors
    exact absurd herrors (by simp [ofError])

/-- Where a verdict on several parts has no errors, what each part stands for succeeds. -/
theorem exists_forAll_of_ofAll {α β : Type} {f : α → Run Verdict} {g : α → Run β}
    (hone : ∀ a verdict, (f a).outcome = .ok verdict → verdict.errors = [] →
      ∃ b, (g a).outcome = .ok b) :
    ∀ {parts : List α} {verdicts : List Verdict}, (Run.forAll f parts).outcome = .ok verdicts →
      (verdicts.foldr append empty).errors = [] → ∃ bs, (Run.forAll g parts).outcome = .ok bs
  | [], _, _, _ => ⟨[], rfl⟩
  | a :: rest, _, h, herrors => by
    obtain ⟨verdict, verdicts, hverdict, hverdicts, rfl⟩ := Run.forAll_cons_eq_ok.mp h
    obtain ⟨hfirst, hothers⟩ := List.append_eq_nil_iff.mp herrors
    obtain ⟨b, hb⟩ := hone a verdict hverdict hfirst
    obtain ⟨bs, hbs⟩ := exists_forAll_of_ofAll hone hverdicts hothers
    exact ⟨b :: bs, Run.forAll_cons_eq_ok.mpr ⟨b, bs, hb, hbs, rfl⟩⟩

/-- **What is validated without errors is decoded.** -/
theorem exists_decodeDocument [Wording] {coder : Coder} {path : String} {content : Bytes}
    {verdict : Verdict} (h : (ofDocument coder.snapshot strict path content).outcome = .ok verdict)
    (herrors : verdict.errors = []) :
    ∃ document, (coder.decodeDocument content).outcome = .ok document := by
  rw [ofDocument] at h
  cases hparse : parse? content with
  | none =>
    rw [hparse] at h
    rw [← Except.ok.inj h] at herrors
    exact absurd herrors (by simp [ofError])
  | some v =>
    rw [hparse] at h
    cases v with
    | list items =>
      obtain ⟨verdicts, hverdicts, hverdict⟩ := Run.andThen_eq_ok.mp h
      rw [← Except.ok.inj hverdict] at herrors
      obtain ⟨symbols, hsymbols⟩ := exists_forAll_of_ofAll
        (g := fun item : Nat × Value => Symbol.decode coder.snapshot item.2)
        (fun _ _ => exists_decode_of_ofRecord) hverdicts herrors
      rw [← Run.forAll_map Prod.snd, Bytes.map_snd_numberFrom] at hsymbols
      exact ⟨_, Coder.decodeDocument_list hparse hsymbols⟩
    | object record =>
      obtain ⟨symbol, hsymbol⟩ := exists_decode_of_ofRecord h herrors
      exact ⟨_, Coder.decodeDocument_object hparse hsymbol⟩
    | _ =>
      obtain ⟨symbol, hsymbol⟩ := exists_decode_of_ofRecord h herrors
      cases hsymbol

end Verdict

/-! ## The program -/

theorem FileTree.read_of_lookUp {tree : FileTree} {directory path : Path} {content : Bytes}
    (h : tree.lookUp directory path = .ok (some (.file content))) :
    tree.read directory path = .ok content := by
  rw [lookUp] at h
  split at h
  · nomatch h
  · rw [read]
    cases hfollow : tree.follow directory path with
    | error error =>
      rw [hfollow] at h
      cases error <;> nomatch h
    | ok place =>
      rw [hfollow] at h
      simp only
      rw [Except.ok.inj h]

/-- What normalizing a decoded document yields is what encoding it yields, and a line feed. -/
theorem Coder.Stable.outcome_normalizeDocument [Wording] {coder : Coder} (h : coder.Stable)
    {content : Bytes} {document : Document}
    (hdecode : (coder.decodeDocument content).outcome = .ok document) :
    (coder.normalizeDocument content).outcome =
      (coder.encodeDocument document).outcome.map fun bytes => bytes ++ [0x0A] := by
  rw [Coder.normalizeDocument_eq h.snapshot.standard, Run.outcome_andThen, Run.outcome_andThen,
    hdecode]
  rfl

namespace World

variable {world : World} {verbose : Bool} {root : Path} {config : Config} {path : String}
  {file : Path} {strict : Bool}

theorem ok_of_reportVerdict {stderr : String} {verdict : Verdict}
    (hexit : (world.reportVerdict stderr verdict).exit = .code 0) : verdict.ok = true := by
  rw [reportVerdict] at hexit
  cases hok : verdict.ok with
  | true => rfl
  | false =>
    rw [hok] at hexit
    nomatch hexit

section Exit

variable [Wording]

/-- A file that the program has validated was read and decoded. -/
theorem exists_document_of_validate (hconfig : world.configure root = .ok (config, []))
    (hfile : world.locate path = .ok file) (hlines : Verdict.isLines file = false)
    (hexit : (world.carryOut verbose root (.validate path strict)).exit = .code 0) :
    ∃ content document, world.tree.read world.directory file = .ok content ∧
      ((Coder.new config.indent).decodeDocument content).outcome = .ok document := by
  simp only [carryOut, hconfig, runValidate, coderOf, List.map_nil, Coder.register, hfile,
    validateAt] at hexit
  cases hlook : world.tree.lookUp world.directory file with
  | error error =>
    rw [hlook] at hexit
    nomatch hexit
  | ok node? =>
    rw [hlook] at hexit
    simp only [Except.map] at hexit
    cases hrun : (Verdict.ofFile (Coder.new config.indent).snapshot (strict || config.strict) file
      node?).outcome with
    | error failure =>
      rw [hrun] at hexit
      cases failure <;> nomatch hexit
    | ok verdict =>
      rw [hrun] at hexit
      have hok : verdict.ok = true := ok_of_reportVerdict hexit
      obtain ⟨content, rfl, hcontent⟩ :=
        Verdict.exists_content_of_ofFile hrun (List.isEmpty_iff.mp hok)
      rw [Verdict.ofContent, hlines, if_neg Bool.false_ne_true] at hcontent
      obtain ⟨document, hdocument⟩ :=
        Verdict.exists_decodeDocument hcontent (List.isEmpty_iff.mp hok)
      exact ⟨content, document, FileTree.read_of_lookUp hlook, hdocument⟩

/-- How the program exits from normalizing a document that is decoded. -/
theorem exit_normalize (hconfig : world.configure root = .ok (config, []))
    (hfile : world.locate path = .ok file) (hlines : Verdict.isLines file = false)
    {content : Bytes} (hread : world.tree.read world.directory file = .ok content)
    {indent : Bool} {document : Document}
    (hdecode : ((Coder.new (indent || config.indent)).decodeDocument content).outcome =
      .ok document) :
    (document.Writable ∧
        (world.carryOut verbose root (.normalize path .output indent)).exit = .code 0) ∨
      (¬ document.Writable ∧
        (world.carryOut verbose root (.normalize path .output indent)).exit = .code 1) := by
  have hstable := Coder.stable_new (indent || config.indent)
  have hnormal := hstable.outcome_normalizeDocument hdecode
  simp only [carryOut, hconfig, runNormalize, coderOf, List.map_nil, Coder.register, hfile, hread,
    Coder.normalize, hlines, Bool.false_eq_true, if_false]
  rcases hstable.outcome_encodeDocument hdecode with
    ⟨hwritable, written, hwritten⟩ | ⟨hwritable, error, herror⟩
  · rw [hwritten] at hnormal
    rw [hnormal]
    exact Or.inl ⟨hwritable, rfl⟩
  · rw [herror] at hnormal
    rw [hnormal]
    exact Or.inr ⟨hwritable, rfl⟩

end Exit

end World

namespace Coder

/-- **When what was decoded is written back.**  Encoding a decoded document succeeds if and only if
its integers fit 64 bits and its parameters leave enough room, and else fails because it may not be
written.  So normalizing a file that was validated without errors succeeds if and only if the
document in it is writable, and else is reported as an error. -/
theorem encodeDocument_iff_writable [Wording] :
    (∀ (indent : Bool) (bytes : Bytes) (document : Document),
      ((new indent).decodeDocument bytes).outcome = .ok document →
        ((∃ written, ((new indent).encodeDocument document).outcome = .ok written) ↔
          document.Writable) ∧
        (¬ document.Writable →
          ∃ error, ((new indent).encodeDocument document).outcome = .error (.encode error))) ∧
    ∀ (world : World) (verbose : Bool) (root : Path) (config : Config) (path : String)
      (file : Path) (strict indent : Bool), world.configure root = .ok (config, []) →
      world.locate path = .ok file → Verdict.isLines file = false →
      (world.carryOut verbose root (.validate path strict)).exit = .code 0 →
        ∃ content document, world.tree.read world.directory file = .ok content ∧
          ((new (indent || config.indent)).decodeDocument content).outcome = .ok document ∧
          ((world.carryOut verbose root (.normalize path .output indent)).exit = .code 0 ↔
            document.Writable) ∧
          (¬ document.Writable →
            (world.carryOut verbose root (.normalize path .output indent)).exit = .code 1) := by
  constructor
  · intro indent bytes document hdecode
    rcases (stable_new indent).outcome_encodeDocument hdecode with
      ⟨hwritable, hwritten⟩ | ⟨hwritable, error, herror⟩
    · exact ⟨iff_of_true hwritten hwritable, fun h => absurd hwritable h⟩
    · refine ⟨iff_of_false ?_ hwritable, fun _ => ⟨error, herror⟩⟩
      rintro ⟨written, hwritten⟩
      exact absurd (herror.symm.trans hwritten) (by simp)
  · intro world verbose root config path file strict indent hconfig hfile hlines hexit
    obtain ⟨content, document, hread, hdocument⟩ :=
      World.exists_document_of_validate hconfig hfile hlines hexit
    -- How documents are laid out does not matter to reading.
    have hdecode : ((new (indent || config.indent)).decodeDocument content).outcome =
      .ok document := hdocument
    refine ⟨content, document, hread, hdecode, ?_⟩
    rcases World.exit_normalize hconfig hfile hlines hread hdecode with
      ⟨hwritable, hzero⟩ | ⟨hwritable, hone⟩
    · exact ⟨iff_of_true hzero hwritable, fun h => absurd hwritable h⟩
    · refine ⟨iff_of_false (fun hzero => ?_) hwritable, fun _ => hone⟩
      exact absurd (hone.symm.trans hzero) (by simp)

/-! ## A line number of sixty-five bits -/

attribute [local instance] Wording.plain

/-- A symbol whose location has an integer that does not fit 64 bits. -/
def remote : Bytes :=
  Utf8.encode (write .compact 0 (.object
    [("identifier", .object [("precise", .text "s:f")]),
      ("kind", .object [("identifier", .text "func"), ("displayName", .text "F")]),
      ("names", .object [("title", .text "f")]), ("accessLevel", .text "public"),
      ("pathComponents", .list []),
      ("location", .object [("uri", .text "file:///f"),
        ("position", .object [("line", .text "18446744073709551616"), ("character", .int 0)])])]))

theorem exists_decodeDocument_remote :
    ∃ document, ((new false).decodeDocument remote).outcome = .ok document := by
  have hsome : ((new false).decodeDocument remote).outcome.isOk = true := by decide +kernel
  cases h : ((new false).decodeDocument remote).outcome with
  | ok document => exact ⟨document, rfl⟩
  | error failure =>
    rw [h] at hsome
    nomatch hsome

/-- The integer is read, and not written. -/
theorem encodeDocument_remote :
    ∃ document, ((new false).decodeDocument remote).outcome = .ok document ∧
      ((new false).encodeDocument document).outcome = .error (.encode ⟨.integer⟩) := by
  have hround : (((new false).decodeDocument remote).andThen
      (new false).encodeDocument).outcome = .error (.encode ⟨.integer⟩) := by decide +kernel
  obtain ⟨document, hdocument⟩ := exists_decodeDocument_remote
  rw [Run.outcome_andThen, hdocument] at hround
  exact ⟨document, hdocument, hround⟩

/-- A world with that symbol in a file. -/
def remoteWorld : World := ⟨⟨[(["kit.json"], .file remote)]⟩, ⟨"/", []⟩, fun _ => none,
  Catalogue.standard⟩

/-- Normalizing the file succeeds only if its document is writable, although the file is valid. -/
theorem exit_normalize_remote :
    ∃ content document, remoteWorld.tree.read remoteWorld.directory ⟨"/", ["kit.json"]⟩ =
        .ok content ∧
      ((new false).decodeDocument content).outcome = .ok document ∧
      ((remoteWorld.carryOut false ⟨"/", []⟩ (.normalize "kit.json" .output false)).exit =
        .code 0 ↔ document.Writable) := by
  have hlook : remoteWorld.tree.lookUp remoteWorld.directory
      (Path.child ⟨"/", []⟩ Config.filename) = .ok none := by decide +kernel
  have hconfig : remoteWorld.configure ⟨"/", []⟩ = .ok (Config.default, []) := by
    rw [World.configure]
    simp only [hlook]
    rfl
  have hexit : (remoteWorld.carryOut false ⟨"/", []⟩ (.validate "kit.json" false)).exit =
      .code 0 := by decide +kernel
  obtain ⟨content, document, hread, hdecode, hzero, -⟩ :=
    encodeDocument_iff_writable.2 remoteWorld false ⟨"/", []⟩ Config.default "kit.json"
      ⟨"/", ["kit.json"]⟩ false false hconfig (by decide +kernel) (by decide +kernel) hexit
  exact ⟨content, document, hread, hdecode, hzero⟩

end Coder

end SymbolRecord
