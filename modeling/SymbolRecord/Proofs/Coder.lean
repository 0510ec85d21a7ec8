import SymbolRecord.Coder
import SymbolRecord.Proofs.Compact
import SymbolRecord.Proofs.Decoding
import SymbolRecord.Proofs.Json
import SymbolRecord.Proofs.Legible
import SymbolRecord.Proofs.Run
/-!
# Documents

A document that is decoded is an object, for one symbol, or a list, for several.  What is written
for a value depends on it up to the order of its keys alone.

* `Coder.parse_eq_ok`, `Coder.print_eq_ok`: when bytes are parsed and values are printed.
* `Coder.print_congr`: values that are alike are printed the same.
* `Coder.decodeDocument_cases`: what a decoded document is.
* `Coder.decodeLine`: what is done for one line.
-/

namespace SymbolRecord

open Json

deriving instance DecidableEq for Document

namespace Coder

theorem print_eq_ok {layout : Layout} {v : Value} {bytes : Bytes} :
    (print layout v).outcome = .ok bytes ↔ document layout (sortKeys v) = .ok bytes := by
  rw [print]
  cases document layout (sortKeys v) with
  | error reason => simp
  | ok written => simp

/-- Values that differ in the order of keys only are printed the same. -/
theorem print_congr (layout : Layout) {v w : Value} (h : v.Alike w) :
    print layout v = print layout w := by
  rw [print, print, show sortKeys v = sortKeys w from h]

/-- A printed value is parsed as the value with its keys in ascending order, also with white space
behind it. -/
theorem parse_of_print {layout : Layout} {v : Value} {bytes : Bytes}
    (h : (print layout v).outcome = .ok bytes) (hv : v.Legible) {spaces : List Char}
    (hspaces : ∀ c ∈ spaces, isSpace c = true) :
    parse? (bytes ++ Utf8.encode spaces) = some (sortKeys v) :=
  parse?_document (print_eq_ok.mp h) hv.sortKeys.proper hv.sortKeys.spelled hspaces

/-- A printed value is parsed as the value with its keys in ascending order. -/
theorem parse_print {layout : Layout} {v : Value} {bytes : Bytes}
    (h : (print layout v).outcome = .ok bytes) (hv : v.Legible) :
    parse? bytes = some (sortKeys v) := by
  have hnone : ∀ c ∈ ([] : List Char), isSpace c = true := fun _ hmem => nomatch hmem
  have hparse := parse_of_print h hv hnone
  rwa [Utf8.encode_nil, List.append_nil] at hparse

/-- A printed object is a line of its own. -/
theorem isLine_of_print {container : Entries Value} {line : Bytes}
    (h : (print .compact (.object container)).outcome = .ok line)
    (hv : (Value.object container).Legible) : Bytes.IsLine (line ++ [0x0A]) := by
  obtain ⟨hcheck, rfl⟩ := document_eq_ok_iff.mp (print_eq_ok.mp h)
  have hspelled : ∀ u, u.Within (sortKeys (.object container)) → Spelled u := fun u hu =>
    spelled_of_check hcheck u hu fun x hx => hv.sortKeys.spelled x (hx ▸ hu)
  rw [sortKeys_object] at hspelled ⊢
  exact isLine_write hspelled

/-! ## Documents -/

variable [Wording]

theorem parse_eq_ok {bytes : Bytes} {v : Value} :
    (parse bytes).outcome = .ok v ↔ parse? bytes = some v := by
  rw [parse]
  cases parse? bytes with
  | none => simp
  | some w => simp

/-- What a decoded document is: an object for one symbol, or a list of objects for several. -/
theorem decodeDocument_cases {coder : Coder} {bytes : Bytes} {document : Document}
    (h : (coder.decodeDocument bytes).outcome = .ok document) :
    (∃ items symbols, parse? bytes = some (.list items) ∧
      (Run.forAll (Symbol.decode coder.snapshot) items).outcome = .ok symbols ∧
      document = .several symbols) ∨
    ∃ record symbol, parse? bytes = some (.object record) ∧
      (Symbol.decode coder.snapshot (.object record)).outcome = .ok symbol ∧
      document = .single symbol := by
  obtain ⟨v, hparse, hv⟩ := Run.andThen_eq_ok.mp h
  have hbytes := parse_eq_ok.mp hparse
  cases v with
  | list items =>
    obtain ⟨symbols, hsymbols, hdocument⟩ := Run.andThen_eq_ok.mp hv
    exact Or.inl ⟨items, symbols, hbytes, hsymbols, (Except.ok.inj hdocument).symm⟩
  | object record =>
    obtain ⟨symbol, hsymbol, hdocument⟩ := Run.andThen_eq_ok.mp hv
    exact Or.inr ⟨record, symbol, hbytes, hsymbol, (Except.ok.inj hdocument).symm⟩
  | _ => exact absurd hv (by simp [Run.andThen, Symbol.decode, Run.fail])

theorem decodeDocument_list {coder : Coder} {bytes : Bytes} {items : List Value}
    {symbols : List Symbol} (hparse : parse? bytes = some (.list items))
    (hsymbols : (Run.forAll (Symbol.decode coder.snapshot) items).outcome = .ok symbols) :
    (coder.decodeDocument bytes).outcome = .ok (.several symbols) :=
  Run.andThen_eq_ok.mpr
    ⟨.list items, parse_eq_ok.mpr hparse, Run.andThen_eq_ok.mpr ⟨symbols, hsymbols, rfl⟩⟩

theorem decodeDocument_object {coder : Coder} {bytes : Bytes} {record : Entries Value}
    {symbol : Symbol} (hparse : parse? bytes = some (.object record))
    (hsymbol : (Symbol.decode coder.snapshot (.object record)).outcome = .ok symbol) :
    (coder.decodeDocument bytes).outcome = .ok (.single symbol) :=
  Run.andThen_eq_ok.mpr
    ⟨.object record, parse_eq_ok.mpr hparse, Run.andThen_eq_ok.mpr ⟨symbol, hsymbol, rfl⟩⟩

/-! ## Lines -/

/-- The symbol of a line. -/
def decodeLine (coder : Coder) (line : Bytes) : Run Symbol :=
  (parse line).andThen (Symbol.decode coder.snapshot)

theorem decodeLines_eq (coder : Coder) (content : Bytes) :
    coder.decodeLines content = Run.forAll coder.decodeLine content.records := rfl

end Coder

end SymbolRecord
