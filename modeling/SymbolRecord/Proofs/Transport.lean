import SymbolRecord.Proofs.Coder
import SymbolRecord.Proofs.Compact
import SymbolRecord.Proofs.Legible
import SymbolRecord.Proofs.Lines
import SymbolRecord.Proofs.Normal
/-!
# The ways in which symbols travel

One symbol to a document, several in one document as a list, and several in a text with one to a
line: whichever way symbols take, what arrives is what arrives when each is sent by itself.  The
layout makes no difference, and neither does what the strings in the symbols hold, since no line end
inside a string is written as one.

Descriptors may bring encoders and decoders of any sort, as long as what they write is legible.

* `Coder.decode_sortKeys_of_deliver`: what arrives of one symbol.
* `Coder.encodeLines_append`: the text of two lists is that of one behind that of the other.
* `Coder.decodeLines_of_encodeLines`, `Coder.decodeDocument_of_encodeList`: what arrives of a list.
* `Coder.transports_agree`: all ways together.
-/

namespace SymbolRecord

open Json

namespace Coder

variable {coder : Coder}

section One

variable [Wording]

/-- What arrives of a symbol that is sent by itself. -/
def deliver (coder : Coder) (symbol : Symbol) : Run Symbol :=
  (coder.encode symbol).andThen coder.decode

/-! ## One symbol -/

/-- What arrives of a symbol is what its object is decoded as, with the keys in ascending order. -/
theorem decode_sortKeys_of_deliver {symbol decoded : Symbol}
    (hdeliver : (coder.deliver symbol).outcome = .ok decoded) {container : Entries Value}
    (hencode : (symbol.encode coder.snapshot).outcome = .ok container)
    (hlegible : (Value.object container).Legible) :
    (Symbol.decode coder.snapshot (sortKeys (.object container))).outcome = .ok decoded := by
  obtain ⟨bytes, hbytes, hdecode⟩ := Run.andThen_eq_ok.mp hdeliver
  obtain ⟨_, hencode', hprint⟩ := Run.andThen_eq_ok.mp hbytes
  obtain rfl := Except.ok.inj (hencode'.symm.trans hencode)
  obtain ⟨v, hv, hsymbol⟩ := Run.andThen_eq_ok.mp hdecode
  obtain rfl := Option.some_inj.mp ((parse_eq_ok.mp hv).symm.trans (parse_print hprint hlegible))
  exact hsymbol

/-- The same arrives of the line that is written for a symbol. -/
theorem decodeLine_of_encodeLine {symbol decoded : Symbol}
    (hdeliver : (coder.deliver symbol).outcome = .ok decoded)
    (hlegible : ∀ container, (symbol.encode coder.snapshot).outcome = .ok container →
      (Value.object container).Legible)
    {written : Bytes} (hwritten : (coder.encodeLine symbol).outcome = .ok written) :
    (coder.decodeLine written.dropLast).outcome = .ok decoded := by
  obtain ⟨container, line, hencode, hprint, rfl⟩ := encodeLine_eq_ok.mp hwritten
  have hcontainer := hlegible container hencode
  rw [dropLast_line]
  exact Run.andThen_eq_ok.mpr ⟨_, parse_eq_ok.mpr (parse_print hprint hcontainer),
    decode_sortKeys_of_deliver hdeliver hencode hcontainer⟩

end One

/-! ## Several symbols -/

/-- **The text of two lists of symbols** is that of the first and then that of the second. -/
theorem encodeLines_append (coder : Coder) (xs ys : List Symbol) :
    coder.encodeLines (xs ++ ys) =
      (coder.encodeLines xs).andThen fun front =>
        (coder.encodeLines ys).andThen fun back => .ok (front ++ back) := by
  have hlines : ∀ symbols, coder.encodeLines symbols =
      (Run.forAll coder.encodeLine symbols).andThen fun written => .ok written.flatten :=
    fun _ => rfl
  rw [hlines, hlines, hlines, Run.forAll_append]
  simp only [Run.andThen_assoc, Run.ok_andThen, List.flatten_append]

section Several

variable {symbols decoded : List Symbol}
  (hlegible : ∀ symbol ∈ symbols, ∀ container,
    (symbol.encode coder.snapshot).outcome = .ok container → (Value.object container).Legible)

include hlegible

/-- What is written for several symbols with one to a line are lines. -/
theorem exists_lines_of_encodeLines {bytes : Bytes}
    (hencode : (coder.encodeLines symbols).outcome = .ok bytes) :
    ∃ written, (Run.forAll coder.encodeLine symbols).outcome = .ok written ∧
      bytes = written.flatten ∧ ∀ line ∈ written, Bytes.IsLine line := by
  obtain ⟨written, hwritten, rfl⟩ := encodeLines_eq_ok.mp hencode
  refine ⟨written, hwritten, rfl, fun line hline => ?_⟩
  obtain ⟨symbol, hsymbol, hone⟩ := Run.exists_of_mem_forAll hwritten line hline
  exact isLine_of_encodeLine (hlegible symbol hsymbol) hone

variable [Wording] (hdeliver : (Run.forAll coder.deliver symbols).outcome = .ok decoded)

include hdeliver

/-- What arrives of several symbols that are sent with one to a line. -/
theorem decodeLines_of_encodeLines {bytes : Bytes}
    (hencode : (coder.encodeLines symbols).outcome = .ok bytes) :
    (coder.decodeLines bytes).outcome = .ok decoded := by
  obtain ⟨written, hwritten, rfl, hlines⟩ := exists_lines_of_encodeLines hlegible hencode
  have hrecords : Bytes.records written.flatten = written.map List.dropLast :=
    Bytes.pieces_flatten rfl (fun _ hbreak => hbreak) hlines
  rw [decodeLines_eq, hrecords, Run.forAll_map]
  refine Run.forAll_of_forAll (fun symbol hsymbol _ _ hone hline => ?_) hdeliver hwritten
  exact decodeLine_of_encodeLine hone (hlegible symbol hsymbol) hline

/-- What arrives of several symbols that are sent as a list, in either layout. -/
theorem decodeDocument_of_encodeList {indent : Bool} {bytes : Bytes}
    (hencode : ({ coder with indent := indent }.encodeList symbols).outcome = .ok bytes) :
    ({ coder with indent := indent }.decodeDocument bytes).outcome = .ok (.several decoded) := by
  obtain ⟨containers, hcontainers, hprint⟩ := Run.andThen_eq_ok.mp hencode
  have hlist : (Value.list (containers.map .object)).Legible := by
    refine Value.legible_list.mpr (List.forall_mem_map.mpr fun container hcontainer => ?_)
    obtain ⟨symbol, hsymbol, hone⟩ := Run.exists_of_mem_forAll hcontainers container hcontainer
    exact hlegible symbol hsymbol container hone
  have hparse := parse_print hprint hlist
  rw [sortKeys_list, List.map_map] at hparse
  have hone : ∀ symbol ∈ symbols, ∀ one container, (coder.deliver symbol).outcome = .ok one →
      (symbol.encode coder.snapshot).outcome = .ok container →
        (Symbol.decode coder.snapshot (sortKeys (.object container))).outcome = .ok one :=
    fun symbol hsymbol _ container hone hcontainer =>
      decode_sortKeys_of_deliver hone hcontainer (hlegible symbol hsymbol container hcontainer)
  refine decodeDocument_list hparse ?_
  rw [Run.forAll_map]
  exact Run.forAll_of_forAll hone hdeliver hcontainers

end Several

/-- **The transports agree.**  When each of several symbols arrives by itself, and what is written
for it is legible: the text with one to a line has a line feed for each symbol and no carriage
return, is the same in either layout, and is read as what arrives of the symbols one by one; so is
the list, in either layout; and the text of two lists is that of one behind that of the other. -/
theorem transports_agree [Wording] (coder : Coder) (symbols decoded : List Symbol)
    (hdeliver : (Run.forAll (fun symbol => (coder.encode symbol).andThen coder.decode)
      symbols).outcome = .ok decoded)
    (hlegible : ∀ symbol ∈ symbols, ∀ container,
      (symbol.encode coder.snapshot).outcome = .ok container →
        (Value.object container).Legible) :
    (∀ bytes, (coder.encodeLines symbols).outcome = .ok bytes →
      bytes.count 0x0A = symbols.length ∧ (0x0D : UInt8) ∉ bytes ∧
        (∀ indent, ({ coder with indent := indent }.encodeLines symbols).outcome = .ok bytes) ∧
          (coder.decodeLines bytes).outcome = .ok decoded) ∧
      (∀ indent bytes, ({ coder with indent := indent }.encodeList symbols).outcome = .ok bytes →
        ({ coder with indent := indent }.decodeDocument bytes).outcome =
          .ok (.several decoded)) ∧
      ∀ xs ys, coder.encodeLines (xs ++ ys) =
        (coder.encodeLines xs).andThen fun front =>
          (coder.encodeLines ys).andThen fun back => .ok (front ++ back) := by
  refine ⟨fun bytes hencode => ?_,
    fun indent bytes hencode => decodeDocument_of_encodeList hlegible hdeliver hencode,
    coder.encodeLines_append⟩
  have hdecode := decodeLines_of_encodeLines hlegible hdeliver hencode
  obtain ⟨written, hwritten, rfl, hlines⟩ := exists_lines_of_encodeLines hlegible hencode
  refine ⟨?_, Bytes.return_notMem_flatten hlines, fun _ => hencode, hdecode⟩
  rw [Bytes.count_feed_flatten hlines, Run.length_of_forAll hwritten]

attribute [local instance] Wording.plain

/-- A symbol with the same words wherever it can have them. -/
def worded (words : String) : Symbol where
  identifier := ⟨words, none⟩
  kind := ⟨⟨"func"⟩, words⟩
  pathComponents := [words]
  type := some words
  names := ⟨words, none, none, none⟩
  docComment := none
  accessLevel := words
  mixins := ⟨[("note", Symbol.note "note" words)], List.pairwise_singleton _ _⟩

/-- Two symbols whose words hold line ends of all sorts, other control characters and quotes. -/
def unruly : List Symbol := [worded "a\n\r\t\u0000\"\\", worded "\u0085\u2028\u2029"]

theorem transports_agree_unruly :
    ∃ lines list, (noting.encodeLines unruly).outcome = .ok lines ∧ lines.count 0x0A = 2 ∧
      (noting.decodeLines lines).outcome = .ok unruly ∧
        ({ noting with indent := true }.encodeList unruly).outcome = .ok list ∧
          ({ noting with indent := true }.decodeDocument list).outcome =
            .ok (.several unruly) := by
  have hlegible : ∀ symbol ∈ unruly, ∀ container,
      (symbol.encode noting.snapshot).outcome = .ok container →
        (Value.object container).Legible := by
    intro symbol hsymbol container hencode
    obtain ⟨words, rfl⟩ : ∃ words, symbol = worded words := by
      rcases List.mem_cons.mp hsymbol with rfl | hsymbol
      · exact ⟨_, rfl⟩
      · exact ⟨_, List.mem_singleton.mp hsymbol⟩
    refine Symbol.legible_of_encode
      (fun key _ => stable_noting.snapshot.allOf.writesPlainly key) (fun key m hm => ?_) hencode
    obtain ⟨rfl, rfl⟩ := Prod.mk.inj (List.mem_singleton.mp (Entries.mem_of_get?_eq_some hm))
    exact (Value.plain_of_isLeaf rfl rfl).legible
  have hdeliver : (Run.forAll (fun symbol => (noting.encode symbol).andThen noting.decode)
      unruly).outcome = .ok unruly := by decide +kernel
  obtain ⟨hlines, hlist, -⟩ := transports_agree noting unruly unruly hdeliver hlegible
  have hsent : (noting.encodeLines unruly).outcome.isOk = true ∧
      ({ noting with indent := true }.encodeList unruly).outcome.isOk = true := by decide +kernel
  cases hencode : (noting.encodeLines unruly).outcome with
  | error failure =>
    rw [hencode] at hsent
    nomatch hsent.1
  | ok lines =>
    cases hencode' : ({ noting with indent := true }.encodeList unruly).outcome with
    | error failure =>
      rw [hencode'] at hsent
      nomatch hsent.2
    | ok list =>
      obtain ⟨hcount, -, -, hdecode⟩ := hlines lines hencode
      exact ⟨lines, list, rfl, hcount, hdecode, rfl, hlist true list hencode'⟩

end Coder

end SymbolRecord
