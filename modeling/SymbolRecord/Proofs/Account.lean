import SymbolRecord.Proofs.Dispatch
import SymbolRecord.Proofs.Parts
/-!
# Where the keys of a record go

Decoding leaves out data without an error, in two ways: a key that nothing decodes is passed over,
and a decoder may give up what it was handed.  The keys that are passed over are reported by a
traversal of their own, which knows nothing of what decoding has stored, so that a mismatch between
the two would be data that is lost in silence.  This module is the account: each key of a record is
a core key, or handed to a decoder, or reported, and of the keys that are handed to a decoder the
symbol lacks exactly those that the decoder gave up.

With the built-in descriptors alone, no type but that of locations gives anything up.  So a content
that is accepted strictly, where a reported key is an error, loses nothing but malformed locations.

* `Symbol.coreKeys`, `Symbol.decodableKeys`, `Symbol.unrecognizedKeys`: the three kinds of keys.
* `Symbol.GivesNothing`: a decoder gave up what it was handed.
* `Symbol.missing_iff`: which keys a decoded symbol lacks.
* `MixinType.eq_location_of_dropped`: which built-in types give anything up.
* `Symbol.Kept`: where the value under a key is found in the symbol.
* `Symbol.every_key_accounted_for`: the account.
-/

namespace SymbolRecord

namespace Symbol

/-! ## Three kinds of keys -/

/-- The core keys of a record, in ascending order. -/
def coreKeys (record : Entries Value) : List String := record.sortedKeys.filter Core.isKey

variable {registry : Registry} {record : Entries Value} {symbol : Symbol}

theorem mem_coreKeys {key : String} :
    key ∈ coreKeys record ↔ key ∈ record.keys ∧ Core.isKey key = true := by
  rw [coreKeys, List.mem_filter, Entries.mem_sortedKeys]

/-- **Every key is of one of the three kinds.** -/
theorem mem_kinds_iff {key : String} :
    key ∈ coreKeys record ++ decodableKeys registry record ++ unrecognizedKeys registry record ↔
      key ∈ record.keys := by
  rw [List.mem_append, List.mem_append, mem_coreKeys, mem_decodableKeys, mem_unrecognizedKeys]
  cases Core.isKey key with
  | true => simp
  | false =>
    cases registry.decoder? key with
    | none => simp
    | some decoder => simp

/-- **No key is of two of the three kinds**, and none occurs twice. -/
theorem nodup_kinds (registry : Registry) (record : Entries Value) :
    (coreKeys record ++ decodableKeys registry record ++
      unrecognizedKeys registry record).Nodup := by
  have hcore : (coreKeys record).Nodup := (Entries.nodup_sortedKeys record).filter _
  have hdecodable := Entries.nodup_of_pairwise_lt (pairwise_decodableKeys registry record)
  have hunrecognized := Entries.nodup_of_pairwise_lt (pairwise_unrecognizedKeys registry record)
  rw [List.nodup_append, List.nodup_append]
  refine ⟨⟨hcore, hdecodable, ?_⟩, hunrecognized, ?_⟩
  · rintro key hleft _ hright rfl
    have hkey := (mem_decodableKeys.mp hright).2.1
    rw [(mem_coreKeys.mp hleft).2] at hkey
    nomatch hkey
  · rintro key hleft _ hright rfl
    obtain ⟨-, hkey, hnone⟩ := mem_unrecognizedKeys.mp hright
    rcases List.mem_append.mp hleft with hleft | hleft
    · rw [(mem_coreKeys.mp hleft).2] at hkey
      nomatch hkey
    · have hsome := (mem_decodableKeys.mp hleft).2.2
      rw [hnone] at hsome
      nomatch hsome

/-! ## What a decoded symbol lacks -/

/-- The decoder of a key was handed the record and found no mixin. -/
def GivesNothing (registry : Registry) (record : Entries Value) (key : String) : Prop :=
  key ∈ decodableKeys registry record ∧
    ∃ decoder, registry.decoder? key = some decoder ∧ (decoder key record).outcome = .ok none

/-- **Each decodable key was handed to its decoder**, and what this found is in the symbol. -/
theorem outcome_decoder_of_decode
    (hdecode : (decode registry (.object record)).outcome = .ok symbol) {key : String}
    (hkey : key ∈ decodableKeys registry record) :
    ∃ decoder, registry.decoder? key = some decoder ∧
      (decoder key record).outcome = .ok (symbol.mixins.get? key) := by
  obtain ⟨hmem, hcore, hsome⟩ := mem_decodableKeys.mp hkey
  obtain ⟨decoder, hdecoder⟩ := Option.isSome_iff_exists.mp hsome
  refine ⟨decoder, hdecoder, ?_⟩
  rw [← readMixin_of_decoder? hdecoder]
  exact readMixin_of_decode hdecode hmem hcore

/-- Under a key that is passed over, the symbol has nothing. -/
theorem get?_eq_none_of_unrecognized
    (hdecode : (decode registry (.object record)).outcome = .ok symbol) {key : String}
    (hkey : key ∈ unrecognizedKeys registry record) : symbol.mixins.get? key = none := by
  obtain ⟨hmem, hcore, hnone⟩ := mem_unrecognizedKeys.mp hkey
  have hread := readMixin_of_decode hdecode hmem hcore
  rw [readMixin_of_decoder?_eq_none hnone] at hread
  exact (Except.ok.inj hread).symm

/-- **Which keys a decoded symbol lacks**: those that are reported, and those that a decoder gave
up. -/
theorem missing_iff (hdecode : (decode registry (.object record)).outcome = .ok symbol)
    (key : String) :
    (key ∈ record.keys ∧ Core.isKey key = false ∧ key ∉ symbol.mixins.keys) ↔
      key ∈ unrecognizedKeys registry record ∨ GivesNothing registry record key := by
  have hmissing : key ∉ symbol.mixins.keys ↔ symbol.mixins.get? key = none :=
    (Entries.get?_eq_none_iff _ _).symm
  rw [hmissing]
  constructor
  · rintro ⟨hmem, hcore, hnone⟩
    cases hdecoder : registry.decoder? key with
    | none => exact .inl (mem_unrecognizedKeys.mpr ⟨hmem, hcore, hdecoder⟩)
    | some decoder =>
      have hkey : key ∈ decodableKeys registry record :=
        mem_decodableKeys.mpr ⟨hmem, hcore, by rw [hdecoder]; rfl⟩
      obtain ⟨decoder', hdecoder', hfound⟩ := outcome_decoder_of_decode hdecode hkey
      rw [hnone] at hfound
      exact .inr ⟨hkey, decoder', hdecoder', hfound⟩
  · rintro (hkey | ⟨hkey, decoder, hdecoder, hfound⟩)
    · obtain ⟨hmem, hcore, -⟩ := mem_unrecognizedKeys.mp hkey
      exact ⟨hmem, hcore, get?_eq_none_of_unrecognized hdecode hkey⟩
    · obtain ⟨hmem, hcore, -⟩ := mem_decodableKeys.mp hkey
      obtain ⟨decoder', hdecoder', hfound'⟩ := outcome_decoder_of_decode hdecode hkey
      obtain rfl := Option.some_inj.mp (hdecoder.symm.trans hdecoder')
      exact ⟨hmem, hcore, Except.ok.inj (hfound'.symm.trans hfound)⟩

end Symbol

/-! ## The built-in types -/

namespace MixinType

theorem read_ofCodec_ne_dropped {α : Type} (tag : TypeTag) (codec : Codec α) (wrap : α → Mixin)
    (v : Value) (issues : Nat) : (ofCodec tag codec wrap).read v ≠ .dropped issues := by
  intro hread
  simp only [ofCodec] at hread
  cases hcodec : codec.read v with
  | accepted a =>
    rw [hcodec] at hread
    cases hread
  | rejected first others =>
    rw [hcodec] at hread
    cases hread

/-- **Of the built-in types, that of locations alone gives anything up.** -/
theorem eq_location_of_dropped {type : MixinType} (htype : type ∈ builtin) {v : Value}
    {issues : Nat} (hread : type.read v = .dropped issues) : type = location := by
  simp only [builtin, List.mem_cons, List.not_mem_nil, or_false] at htype
  rcases htype with rfl | rfl | rfl | rfl | rfl | rfl | rfl | rfl | rfl
  · exact absurd hread (read_ofCodec_ne_dropped _ _ _ v issues)
  · exact absurd hread (read_ofCodec_ne_dropped _ _ _ v issues)
  · exact absurd hread (read_ofCodec_ne_dropped _ _ _ v issues)
  · exact absurd hread (read_ofCodec_ne_dropped _ _ _ v issues)
  · exact absurd hread (read_ofCodec_ne_dropped _ _ _ v issues)
  · rfl
  · exact absurd hread (read_ofCodec_ne_dropped _ _ _ v issues)
  · exact absurd hread (read_ofCodec_ne_dropped _ _ _ v issues)
  · exact absurd hread (read_ofCodec_ne_dropped _ _ _ v issues)

end MixinType

/-- A registry without descriptors beside the built-in ones. -/
def Registry.OnlyBuiltin (registry : Registry) : Prop :=
  ∀ key, registry.contains key = true → Registry.isBuiltin key = true

namespace Registry.OnlyBuiltin

variable {registry : Registry}

/-- What such a registry resolves is the descriptor of a built-in type. -/
theorem exists_type (h : registry.OnlyBuiltin) {key : String} {descriptor : Descriptor}
    (hresolve : registry.resolve? key = some descriptor) :
    ∃ type ∈ MixinType.builtin, type.key? = some key ∧ descriptor = type.descriptor key := by
  have hbuiltin : Registry.isBuiltin key = true := h key (by rw [contains, hresolve]; rfl)
  obtain ⟨own, hown⟩ := Option.isSome_iff_exists.mp hbuiltin
  rw [resolve?, hown] at hresolve
  rw [← Option.some_inj.mp hresolve]
  exact exists_type_of_builtin hown

theorem standard (h : registry.OnlyBuiltin) : registry.Standard := by
  intro key descriptor hresolve
  obtain ⟨type, -, -, rfl⟩ := h.exists_type hresolve
  exact ⟨type, type.isOf_descriptor key⟩

/-- What such a registry has for a decodable key is a built-in type, which takes the payload. -/
theorem exists_takes_of_mem (h : registry.OnlyBuiltin) {record : Entries Value} {key : String}
    (hkey : key ∈ Symbol.decodableKeys registry record) :
    ∃ type ∈ MixinType.builtin, type.key? = some key ∧
      ∃ v, Symbol.Takes registry record key (type.read v) := by
  obtain ⟨hmem, hcore, hsome⟩ := Symbol.mem_decodableKeys.mp hkey
  obtain ⟨decoder, hdecoder⟩ := Option.isSome_iff_exists.mp hsome
  obtain ⟨descriptor, hresolve, hread⟩ := Option.bind_eq_some_iff.mp hdecoder
  obtain ⟨type, htype, hown, rfl⟩ := h.exists_type hresolve
  obtain rfl : type.decode = decoder := Option.some_inj.mp hread
  obtain ⟨v, hv⟩ := Option.isSome_iff_exists.mp (Entries.isSome_get?_iff.mpr hmem)
  exact ⟨type, htype, hown, v, hcore, type, v, hdecoder, hv, rfl⟩

/-- **With the built-in types, nothing but a location is given up.** -/
theorem dropped_of_givesNothing (h : registry.OnlyBuiltin) {record : Entries Value} {key : String}
    (hnothing : Symbol.GivesNothing registry record key) :
    key = "location" ∧ ∃ issues, Symbol.Takes registry record key (.dropped issues) := by
  obtain ⟨hkey, decoder, hdecoder, hfound⟩ := hnothing
  obtain ⟨type, htype, hown, v, htakes⟩ := h.exists_takes_of_mem hkey
  have hread := htakes.readMixin_eq
  rw [Symbol.readMixin_of_decoder? hdecoder, hfound] at hread
  obtain ⟨issues, hintake⟩ := Symbol.settle_eq_none_iff.mp hread.symm
  rw [hintake] at htakes
  rw [MixinType.eq_location_of_dropped htype hintake] at hown
  exact ⟨(Option.some_inj.mp hown).symm, issues, htakes⟩

end Registry.OnlyBuiltin

/-- A coder without registrations has the built-in descriptors only. -/
theorem Coder.onlyBuiltin_new (indent : Bool) : (new indent).snapshot.OnlyBuiltin := by
  intro key hcontains
  cases hbuiltin : Registry.isBuiltin key with
  | true => rfl
  | false =>
    rw [Registry.contains, Registry.resolve?_of_free hbuiltin] at hcontains
    nomatch hcontains

namespace Symbol

variable {registry : Registry} {record : Entries Value} {symbol : Symbol}

/-! ## What a symbol keeps -/

/-- A symbol keeps what a record has under a key. -/
inductive Kept (registry : Registry) (record : Entries Value) (symbol : Symbol) (key : String) :
    Prop where
  /-- The key is that of a core field, and the core fields are those of the record. -/
  | core (hkey : Core.isKey key = true) (hcore : symbol.toCore.ReadFrom record)
  /-- The symbol has under the key the mixin that is made of the payload. -/
  | mixin (m : Mixin) (hget : symbol.mixins.get? key = some m)
    (htakes : Takes registry record key (.mixin m))

/-- **Where nothing is reported, everything is kept** but what a decoder gives up. -/
theorem kept_or_givesNothing (h : registry.Standard)
    (hdecode : (decode registry (.object record)).outcome = .ok symbol)
    (hleft : unrecognizedKeys registry record = []) {key : String} (hkey : key ∈ record.keys) :
    Kept registry record symbol key ∨ GivesNothing registry record key := by
  obtain ⟨hread, hloop⟩ := decode_object_ok_iff.mp hdecode
  cases hcore : Core.isKey key with
  | true => exact .inl (.core hcore (readCore_eq_ok_iff.mp hread))
  | false =>
    cases hget : symbol.mixins.get? key with
    | some m => exact .inl (.mixin m hget ((get?_eq_some_iff_takes h hloop key m).mp hget))
    | none =>
      have hmissing := (missing_iff hdecode key).mp
        ⟨hkey, hcore, (Entries.get?_eq_none_iff _ _).mp hget⟩
      rw [hleft] at hmissing
      exact .inr (hmissing.resolve_left List.not_mem_nil)

/-- **Every key is accounted for.**  The keys of a record are core keys, decodable keys and keys
that are reported, each of one kind only, and the reported ones are in ascending order.  A symbol
has what the decoders found under the decodable keys, and of the keys beside the core keys it lacks
those that are reported and those that a decoder gave up.  With the built-in descriptors, the only
key that is given up is that of locations.  So a file that is accepted strictly consists of records
of which everything is kept, but for malformed locations. -/
theorem every_key_accounted_for [Wording] :
    (∀ (registry : Registry) (record : Entries Value),
      (coreKeys record ++ decodableKeys registry record ++ unrecognizedKeys registry record).Nodup ∧
      (∀ key, key ∈ coreKeys record ++ decodableKeys registry record ++
        unrecognizedKeys registry record ↔ key ∈ record.keys) ∧
      (unrecognizedKeys registry record).Pairwise (· < ·) ∧
      ∀ symbol, (decode registry (.object record)).outcome = .ok symbol →
        (∀ key ∈ decodableKeys registry record, ∃ decoder, registry.decoder? key = some decoder ∧
          (decoder key record).outcome = .ok (symbol.mixins.get? key)) ∧
        ∀ key, (key ∈ record.keys ∧ Core.isKey key = false ∧ key ∉ symbol.mixins.keys) ↔
          key ∈ unrecognizedKeys registry record ∨ GivesNothing registry record key) ∧
    ∀ registry : Registry, registry.OnlyBuiltin →
      (∀ record key, GivesNothing registry record key → key = "location") ∧
      ∀ (path : Path) (node? : Option FileNode) (verdict : Verdict),
        (Verdict.ofFile registry true path node?).outcome = .ok verdict → verdict.ok = true →
        ∃ content, node? = some (.file content) ∧ ∀ part ∈ Verdict.parts path content,
          ∃ (record : Entries Value) (symbol : Symbol), part.value? = some (.object record) ∧
            (decode registry (.object record)).outcome = .ok symbol ∧
            ∀ key ∈ record.keys, Kept registry record symbol key ∨
              key = "location" ∧ ∃ issues, Takes registry record key (.dropped issues) := by
  refine ⟨fun registry record => ⟨nodup_kinds registry record, fun key => mem_kinds_iff,
    pairwise_unrecognizedKeys registry record, fun symbol hdecode =>
      ⟨fun key hkey => outcome_decoder_of_decode hdecode hkey, missing_iff hdecode⟩⟩,
    fun registry honly => ⟨fun record key hnothing => (honly.dropped_of_givesNothing hnothing).1,
      fun path node? verdict hverdict hok => ?_⟩⟩
  have herrors : verdict.errors = [] := List.isEmpty_iff.mp hok
  obtain ⟨content, rfl, hcontent⟩ := Verdict.exists_content_of_ofFile hverdict herrors
  refine ⟨content, rfl, fun part hpart => ?_⟩
  obtain ⟨v, symbol, hv, hdecode, hleft⟩ :=
    (Verdict.errors_ofContent_eq_nil_iff honly.standard hcontent).mp herrors part hpart
  obtain ⟨record, rfl, -, -⟩ := decode_ok_iff.mp hdecode
  refine ⟨record, symbol, hv, hdecode, fun key hkey => ?_⟩
  exact (kept_or_givesNothing honly.standard hdecode hleft hkey).imp_right
    honly.dropped_of_givesNothing

/-- The record with a note and with a location that is given up, without its note. -/
def unplaced : Entries Value := plainRecord.erase "note"

/-- A content with that record on its only line. -/
def unplacedContent : Bytes := Utf8.encode (Json.write .compact 0 (.object unplaced))

attribute [local instance] Wording.plain

/-- A file with that record on its only line is accepted strictly, although the location of the
record is given up and so the symbol has no mixins. -/
theorem unplaced_accounted_for :
    (Verdict.ofFile (Coder.new false).snapshot true (Path.ofText "kit.jsonl")
        (some (.file unplacedContent))).outcome.map Verdict.ok = .ok true ∧
      ∃ symbol, (decode (Coder.new false).snapshot (.object unplaced)).outcome = .ok symbol ∧
        symbol.mixins.keys = [] ∧
        ∀ key ∈ unplaced.keys, Kept (Coder.new false).snapshot unplaced symbol key ∨
          key = "location" ∧
            ∃ issues, Takes (Coder.new false).snapshot unplaced key (.dropped issues) := by
  have haccepted : (Verdict.ofFile (Coder.new false).snapshot true (Path.ofText "kit.jsonl")
      (some (.file unplacedContent))).outcome.map Verdict.ok = .ok true := by decide +kernel
  refine ⟨haccepted, ?_⟩
  cases hverdict : (Verdict.ofFile (Coder.new false).snapshot true (Path.ofText "kit.jsonl")
      (some (.file unplacedContent))).outcome with
  | error failure =>
    rw [hverdict] at haccepted
    nomatch haccepted
  | ok verdict =>
    rw [hverdict] at haccepted
    obtain ⟨content, hcontent, hparts⟩ :=
      (every_key_accounted_for.2 _ (Coder.onlyBuiltin_new false)).2 _ _ verdict hverdict
        (Except.ok.inj haccepted)
    obtain rfl := FileNode.file.inj (Option.some_inj.mp hcontent)
    have hvalues : (Verdict.parts (Path.ofText "kit.jsonl") unplacedContent).map
        Verdict.Part.value? = [some (.object unplaced)] := by decide +kernel
    obtain ⟨part, hpart, hvalue⟩ := List.mem_map.mp (hvalues ▸ List.mem_singleton_self _)
    obtain ⟨record, symbol, hrecord, hdecode, hkept⟩ := hparts part hpart
    obtain rfl := Value.object.inj (Option.some_inj.mp (hvalue.symm.trans hrecord))
    have hkeys : (decode (Coder.new false).snapshot (.object unplaced)).outcome.map
        (fun symbol => symbol.mixins.keys) = .ok [] := by decide +kernel
    rw [hdecode] at hkeys
    exact ⟨symbol, hdecode, Except.ok.inj hkeys, hkept⟩

end Symbol

end SymbolRecord
