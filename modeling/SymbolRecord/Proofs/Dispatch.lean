import SymbolRecord.Proofs.Encoding
import SymbolRecord.Proofs.Outcome
/-!
# Which keys count

Decoding goes over all keys of a record beside those of the core fields, but only the keys that
resolve to a decoder bear on its outcome; encoding goes over all mixins, but only those under a key
that resolves to an encoder are written.  This module states both loops through the keys that
count, so that two runs can be compared key by key: runs on two registries, which agree when the
keys that count resolve alike, and runs on two records, which agree when they have the same values
where something is read.

A registry is asked about keys beside those of the core fields only.  This is not one guard but
three, one for each of decoding, encoding and reporting what is left out, and `Registry.Alike` is
what all three amount to.

* `Registry.Alike.decode_eq`, `Registry.Alike.encode_eq`, `Registry.Alike.reportUnrecognized_eq`:
  registries that resolve alike.
* `Symbol.decodableKeys`: the keys that decoding hands to a decoder.
* `Symbol.readMixins_congr`, `Symbol.outcome_readMixins_decodableKeys`: the loop of decoding.
* `Symbol.outcome_encode`: what encoding yields, in the order in which it is written.
-/

namespace SymbolRecord

/-! ## Registries that resolve alike -/

namespace Registry

/-- A key that is not built in resolves to what is registered under it. -/
theorem resolve?_of_free {key : String} (h : isBuiltin key = false) (registry : Registry) :
    registry.resolve? key = registry.extensions.get? key := by
  rw [isBuiltin, Entries.has, Option.isSome_eq_false_iff, Option.isNone_iff_eq_none] at h
  rw [resolve?, h]

/-- Two registries are alike when every key beside those of the core fields resolves to the same
descriptor in both. -/
def Alike (a b : Registry) : Prop :=
  ∀ key, Core.isKey key = false → a.resolve? key = b.resolve? key

variable {a b : Registry}

theorem Alike.decoder?_eq (h : a.Alike b) {key : String} (hkey : Core.isKey key = false) :
    a.decoder? key = b.decoder? key := by
  rw [decoder?, decoder?, h key hkey]

theorem Alike.mixinEncoder?_eq (h : a.Alike b) (key : String) :
    Symbol.mixinEncoder? a key = Symbol.mixinEncoder? b key := by
  rw [Symbol.mixinEncoder?, Symbol.mixinEncoder?]
  cases hkey : Core.isKey key with
  | true => rfl
  | false => rw [encoder?, encoder?, h key hkey]

/-- One loop over keys, two registries: each step is the same. -/
theorem Alike.readMixins_eq (h : a.Alike b) (record : Entries Value) :
    ∀ (ks : List String) (mixins : Table Mixin), (∀ key ∈ ks, Core.isKey key = false) →
      Symbol.readMixins a record ks mixins = Symbol.readMixins b record ks mixins
  | [], _, _ => rfl
  | key :: rest, mixins, hks => by
    obtain ⟨hkey, hrest⟩ := List.forall_mem_cons.mp hks
    rw [Symbol.readMixins, Symbol.readMixins, h.decoder?_eq hkey]
    simp only [fun mixins => h.readMixins_eq record rest mixins hrest]

/-- Registries that are alike decode every value alike, notes included. -/
theorem Alike.decode_eq (h : a.Alike b) (v : Value) : Symbol.decode a v = Symbol.decode b v := by
  cases v with
  | object record =>
    rw [Symbol.decode, Symbol.decode, h.readMixins_eq record _ _ fun key hkey =>
      (Symbol.mem_otherKeys.mp hkey).2]
  | _ => rfl

theorem Alike.writeMixins_eq (h : a.Alike b) (mixins : Table Mixin) :
    ∀ (ks : List String) (container : Entries Value),
      Symbol.writeMixins a mixins ks container = Symbol.writeMixins b mixins ks container
  | [], _ => rfl
  | key :: rest, container => by
    rw [Symbol.writeMixins, Symbol.writeMixins, h.mixinEncoder?_eq]
    simp only [h.writeMixins_eq mixins rest]

/-- Registries that are alike encode every symbol alike, notes included. -/
theorem Alike.encode_eq (h : a.Alike b) (symbol : Symbol) :
    symbol.encode a = symbol.encode b :=
  h.writeMixins_eq _ _ _

theorem Alike.unrecognizedKeys_eq (h : a.Alike b) (record : Entries Value) :
    Symbol.unrecognizedKeys a record = Symbol.unrecognizedKeys b record := by
  refine List.filter_congr fun key hkey => ?_
  rw [Symbol.isUnrecognized, Symbol.isUnrecognized,
    h.decoder?_eq (Symbol.mem_otherKeys.mp hkey).2]

/-- Registries that are alike report the same keys as left out, notes included. -/
theorem Alike.reportUnrecognized_eq (h : a.Alike b) (record : Entries Value) :
    Symbol.reportUnrecognized a record = Symbol.reportUnrecognized b record := by
  rw [Symbol.reportUnrecognized, Symbol.reportUnrecognized, h.unrecognizedKeys_eq]

end Registry

/-! ## The keys that are read -/

namespace Registry

/-- The decoder that a key resolves to, if there is one, is the decoder of a mixin type. -/
def ReadsPlainly (registry : Registry) (key : String) : Prop :=
  ∀ decoder, registry.decoder? key = some decoder → ∃ type : MixinType, decoder = type.decode

theorem Standard.readsPlainly {registry : Registry} (h : registry.Standard) (key : String) :
    registry.ReadsPlainly key :=
  fun _ hdecoder => h.decoder hdecoder

theorem Standard.writesPlainly {registry : Registry} (h : registry.Standard) (key : String) :
    registry.WritesPlainly key := by
  intro encoder hencoder
  obtain ⟨descriptor, hresolve, hsome⟩ := Option.bind_eq_some_iff.mp hencoder
  obtain ⟨type, hof⟩ := h key descriptor hresolve
  rcases hof.encoder with hnone | hplain
  · exact absurd (hnone.symm.trans hsome) (by simp)
  · exact Option.some_inj.mp (hsome.symm.trans hplain)

end Registry

namespace Symbol

/-- The keys of a record that decoding hands to a decoder, in ascending order. -/
def decodableKeys (registry : Registry) (record : Entries Value) : List String :=
  (otherKeys record).filter fun key => (registry.decoder? key).isSome

variable {registry registry' : Registry} {record record' : Entries Value}

theorem mem_decodableKeys {key : String} :
    key ∈ decodableKeys registry record ↔
      key ∈ record.keys ∧ Core.isKey key = false ∧ (registry.decoder? key).isSome := by
  rw [decodableKeys, List.mem_filter, mem_otherKeys, and_assoc]

theorem mem_unrecognizedKeys {key : String} :
    key ∈ unrecognizedKeys registry record ↔
      key ∈ record.keys ∧ Core.isKey key = false ∧ registry.decoder? key = none := by
  rw [unrecognizedKeys, List.mem_filter, mem_otherKeys, and_assoc, isUnrecognized,
    Option.isNone_iff_eq_none]

theorem pairwise_decodableKeys (registry : Registry) (record : Entries Value) :
    (decodableKeys registry record).Pairwise (· < ·) :=
  (pairwise_otherKeys record).filter _

theorem pairwise_unrecognizedKeys (registry : Registry) (record : Entries Value) :
    (unrecognizedKeys registry record).Pairwise (· < ·) :=
  (pairwise_otherKeys record).filter _

/-- Under a key without a decoder nothing is found, and nothing fails. -/
theorem readMixin_of_decoder?_eq_none {key : String} (h : registry.decoder? key = none) :
    readMixin registry record key = .ok none := by
  rw [readMixin, h]

theorem readMixin_of_decoder? {key : String} {decoder : Decoder}
    (h : registry.decoder? key = some decoder) :
    readMixin registry record key = (decoder key record).outcome := by
  rw [readMixin, h]

/-- Two loops over the same keys end alike when each key comes to the same in both. -/
theorem readMixins_congr :
    ∀ {ks : List String} (mixins : Table Mixin),
      (∀ key ∈ ks, readMixin registry record key = readMixin registry' record' key) →
      (readMixins registry record ks mixins).outcome =
        (readMixins registry' record' ks mixins).outcome
  | [], _, _ => rfl
  | key :: rest, mixins, h => by
    obtain ⟨hkey, hrest⟩ := List.forall_mem_cons.mp h
    rw [outcome_readMixins_cons, outcome_readMixins_cons, hkey]
    congr 1
    funext found
    exact readMixins_congr (store key mixins found) hrest

/-- The loop may pass over the keys under which nothing is found. -/
theorem readMixins_filter (p : String → Bool) :
    ∀ {ks : List String} (mixins : Table Mixin),
      (∀ key ∈ ks, p key = false → readMixin registry record key = .ok none) →
      (readMixins registry record ks mixins).outcome =
        (readMixins registry record (ks.filter p) mixins).outcome
  | [], _, _ => rfl
  | key :: rest, mixins, h => by
    obtain ⟨hkey, hrest⟩ := List.forall_mem_cons.mp h
    rw [outcome_readMixins_cons, List.filter_cons]
    cases hp : p key with
    | false =>
      rw [hkey hp, if_neg Bool.false_ne_true]
      exact readMixins_filter p mixins hrest
    | true =>
      rw [if_pos rfl, outcome_readMixins_cons]
      congr 1
      funext found
      exact readMixins_filter p (store key mixins found) hrest

/-- **Decoding reads the decodable keys and nothing else.** -/
theorem outcome_readMixins_decodableKeys (mixins : Table Mixin) :
    (readMixins registry record (otherKeys record) mixins).outcome =
      (readMixins registry record (decodableKeys registry record) mixins).outcome := by
  refine readMixins_filter _ mixins fun key _ hnone => readMixin_of_decoder?_eq_none ?_
  rwa [Option.isSome_eq_false_iff, Option.isNone_iff_eq_none] at hnone

/-- What a decoder of a mixin type finds depends on the value under its key alone. -/
theorem readMixin_congr {key : String} (hplain : registry.ReadsPlainly key)
    (hget : (registry.decoder? key).isSome → record.get? key = record'.get? key) :
    readMixin registry record key = readMixin registry record' key := by
  cases hdecoder : registry.decoder? key with
  | none => rw [readMixin_of_decoder?_eq_none hdecoder, readMixin_of_decoder?_eq_none hdecoder]
  | some decoder =>
    obtain ⟨type, rfl⟩ := hplain decoder hdecoder
    rw [hdecoder] at hget
    rw [readMixin_of_decoder? hdecoder, readMixin_of_decoder? hdecoder, MixinType.decode,
      MixinType.decode, hget rfl]

/-! ## The core fields -/

/-- The core fields are read from the values under their keys alone, and so are their faults. -/
theorem readCore_congr (h : ∀ key, Core.isKey key = true → record.get? key = record'.get? key) :
    readCore record = readCore record' := by
  have hfaults : Core.faults record = Core.faults record' := by
    simp (disch := decide) only [Core.faults, h]
  cases hread : readCore record' with
  | error error =>
    rw [readCore_eq_error_iff, hfaults]
    exact readCore_eq_error_iff.mp hread
  | ok core =>
    obtain ⟨hidentifier, hkind, hpath, htype, hnames, hcomment, haccess⟩ :=
      readCore_eq_ok_iff.mp hread
    refine readCore_eq_ok_iff.mpr ⟨?_, ?_, ?_, ?_, ?_, ?_, ?_⟩ <;> rwa [h _ rfl]

/-! ## The mixins that are written -/

/-- What encoding appends to the core fields: the payload of each mixin that is written, in
ascending order of the keys. -/
def appended (registry : Registry) (mixins : Table Mixin) : Entries Value :=
  mixins.entries.sortedKeys.filterMap fun key =>
    (written? registry mixins key).map fun payload => (key, payload)

theorem foldl_afterWriting (mixins : Table Mixin) :
    ∀ {ks : List String} {container : Entries Value}, ks.Nodup →
      (∀ key ∈ ks, (written? registry mixins key).isSome → key ∉ container.keys) →
      ks.foldl (afterWriting registry mixins) container =
        container ++ ks.filterMap fun key =>
          (written? registry mixins key).map fun payload => (key, payload)
  | [], container, _, _ => by rw [List.foldl_nil, List.filterMap_nil, List.append_nil]
  | key :: rest, container, hnodup, hfresh => by
    obtain ⟨hkey, hrest⟩ := List.nodup_cons.mp hnodup
    rw [List.foldl_cons, List.filterMap_cons, afterWriting]
    cases hwritten : written? registry mixins key with
    | none =>
      exact foldl_afterWriting mixins hrest fun k hk => hfresh k (List.mem_cons_of_mem key hk)
    | some payload =>
      have hnew : key ∉ container.keys := hfresh key List.mem_cons_self (by rw [hwritten]; rfl)
      have hput : container.put key payload = container ++ [(key, payload)] :=
        Entries.put_of_notMem hnew payload
      simp only [Option.map_some]
      rw [hput, foldl_afterWriting mixins hrest, List.append_assoc, List.singleton_append]
      intro k hk hsome hmem
      rw [Entries.keys_append, List.mem_append] at hmem
      rcases hmem with hold | hlast
      · exact hfresh k (List.mem_cons_of_mem key hk) hsome hold
      · obtain rfl := List.mem_singleton.mp hlast
        exact hkey hk

theorem isKey_of_written? {mixins : Table Mixin} {key : String}
    (h : (written? registry mixins key).isSome) : Core.isKey key = false := by
  rw [written?, mixinEncoder?] at h
  cases hkey : Core.isKey key with
  | false => rfl
  | true => simp [hkey] at h

/-- **What encoding a symbol yields**, in the order in which it is written: the core fields, and
then the mixins that are written. -/
theorem outcome_encode {symbol : Symbol} (h : ∀ key, registry.WritesPlainly key) :
    (symbol.encode registry).outcome =
      .ok (symbol.toCore.wire ++ appended registry symbol.mixins) := by
  rw [encode, outcome_writeMixins symbol.mixins _ fun key _ => h key,
    foldl_afterWriting symbol.mixins (Entries.nodup_sortedKeys _), appended]
  intro key _ hsome hmem
  have hcore := isKey_of_written? hsome
  rw [Core.isKey_of_mem_keys_wire hmem] at hcore
  exact absurd hcore (by simp)

/-- A record with a note, and with a location that is given up. -/
def plainRecord : Entries Value :=
  [("accessLevel", .text "public"), ("identifier", .object [("precise", .text "s:f")]),
    ("kind", .object [("identifier", .text "func"), ("displayName", .text "F")]),
    ("location", .int 3), ("names", .object [("title", .text "f")]), ("note", .text "kept"),
    ("pathComponents", .list [.text "f"])]

end Symbol

end SymbolRecord
