import SymbolRecord.Proofs.Dispatch
import SymbolRecord.Proofs.Normal
/-!
# Larger registries

A registry may grow by descriptors under keys that it does not contain.  What it had is kept, so
growing only ever adds: keys are decoded that were left out, and mixins are written that were not.
It cannot take anything away, and a new descriptor can make a record fail only after the core fields
have been read, with the payload under its own key to blame.

The relation is on what keys resolve to.  A descriptor that is registered under a built-in key adds
nothing, and one under a core key is never looked up.

* `Registry.Extends`, `Coder.extends_add`: all that resolves in the one registry resolves alike in
  the other, as after registering under a key that nothing resolved.
* `DecodeError.isStructural`: failures for which no mixin is to blame.
* `Symbol.outcome_decode_of_extends`, `Symbol.exists_decode_or_payload_of_extends`,
  `Symbol.decode_eq_structural_iff`: decoding.
* `Symbol.unrecognizedKeys_of_extends`: the keys that are left out.
* `Symbol.appended_of_extends`: encoding.
* `Symbol.extends_only_adds`: all of it.
-/

namespace SymbolRecord

/-- A registry extends another one when it resolves every key that the other one resolves, to the
same descriptor. -/
def Registry.Extends (larger smaller : Registry) : Prop :=
  ∀ key descriptor, smaller.resolve? key = some descriptor → larger.resolve? key = some descriptor

/-- Whether a failure is about the record itself and not about the payload of a mixin. -/
def DecodeError.isStructural : DecodeError → Bool
  | .malformed _ => true
  | .notObject _ => true
  | .coreField _ _ => true
  | .payload _ _ => false

namespace Registry

variable {larger smaller : Registry}

theorem Extends.decoder?_eq (h : larger.Extends smaller) {key : String} {decoder : Decoder}
    (hdecoder : smaller.decoder? key = some decoder) : larger.decoder? key = some decoder := by
  obtain ⟨descriptor, hresolve, hsome⟩ := Option.bind_eq_some_iff.mp hdecoder
  exact Option.bind_eq_some_iff.mpr ⟨descriptor, h key descriptor hresolve, hsome⟩

theorem Extends.encoder?_eq (h : larger.Extends smaller) {key : String} {encoder : Encoder}
    (hencoder : smaller.encoder? key = some encoder) : larger.encoder? key = some encoder := by
  obtain ⟨descriptor, hresolve, hsome⟩ := Option.bind_eq_some_iff.mp hencoder
  exact Option.bind_eq_some_iff.mpr ⟨descriptor, h key descriptor hresolve, hsome⟩

theorem Extends.readsPlainly (h : larger.Extends smaller) {key : String}
    (hplain : larger.ReadsPlainly key) : smaller.ReadsPlainly key :=
  fun decoder hdecoder => hplain decoder (h.decoder?_eq hdecoder)

theorem Extends.writesPlainly (h : larger.Extends smaller) {key : String}
    (hplain : larger.WritesPlainly key) : smaller.WritesPlainly key :=
  fun encoder hencoder => hplain encoder (h.encoder?_eq hencoder)

/-- Whether a registry has a decoder for a key. -/
def reads (registry : Registry) (key : String) : Bool := (registry.decoder? key).isSome

/-- Whether the mixins under a key are written with the larger registry only. -/
def newlyWrites (larger smaller : Registry) (key : String) : Bool :=
  (Symbol.mixinEncoder? larger key).isSome && (Symbol.mixinEncoder? smaller key).isNone

end Registry

/-- A coder on which a descriptor is registered under a key that was not contained extends what it
was before. -/
theorem Coder.extends_add {coder : Coder} {descriptor : Descriptor}
    (h : coder.snapshot.contains descriptor.key = false) :
    (coder.add descriptor).snapshot.Extends coder.snapshot := by
  intro key found hresolve
  have hne : descriptor.key ≠ key := by
    rintro rfl
    rw [Registry.contains, hresolve] at h
    nomatch h
  cases hbuiltin : Registry.isBuiltin key with
  | true => rwa [Registry.resolve?_builtin _ coder.snapshot hbuiltin]
  | false =>
    rw [Registry.resolve?_of_free hbuiltin] at hresolve ⊢
    rw [Coder.snapshot, Coder.add, Table.get?_put, if_neg hne]
    exact hresolve

namespace Symbol

variable {larger smaller : Registry} {record : Entries Value}

/-! ## Decoding -/

/-- What the smaller registry finds under a key, the larger one finds there too. -/
theorem readMixin_of_extends (h : larger.Extends smaller) (key : String) :
    readMixin smaller record key =
      if smaller.reads key then readMixin larger record key else .ok none := by
  rw [Registry.reads]
  cases hdecoder : smaller.decoder? key with
  | none => exact readMixin_of_decoder?_eq_none hdecoder
  | some decoder =>
    rw [readMixin_of_decoder? hdecoder, readMixin_of_decoder? (h.decoder?_eq hdecoder)]
    rfl

/-- Where the loop succeeds with the larger registry, it succeeds with the smaller one, with the
mixins that the smaller one reads. -/
theorem readMixins_of_extends (h : larger.Extends smaller) {mixins : Table Mixin}
    (hloop : (readMixins larger record (otherKeys record) .empty).outcome = .ok mixins) :
    (readMixins smaller record (otherKeys record) .empty).outcome =
      .ok (mixins.restrict smaller.reads) := by
  have hread : ∀ key ∈ otherKeys record, readMixin smaller record key =
      .ok ((mixins.restrict smaller.reads).get? key) := fun key hkey => by
    rw [readMixin_of_extends h, Table.get?_restrict, (readMixin_of_readMixins hloop).1 hkey]
    cases smaller.reads key with
    | true => rfl
    | false => rfl
  obtain ⟨mixins', hloop', -⟩ :=
    exists_outcome_readMixins .empty fun key hkey => ⟨_, hread key hkey⟩
  rw [hloop', Except.ok.injEq]
  refine Table.eq_of_get?_eq (pairwise_keys_of_readMixins hloop') ?_ fun key => ?_
  · exact (pairwise_keys_of_readMixins hloop).sublist
      (List.Sublist.map _ List.filter_sublist)
  · obtain ⟨hin, hout⟩ := @readMixin_of_readMixins _ _ _ _ hloop' key
    by_cases hkey : key ∈ otherKeys record
    · exact Except.ok.inj ((hin hkey).symm.trans (hread key hkey))
    · rw [hout hkey, Table.get?_restrict, (readMixin_of_readMixins hloop).2 hkey, ite_self]

/-- **What is decoded with the larger registry is decoded with the smaller one**, less the mixins
that the smaller one does not read. -/
theorem outcome_decode_of_extends (h : larger.Extends smaller) {symbol : Symbol}
    (hdecode : (decode larger (.object record)).outcome = .ok symbol) :
    (decode smaller (.object record)).outcome =
      .ok { symbol with mixins := symbol.mixins.restrict smaller.reads } := by
  obtain ⟨hcore, hloop⟩ := decode_object_ok_iff.mp hdecode
  exact decode_object_ok_iff.mpr ⟨hcore, readMixins_of_extends h hloop⟩

/-- A decoder of a mixin type fails by refusing the payload under its key. -/
theorem exists_report_of_readMixin {registry : Registry} {key : String}
    (hplain : registry.ReadsPlainly key) {failure : Failure}
    (hread : readMixin registry record key = .error failure) :
    registry.reads key = true ∧ ∃ report, failure = .decode (.payload key report) := by
  rw [Registry.reads]
  cases hdecoder : registry.decoder? key with
  | none => nomatch (readMixin_of_decoder?_eq_none hdecoder).symm.trans hread
  | some decoder =>
    obtain ⟨type, rfl⟩ := hplain decoder hdecoder
    rw [readMixin_of_decoder? hdecoder] at hread
    unfold MixinType.decode MixinType.intake at hread
    split at hread
    · split at hread
      · nomatch hread
      · nomatch hread
      · next report _ => exact ⟨rfl, report, (Except.error.inj hread).symm⟩
    · nomatch hread

/-- **What is decoded with the smaller registry may fail with the larger one**, but only by the
payload under a key that the smaller one does not read. -/
theorem exists_decode_or_payload_of_extends (h : larger.Extends smaller)
    (hplain : ∀ key, larger.ReadsPlainly key) {symbol : Symbol}
    (hdecode : (decode smaller (.object record)).outcome = .ok symbol) :
    (∃ symbol', (decode larger (.object record)).outcome = .ok symbol') ∨
      ∃ key report, (decode larger (.object record)).outcome =
          .error (.decode (.payload key report)) ∧
        larger.reads key = true ∧ smaller.reads key = false := by
  obtain ⟨hcore, hloop⟩ := decode_object_ok_iff.mp hdecode
  rw [outcome_decode_object, hcore]
  cases hlarger : (readMixins larger record (otherKeys record) .empty).outcome with
  | ok mixins => exact .inl ⟨_, rfl⟩
  | error failure =>
    obtain ⟨before, key, after, hsplit, -, hkey⟩ := readMixins_eq_error_iff.mp hlarger
    obtain ⟨hreads, report, rfl⟩ := exists_report_of_readMixin (hplain key) hkey
    refine .inr ⟨key, report, rfl, hreads, ?_⟩
    have hmem : key ∈ otherKeys record := by
      rw [hsplit]
      exact List.mem_append_right _ List.mem_cons_self
    obtain ⟨found, hfound⟩ := exists_readMixin_of_readMixins hloop key hmem
    cases hsmaller : smaller.reads key with
    | false => rfl
    | true =>
      rw [readMixin_of_extends h, if_pos hsmaller, hkey] at hfound
      nomatch hfound

/-- **A structural failure is the failure of the core fields**, whatever the registry. -/
theorem decode_eq_structural_iff {registry : Registry} (hplain : ∀ key, registry.ReadsPlainly key)
    {error : DecodeError} (herror : error.isStructural = true) :
    (decode registry (.object record)).outcome = .error (.decode error) ↔
      readCore record = .error error := by
  rw [outcome_decode_object]
  cases readCore record with
  | error error' => simp
  | ok core =>
    refine iff_of_false (fun hdecode => ?_) (by simp)
    cases hloop : (readMixins registry record (otherKeys record) .empty).outcome with
    | ok mixins =>
      rw [hloop] at hdecode
      nomatch hdecode
    | error failure =>
      rw [hloop] at hdecode
      obtain rfl := Except.error.inj hdecode
      obtain ⟨-, key, -, -, -, hkey⟩ := readMixins_eq_error_iff.mp hloop
      obtain ⟨-, report, heq⟩ := exists_report_of_readMixin (hplain key) hkey
      rw [Failure.decode.inj heq] at herror
      nomatch herror

/-! ## Keys that are left out -/

/-- The larger registry leaves out those of the keys for which it has no decoder either. -/
theorem unrecognizedKeys_of_extends (h : larger.Extends smaller) (record : Entries Value) :
    unrecognizedKeys larger record =
      (unrecognizedKeys smaller record).filter fun key => !larger.reads key := by
  rw [unrecognizedKeys, unrecognizedKeys, List.filter_filter]
  refine List.filter_congr fun key _ => ?_
  rw [isUnrecognized, isUnrecognized, Registry.reads, Option.not_isSome]
  cases hlarger : larger.decoder? key with
  | some decoder => rfl
  | none =>
    cases hsmaller : smaller.decoder? key with
    | none => rfl
    | some decoder => exact absurd (hlarger.symm.trans (h.decoder?_eq hsmaller)) (by simp)

/-! ## Encoding -/

theorem mixinEncoder?_of_extends (h : larger.Extends smaller) {key : String} {encoder : Encoder}
    (hencoder : mixinEncoder? smaller key = some encoder) :
    mixinEncoder? larger key = some encoder := by
  rw [mixinEncoder?] at hencoder ⊢
  split at hencoder
  · cases hencoder
  · next hkey =>
    rw [if_neg hkey]
    exact h.encoder?_eq hencoder

/-- What the smaller registry writes, the larger one writes too. -/
theorem written?_of_extends (h : larger.Extends smaller) (mixins : Table Mixin) (key : String) :
    written? smaller mixins key =
      if larger.newlyWrites smaller key then none else written? larger mixins key := by
  rw [Registry.newlyWrites, written?, written?]
  cases hsmaller : mixinEncoder? smaller key with
  | some encoder =>
    rw [mixinEncoder?_of_extends h hsmaller]
    rfl
  | none =>
    cases mixinEncoder? larger key with
    | none => rfl
    | some encoder => rfl

/-- The mixins that the smaller registry writes are those of the larger one that are not new. -/
theorem appended_of_extends (h : larger.Extends smaller) (mixins : Table Mixin) :
    appended smaller mixins =
      (appended larger mixins).filter fun entry => !larger.newlyWrites smaller entry.1 := by
  rw [appended, appended, List.filter_filterMap]
  refine List.filterMap_congr fun key _ => ?_
  rw [written?_of_extends h]
  cases hnew : larger.newlyWrites smaller key with
  | true =>
    cases written? larger mixins key with
    | none => rfl
    | some payload => simp [Option.filter, hnew]
  | false =>
    cases written? larger mixins key with
    | none => rfl
    | some payload => simp [Option.filter, hnew]

/-- Core fields are not new: no registry writes anything in their place. -/
theorem newlyWrites_of_mem_wire {core : Core} {entry : String × Value}
    (hentry : entry ∈ core.wire) : larger.newlyWrites smaller entry.1 = false := by
  have hkey : Core.isKey entry.1 = true :=
    Core.isKey_of_mem_keys_wire (Entries.mem_keys.mpr ⟨entry.2, hentry⟩)
  rw [Registry.newlyWrites, mixinEncoder?, if_pos hkey]
  rfl

/-- **What is encoded with the smaller registry is what the larger one encodes**, less the mixins
that only the larger one writes. -/
theorem encode_of_extends (h : larger.Extends smaller) (hplain : ∀ key, larger.WritesPlainly key)
    {symbol : Symbol} {container container' : Entries Value}
    (hsmaller : (symbol.encode smaller).outcome = .ok container)
    (hlarger : (symbol.encode larger).outcome = .ok container') :
    container = container'.filter fun entry => !larger.newlyWrites smaller entry.1 := by
  rw [outcome_encode hplain, Except.ok.injEq] at hlarger
  rw [outcome_encode fun key => h.writesPlainly (hplain key), Except.ok.injEq] at hsmaller
  rw [← hlarger, ← hsmaller, List.filter_append, ← appended_of_extends h,
    List.filter_eq_self.mpr fun entry hentry => by rw [newlyWrites_of_mem_wire hentry]; rfl]

/-! ## All of it -/

/-- **Growing only adds.**  Let a registry extend another one, with descriptors of mixin types.
What is decoded with the larger one is decoded with the smaller one, with the same core fields and
those of the mixins that the smaller one reads; what is decoded with the smaller one fails with the
larger one by a payload under a new key, if at all.  Both fail for the same structural reasons.  The
keys that the larger one leaves out are among those that the smaller one leaves out, in the same
order, and the others are those for which it has a new decoder.  The objects that both encode
differ in the mixins that only the larger one writes. -/
theorem extends_only_adds (larger smaller : Registry) (hextends : larger.Extends smaller)
    (hreads : ∀ key, larger.ReadsPlainly key) (hwrites : ∀ key, larger.WritesPlainly key)
    (record : Entries Value) :
    (∀ symbol, (decode larger (.object record)).outcome = .ok symbol →
      (decode smaller (.object record)).outcome =
        .ok { symbol with mixins := symbol.mixins.restrict smaller.reads }) ∧
    (∀ symbol, (decode smaller (.object record)).outcome = .ok symbol →
      (∃ symbol', (decode larger (.object record)).outcome = .ok symbol') ∨
        ∃ key report, (decode larger (.object record)).outcome =
            .error (.decode (.payload key report)) ∧
          larger.reads key = true ∧ smaller.reads key = false) ∧
    (∀ error : DecodeError, error.isStructural = true →
      ((decode smaller (.object record)).outcome = .error (.decode error) ↔
        (decode larger (.object record)).outcome = .error (.decode error))) ∧
    (unrecognizedKeys larger record).Sublist (unrecognizedKeys smaller record) ∧
    (∀ key, key ∈ unrecognizedKeys smaller record ∧ key ∉ unrecognizedKeys larger record ↔
      key ∈ record.keys ∧ Core.isKey key = false ∧ larger.reads key = true ∧
        smaller.reads key = false) ∧
    ∀ (symbol : Symbol) (container container' : Entries Value),
      (symbol.encode smaller).outcome = .ok container →
      (symbol.encode larger).outcome = .ok container' →
      container = container'.filter fun entry => !larger.newlyWrites smaller entry.1 := by
  refine ⟨fun symbol => outcome_decode_of_extends hextends,
    fun symbol => exists_decode_or_payload_of_extends hextends hreads, fun error herror => ?_, ?_,
    fun key => ?_, fun symbol container container' => encode_of_extends hextends hwrites⟩
  · rw [decode_eq_structural_iff hreads herror,
      decode_eq_structural_iff (fun key => hextends.readsPlainly (hreads key)) herror]
  · rw [unrecognizedKeys_of_extends hextends]
    exact List.filter_sublist
  · rw [unrecognizedKeys_of_extends hextends, List.mem_filter, mem_unrecognizedKeys]
    simp only [Registry.reads]
    cases larger.decoder? key with
    | none => simp
    | some decoder =>
      cases smaller.decoder? key with
      | none => simp
      | some decoder' => simp

/-- Registering notes on a new coder adds the note of a record that has one, and takes its key off
the keys that are left out. -/
theorem noting_only_adds :
    (Coder.new false).snapshot.contains "note" = false ∧
      unrecognizedKeys (Coder.new false).snapshot plainRecord = ["note"] ∧
      unrecognizedKeys Coder.noting.snapshot plainRecord = [] ∧
      ∃ symbol, (decode Coder.noting.snapshot (.object plainRecord)).outcome = .ok symbol ∧
        symbol.mixins.keys = ["note"] ∧
        (decode (Coder.new false).snapshot (.object plainRecord)).outcome = .ok { symbol with
          mixins := symbol.mixins.restrict (Coder.new false).snapshot.reads } := by
  have hnew : (Coder.new false).snapshot.contains "note" = false := by decide
  refine ⟨hnew, by decide +kernel, by decide +kernel, ?_⟩
  have hkeys : (decode Coder.noting.snapshot (.object plainRecord)).outcome.map
      (fun symbol => symbol.mixins.keys) = .ok ["note"] := by decide +kernel
  cases hdecode : (decode Coder.noting.snapshot (.object plainRecord)).outcome with
  | error failure =>
    rw [hdecode] at hkeys
    nomatch hkeys
  | ok symbol =>
    rw [hdecode] at hkeys
    have hstandard := Coder.stable_noting.snapshot.standard
    exact ⟨symbol, rfl, Except.ok.inj hkeys,
      (extends_only_adds Coder.noting.snapshot (Coder.new false).snapshot (Coder.extends_add hnew)
        hstandard.readsPlainly hstandard.writesPlainly plainRecord).1 symbol hdecode⟩

end Symbol

end SymbolRecord
