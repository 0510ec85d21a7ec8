import SymbolRecord.Proofs.Decoding
import SymbolRecord.Proofs.Encoding
import SymbolRecord.Proofs.Mixin
import SymbolRecord.Proofs.Standard
/-!
# Symbols come back from their objects

A symbol that is encoded and decoded again loses its mixins under core keys and under keys that
cannot be both written and read, and nothing else.  This holds for every registry in which a key
resolves to the descriptor of the type whose mixin is stored under it, or to that descriptor
without its encoder or its decoder.

* `Mixin.HasType`: the type that reads a mixin from its own payload.
* `Registry.carries`: the keys whose mixins come back.
* `Symbol.decode_encode`: the round trip.
-/

namespace SymbolRecord

/-- A mixin is of its built-in type, or of a type of its name and key that reads it back. -/
def Mixin.HasType : Mixin → MixinType → Prop
  | .extension m, type =>
    type.name = m.name ∧ type.key? = m.key? ∧ type.read m.payload = .mixin (.extension m)
  | m, type => m.builtinType? = some type

theorem Mixin.HasType.exists_read {m : Mixin} {type : MixinType} (h : m.HasType type)
    (hm : m.Readable) : ∃ m', type.read m.payload = .mixin m' ∧ m'.Alike m := by
  cases m with
  | extension e => exact ⟨_, h.2.2, alike_self _⟩
  | _ => exact exists_read_of_alike h hm (.refl _)

/-- Whether what is stored under a key is both written and read. -/
def Registry.carries (registry : Registry) (key : String) : Bool :=
  !Core.isKey key && (registry.encoder? key).isSome && (registry.decoder? key).isSome

namespace Symbol

/-- A registry fits a symbol when each key of a mixin resolves to nothing or to the descriptor of
the mixin's type. -/
def Fits (symbol : Symbol) (registry : Registry) : Prop :=
  ∀ key m descriptor, symbol.mixins.get? key = some m → registry.resolve? key = some descriptor →
    ∃ type, m.HasType type ∧ descriptor.IsOf type key

variable {symbol : Symbol} {registry : Registry}

theorem Fits.writesPlainly (h : symbol.Fits registry) {key : String}
    (hkey : key ∈ symbol.mixins.keys) : registry.WritesPlainly key := by
  intro encoder hencoder
  obtain ⟨m, hm⟩ := Option.isSome_iff_exists.mp (Entries.isSome_get?_iff.mpr hkey)
  obtain ⟨descriptor, hdescriptor, hencoder⟩ := Option.bind_eq_some_iff.mp hencoder
  obtain ⟨type, -, hof⟩ := h key m descriptor hm hdescriptor
  rcases hof.encoder with hnone | hsome
  · exact absurd (hnone.symm.trans hencoder) (by simp)
  · exact Option.some_inj.mp (hencoder.symm.trans hsome)

/-- What is found under a key in a record that has the payload of a mixin there. -/
theorem Fits.readMixin (h : symbol.Fits registry) {key : String} {m : Mixin}
    (hm : symbol.mixins.get? key = some m) (hreadable : m.Readable) {record : Entries Value}
    (hrecord : record.get? key = some m.payload) :
    (registry.decoder? key = none ∧ Symbol.readMixin registry record key = .ok none) ∨
      (registry.decoder? key).isSome ∧
        ∃ m', Symbol.readMixin registry record key = .ok (some m') ∧ m'.Alike m := by
  cases hdecoder : registry.decoder? key with
  | none =>
    refine Or.inl ⟨rfl, ?_⟩
    rw [Symbol.readMixin, hdecoder]
  | some decoder =>
    refine Or.inr ⟨rfl, ?_⟩
    obtain ⟨descriptor, hdescriptor, hsome⟩ := Option.bind_eq_some_iff.mp hdecoder
    obtain ⟨type, htype, hof⟩ := h key m descriptor hm hdescriptor
    have hdecode : decoder = type.decode := by
      rcases hof.decoder with hnone | hdefault
      · exact absurd (hnone.symm.trans hsome) (by simp)
      · exact Option.some_inj.mp (hsome.symm.trans hdefault)
    obtain ⟨m', hread, halike⟩ := htype.exists_read hreadable
    refine ⟨m', ?_, halike⟩
    rw [Symbol.readMixin, hdecoder, hdecode]
    simp only [MixinType.decode, hrecord, MixinType.intake, hread, Run.outcome_ok]

/-- What stands in the object of a symbol beside its core fields. -/
theorem exists_mixin_of_get?_encode {container : Entries Value}
    (hget : ∀ key, Entries.get? container key =
      (written? registry symbol.mixins key).or (Entries.get? symbol.toCore.wire key))
    {key : String} (hkey : key ∈ otherKeys container) :
    (registry.encoder? key).isSome ∧ ∃ m, symbol.mixins.get? key = some m ∧
      Entries.get? container key = some m.payload := by
  obtain ⟨hmem, hcore⟩ := mem_otherKeys.mp hkey
  obtain ⟨v, hv⟩ := Option.isSome_iff_exists.mp (Entries.isSome_get?_iff.mpr hmem)
  have hwritten := hget key
  rw [symbol.toCore.get?_wire_of_not_isKey hcore, Option.or_none, hv, written?, mixinEncoder?,
    if_neg (by simp [hcore])] at hwritten
  obtain ⟨encoder, hencoder, hpayload⟩ := Option.bind_eq_some_iff.mp hwritten.symm
  obtain ⟨m, hm, rfl⟩ := Option.map_eq_some_iff.mp hpayload
  exact ⟨by rw [hencoder]; rfl, m, hm, hv⟩

/-- What is written under a key that is carried stands in the object of the symbol. -/
theorem get?_restrict_of_notMem {container : Entries Value}
    (hget : ∀ key, Entries.get? container key =
      (written? registry symbol.mixins key).or (Entries.get? symbol.toCore.wire key))
    {key : String} (hkey : key ∉ otherKeys container) :
    (symbol.mixins.restrict registry.carries).get? key = none := by
  rw [Table.get?_restrict]
  split
  · next hcarries =>
    rw [Registry.carries, Bool.and_eq_true, Bool.and_eq_true, Bool.not_eq_true'] at hcarries
    obtain ⟨⟨hcore, hencoder⟩, -⟩ := hcarries
    obtain ⟨encoder, hencoder⟩ := Option.isSome_iff_exists.mp hencoder
    cases hm : symbol.mixins.get? key with
    | none => rfl
    | some m =>
      refine absurd (mem_otherKeys.mpr ⟨?_, hcore⟩) hkey
      rw [← Entries.isSome_get?_iff, hget, written?, mixinEncoder?, if_neg (by simp [hcore]),
        hencoder, Option.bind_some, hm]
      rfl
  · rfl

/-- What is decoded from the object of a symbol under one of its keys. -/
theorem Fits.rel_of_mem (hfits : symbol.Fits registry)
    (hreadable : ∀ key m, symbol.mixins.get? key = some m → m.Readable)
    {container : Entries Value}
    (hget : ∀ key, Entries.get? container key =
      (written? registry symbol.mixins key).or (Entries.get? symbol.toCore.wire key))
    {decoded : Symbol} (hdecode : (decode registry (.object container)).outcome = .ok decoded)
    {key : String} (hkey : key ∈ otherKeys container) :
    Option.Rel Mixin.Alike (decoded.mixins.get? key)
      ((symbol.mixins.restrict registry.carries).get? key) := by
  obtain ⟨hmem, hcore⟩ := mem_otherKeys.mp hkey
  obtain ⟨hencoder, m, hm, hpayload⟩ := exists_mixin_of_get?_encode hget hkey
  have hread := readMixin_of_decode hdecode hmem hcore
  rw [Table.get?_restrict]
  rcases hfits.readMixin hm (hreadable key m hm) hpayload with
    ⟨hdecoder, hnone⟩ | ⟨hdecoder, m', hsome, halike⟩
  · have hmissing : none = decoded.mixins.get? key := Except.ok.inj (hnone.symm.trans hread)
    have hcarries : registry.carries key = false := by
      rw [Registry.carries, hdecoder, Option.isSome_none, Bool.and_false]
    rw [← hmissing, hcarries]
    exact .none
  · have hstored : some m' = decoded.mixins.get? key := Except.ok.inj (hsome.symm.trans hread)
    have hcarries : registry.carries key = true := by
      rw [Registry.carries, hdecoder, hencoder, hcore]
      rfl
    rw [← hstored, hcarries, if_pos rfl, hm]
    exact .some halike

/-- **The round trip of a symbol.**  Encoding succeeds, decoding its result succeeds, the core
fields come back as they were, and the mixins that come back are exactly those under keys that are
written and read. -/
theorem decode_encode (symbol : Symbol) (registry : Registry)
    (hkind : KindIdentifier.parse symbol.kind.identifier.token = symbol.kind.identifier)
    (hreadable : ∀ key m, symbol.mixins.get? key = some m → m.Readable)
    (hfits : symbol.Fits registry) :
    ∃ container decoded, (symbol.encode registry).outcome = .ok container ∧
      (decode registry (.object container)).outcome = .ok decoded ∧
      decoded.toCore = symbol.toCore ∧
      mixinsAgree decoded.mixins (symbol.mixins.restrict registry.carries) = true := by
  obtain ⟨container, hencode, -, hget⟩ :=
    exists_outcome_encode fun key hkey => hfits.writesPlainly hkey
  have hcore : readCore container = .ok symbol.toCore :=
    readCore_of_alike hkind fun key hkey => by rw [get?_core_of_encode hget hkey]
  have hfound : ∀ key ∈ otherKeys container,
      ∃ found, Symbol.readMixin registry container key = .ok found := by
    intro key hkey
    obtain ⟨-, m, hm, hpayload⟩ := exists_mixin_of_get?_encode hget hkey
    rcases hfits.readMixin hm (hreadable key m hm) hpayload with ⟨-, hread⟩ | ⟨-, m', hread, -⟩
    · exact ⟨none, hread⟩
    · exact ⟨some m', hread⟩
  obtain ⟨decoded, hdecode, htoCore⟩ := exists_outcome_decode hcore hfound
  refine ⟨container, decoded, hencode, hdecode, htoCore, (mixinsAgree_iff _ _).mpr fun key => ?_⟩
  by_cases hkey : key ∈ otherKeys container
  · exact hfits.rel_of_mem hreadable hget hdecode hkey
  · rw [get?_mixins_of_decode hdecode fun h => hkey (mem_otherKeys.mpr h),
      get?_restrict_of_notMem hget hkey]
    exact .none

/-- The tag of a type of notes.  There is one for every key, with the key as its number. -/
def noteTag (key : String) : TypeTag :=
  .plain (key.toList.foldl (fun n c => 128 * n + c.toNat) 1) "Note" (some key)

/-- A type of texts that a caller brings, under a key. -/
def noteType (key : String) : MixinType := .extension (noteTag key) Codec.text

/-- A note under a key. -/
def note (key words : String) : Mixin := .extension ⟨noteTag key, .text words, .text words⟩

/-- A registry of notes, of which those under one key are never read. -/
def notes : Registry :=
  .ofDescriptors
    [(noteType "note").descriptor "note", (noteType "names").descriptor "names",
      { (noteType "draft").descriptor "draft" with decoder? := none }]

/-- A symbol with a location and with notes, of which one stands under a core key. -/
def noted : Symbol where
  identifier := ⟨"s:3Kit3runyyF", some "swift"⟩
  kind := ⟨⟨"func"⟩, "Function"⟩
  pathComponents := ["Kit", "run()"]
  type := none
  names := ⟨"run()", none, some [⟨"keyword", "func", none⟩], none⟩
  docComment := some ⟨[], none, none⟩
  accessLevel := "public"
  mixins :=
    ⟨[("location", .location ⟨"file:///run.swift", ⟨-1, 36893488147419103232⟩⟩),
      ("names", note "names" "hidden"), ("draft", note "draft" "lost"),
      ("note", note "note" "kept")], by decide⟩

theorem noted_decode_encode :
    ∃ container decoded, (noted.encode notes).outcome = .ok container ∧
      (decode notes (.object container)).outcome = .ok decoded ∧
      decoded.toCore = noted.toCore ∧
      mixinsAgree decoded.mixins (noted.mixins.restrict notes.carries) = true := by
  have hentries : ∀ {key m}, noted.mixins.get? key = some m →
      (key = "location" ∧ m = .location ⟨"file:///run.swift", ⟨-1, 36893488147419103232⟩⟩) ∨
        (key = "names" ∧ m = note "names" "hidden") ∨ (key = "draft" ∧ m = note "draft" "lost") ∨
        (key = "note" ∧ m = note "note" "kept") := by
    intro key m hm
    have hmem := Entries.mem_of_get?_eq_some hm
    simpa [noted] using hmem
  refine decode_encode noted notes (by decide) (fun key m hm => ?_) fun key m descriptor hm hd => ?_
  · rcases hentries hm with ⟨-, rfl⟩ | ⟨-, rfl⟩ | ⟨-, rfl⟩ | ⟨-, rfl⟩ <;> trivial
  · rcases hentries hm with ⟨rfl, rfl⟩ | ⟨rfl, rfl⟩ | ⟨rfl, rfl⟩ | ⟨rfl, rfl⟩
    · obtain rfl := Option.some_inj.mp hd
      exact ⟨.location, rfl, rfl, .inr rfl, .inr rfl⟩
    · obtain rfl := Option.some_inj.mp hd
      exact ⟨noteType "names", ⟨rfl, rfl, rfl⟩, rfl, .inr rfl, .inr rfl⟩
    · obtain rfl := Option.some_inj.mp hd
      exact ⟨noteType "draft", ⟨rfl, rfl, rfl⟩, rfl, .inr rfl, .inl rfl⟩
    · obtain rfl := Option.some_inj.mp hd
      exact ⟨noteType "note", ⟨rfl, rfl, rfl⟩, rfl, .inr rfl, .inr rfl⟩

end Symbol

end SymbolRecord
