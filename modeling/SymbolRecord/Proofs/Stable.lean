import SymbolRecord.Proofs.Decoded
import SymbolRecord.Proofs.Legible
import SymbolRecord.Proofs.Yield
/-!
# Objects that are decoded and encoded again

The object of a symbol that was decoded is written with its keys in ascending order.  Decoding that
object again and encoding the result makes the same object up to the order of keys, because each
type reads back what it writes: the built-in types always, and others when they are stable.

* `MixinType.Stable`: a type reads what it writes as something that it writes alike.
* `MixinType.stable_of_mem_builtin`: the built-in types are stable.
* `Symbol.exists_decode_sortKeys`: the second round makes the same object.
-/

namespace SymbolRecord

open Json

/-- A type is stable when it reads again what it writes for a mixin that it has read, with the
keys in ascending order, and writes it alike.  What it writes has no key twice in one object, and
its doubles are read back from their texts. -/
structure MixinType.Stable (type : MixinType) : Prop where
  /-- What is written is read again, as something that is written alike. -/
  read : ∀ v m, type.read v = .mixin m →
    ∃ m', type.read (sortKeys m.payload) = .mixin m' ∧ m'.payload.Alike m.payload
  /-- No object that is written has a key twice. -/
  proper : ∀ v m, type.read v = .mixin m → m.payload.Proper
  /-- The doubles that are written are read back from their texts. -/
  spelled : ∀ v m x, type.read v = .mixin m → (Value.float x).Within m.payload →
    Spelled (.float x)

theorem MixinType.Stable.legible {type : MixinType} (h : type.Stable) (v : Value) (m : Mixin)
    (hread : type.read v = .mixin m) : m.payload.Legible :=
  ⟨h.proper v m hread, fun x => h.spelled v m x hread⟩

/-- **The built-in types are stable.** -/
theorem MixinType.stable_of_mem_builtin {type : MixinType} (htype : type ∈ builtin) :
    type.Stable where
  read v m hread := by
    obtain ⟨hbuiltin, hreadable⟩ := builtinType?_of_read htype hread
    have hproper := (Mixin.plain_payload hbuiltin hreadable).proper
    obtain ⟨m', hm', halike⟩ :=
      Mixin.exists_read_of_alike hbuiltin hreadable (Value.alike_sortKeys hproper)
    refine ⟨m', hm', ?_⟩
    rw [halike.payload_eq]
    exact .refl _
  proper v m hread := by
    obtain ⟨hbuiltin, hreadable⟩ := builtinType?_of_read htype hread
    exact (Mixin.plain_payload hbuiltin hreadable).proper
  spelled v m x hread hx := by
    obtain ⟨hbuiltin, hreadable⟩ := builtinType?_of_read htype hread
    exact (Mixin.plain_payload hbuiltin hreadable).legible.spelled x hx

namespace Registry

/-- All descriptors of a registry are those of stable types. -/
def Stable (registry : Registry) : Prop :=
  ∀ key descriptor, registry.resolve? key = some descriptor →
    ∃ type : MixinType, type.Stable ∧ descriptor = type.descriptor key

variable {registry : Registry}

theorem Stable.allOf (h : registry.Stable) : registry.AllOf MixinType.Stable := h

theorem stable_of_extensions
    (h : ∀ key descriptor, registry.extensions.get? key = some descriptor →
      ∃ type : MixinType, type.Stable ∧ descriptor = type.descriptor key) : registry.Stable :=
  allOf_of_extensions (fun _ => MixinType.stable_of_mem_builtin) h

theorem Stable.standard (h : registry.Stable) : registry.Standard := h.allOf.standard

end Registry

namespace Symbol

variable {registry : Registry} {v : Value} {symbol : Symbol}

section SecondRound

variable {container : Entries Value} (h : registry.Stable)
  (hdecode : (decode registry v).outcome = .ok symbol)
  (hnodup : (Entries.keys container).Nodup)
  (hget : ∀ key, Entries.get? container key =
    ((symbol.mixins.get? key).map Mixin.payload).or (Entries.get? symbol.toCore.wire key))

include h hdecode hnodup hget

/-- What the second round reads under a key beside those of the core fields. -/
theorem exists_readMixin_of_sortKeys {key : String}
    (hkey : key ∈ otherKeys (Entries.sorted (Entries.mapValues sortKeys container))) :
    ∃ m m', symbol.mixins.get? key = some m ∧ m'.payload.Alike m.payload ∧
      readMixin registry (Entries.sorted (Entries.mapValues sortKeys container)) key =
        .ok (some m') := by
  obtain ⟨m, type, w, hm, hstable, hread, hdecoder, hu⟩ :=
    exists_type_of_sorted h.allOf hdecode hnodup hget hkey
  obtain ⟨m', hm', halike⟩ := hstable.read w m hread
  refine ⟨m, m', hm, halike, ?_⟩
  rw [readMixin, hdecoder]
  simp only [MixinType.decode, hu, MixinType.intake, hm', Run.outcome_ok]

/-- The second round succeeds, with the same core fields and with mixins that are written alike. -/
theorem exists_decode_of_sortKeys :
    ∃ symbol', (decode registry (sortKeys (.object container))).outcome = .ok symbol' ∧
      symbol'.toCore = symbol.toCore ∧
      ∀ key, ((symbol'.mixins.get? key).map Mixin.payload).map sortKeys =
        ((symbol.mixins.get? key).map Mixin.payload).map sortKeys := by
  rw [sortKeys_object]
  have hcore := readCore_sorted h.allOf hdecode hnodup hget
  obtain ⟨symbol', hdecode', htoCore⟩ := exists_outcome_decode hcore fun key hkey => by
    obtain ⟨_, m', -, -, hread⟩ := exists_readMixin_of_sortKeys h hdecode hnodup hget hkey
    exact ⟨some m', hread⟩
  refine ⟨symbol', hdecode', htoCore, fun key => ?_⟩
  by_cases hkey : key ∈ otherKeys (Entries.sorted (Entries.mapValues sortKeys container))
  · obtain ⟨hmem, hnotCore⟩ := mem_otherKeys.mp hkey
    obtain ⟨m, m', hm, halike, hread⟩ :=
      exists_readMixin_of_sortKeys h hdecode hnodup hget hkey
    have hstored := Except.ok.inj ((readMixin_of_decode hdecode' hmem hnotCore).symm.trans hread)
    rw [hstored, hm]
    exact congrArg some halike
  · rw [get?_mixins_of_decode hdecode' fun hboth => hkey (mem_otherKeys.mpr hboth)]
    cases hm : symbol.mixins.get? key with
    | none => rfl
    | some m =>
      refine absurd (mem_otherKeys.mpr ⟨?_, (exists_mixin_of_decode h.allOf hdecode hm).1⟩) hkey
      rw [← Entries.isSome_get?_iff, get?_sorted_mapValues hnodup, hget, hm]
      rfl

end SecondRound

/-- **The second round makes the same object.**  The object of a decoded symbol, with its keys in
ascending order, is decoded again, and the result is encoded as an object that is alike. -/
theorem exists_decode_sortKeys (h : registry.Stable)
    (hdecode : (decode registry v).outcome = .ok symbol) {container : Entries Value}
    (hencode : (symbol.encode registry).outcome = .ok container) :
    ∃ symbol' container', (decode registry (sortKeys (.object container))).outcome = .ok symbol' ∧
      (symbol'.encode registry).outcome = .ok container' ∧
      (Value.object container').Alike (.object container) := by
  obtain ⟨_, heq, hnodup, hget⟩ := exists_encode_of_decode h.allOf hdecode
  obtain rfl := Except.ok.inj (heq.symm.trans hencode)
  obtain ⟨symbol', hdecode', htoCore, hmixins⟩ :=
    exists_decode_of_sortKeys h hdecode hnodup hget
  obtain ⟨container', hencode', hnodup', hget'⟩ := exists_encode_of_decode h.allOf hdecode'
  refine ⟨symbol', container', hdecode', hencode', Value.alike_object hnodup' hnodup fun key => ?_⟩
  have hkey := hmixins key
  rw [hget', hget, htoCore]
  cases hm : symbol.mixins.get? key with
  | none =>
    rw [hm, Option.map_none, Option.map_none, Option.map_eq_none_iff] at hkey
    rw [hkey, Option.map_none]
  | some m =>
    rw [hm, Option.map_some, Option.map_some] at hkey
    obtain ⟨p, hp, hsorted⟩ := Option.map_eq_some_iff.mp hkey
    rw [hp, Option.map_some, Option.some_or, Option.some_or, Option.map_some, Option.map_some,
      hsorted]

/-- The object of a decoded symbol is legible. -/
theorem legible_of_stable (h : registry.Stable)
    (hdecode : (decode registry v).outcome = .ok symbol) {container : Entries Value}
    (hencode : (symbol.encode registry).outcome = .ok container) :
    (Value.object container).Legible :=
  legible_of_decode h.allOf (fun _ htype => htype.legible) hdecode hencode

end Symbol

end SymbolRecord
