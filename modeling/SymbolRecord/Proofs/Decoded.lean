import SymbolRecord.Proofs.Decoding
import SymbolRecord.Proofs.Encoding
import SymbolRecord.Proofs.Standard
import SymbolRecord.Proofs.Yield
/-!
# Objects of decoded symbols

A symbol that was decoded holds what the types of its registry have read.  So its object is known
key by key, is legible when the types write legibly, and is read again with its keys in ascending
order: the core fields as they are, and under each other key what its own type makes of the payload
that it wrote.

* `Registry.AllOf`: all descriptors are those of types with a property.
* `Symbol.exists_mixin_of_decode`: where the mixins of a decoded symbol come from.
* `Symbol.exists_encode_of_decode`: the object of a decoded symbol.
* `Symbol.legible_of_decode`: when that object is legible.
* `Symbol.readCore_sorted`, `Symbol.exists_type_of_sorted`: what it is read as.
-/

namespace SymbolRecord

open Json

namespace Registry

/-- All descriptors of a registry are those of types with a property, as the types have them. -/
def AllOf (p : MixinType → Prop) (registry : Registry) : Prop :=
  ∀ key descriptor, registry.resolve? key = some descriptor →
    ∃ type, p type ∧ descriptor = type.descriptor key

variable {p : MixinType → Prop} {registry : Registry}

/-- The built-in types have the property, so it is enough that the registered ones do. -/
theorem allOf_of_extensions (hbuiltin : ∀ type ∈ MixinType.builtin, p type)
    (h : ∀ key descriptor, registry.extensions.get? key = some descriptor →
      ∃ type, p type ∧ descriptor = type.descriptor key) : registry.AllOf p := by
  intro key descriptor hresolve
  rw [resolve?] at hresolve
  cases hfound : builtins.get? key with
  | some d =>
    rw [hfound] at hresolve
    obtain ⟨type, htype, -, hd⟩ := exists_type_of_builtin hfound
    exact ⟨type, hbuiltin type htype, (Option.some_inj.mp hresolve).symm.trans hd⟩
  | none =>
    rw [hfound] at hresolve
    exact h key descriptor hresolve

theorem AllOf.standard (h : registry.AllOf p) : registry.Standard := by
  intro key descriptor hresolve
  obtain ⟨type, -, rfl⟩ := h key descriptor hresolve
  exact ⟨type, type.isOf_descriptor key⟩

theorem AllOf.writesPlainly (h : registry.AllOf p) (key : String) :
    registry.WritesPlainly key := by
  intro encoder hencoder
  obtain ⟨descriptor, hresolve, hsome⟩ := Option.bind_eq_some_iff.mp hencoder
  obtain ⟨type, -, rfl⟩ := h key descriptor hresolve
  exact (Option.some_inj.mp hsome).symm

end Registry

namespace Symbol

variable {p : MixinType → Prop} {registry : Registry} {v : Value} {symbol : Symbol}

/-! ## The object of a decoded symbol -/

/-- A mixin of a decoded symbol was read by the type of its key, which is no core key. -/
theorem exists_mixin_of_decode (h : registry.AllOf p)
    (hdecode : (decode registry v).outcome = .ok symbol) {key : String} {m : Mixin}
    (hm : symbol.mixins.get? key = some m) :
    Core.isKey key = false ∧ ∃ (type : MixinType) (w : Value), p type ∧
      registry.resolve? key = some (type.descriptor key) ∧ type.read w = .mixin m := by
  obtain ⟨hcore, record, decoder, hdecoder, hread⟩ := exists_decoder_of_decode hdecode hm
  obtain ⟨descriptor, hresolve, hsome⟩ := Option.bind_eq_some_iff.mp hdecoder
  obtain ⟨type, htype, rfl⟩ := h key descriptor hresolve
  obtain rfl := Option.some_inj.mp hsome
  obtain ⟨w, -, hw⟩ := MixinType.outcome_decode_eq_some_iff.mp hread
  exact ⟨hcore, type, w, htype, hresolve, hw⟩

/-- All mixins of a decoded symbol are written. -/
theorem written?_of_decode (h : registry.AllOf p)
    (hdecode : (decode registry v).outcome = .ok symbol) (key : String) :
    written? registry symbol.mixins key = (symbol.mixins.get? key).map Mixin.payload := by
  cases hm : symbol.mixins.get? key with
  | none =>
    rw [written?, hm]
    cases mixinEncoder? registry key with
    | none => rfl
    | some _ => rfl
  | some m =>
    obtain ⟨hcore, type, w, -, hresolve, -⟩ := exists_mixin_of_decode h hdecode hm
    have hencoder : registry.encoder? key = some MixinType.encode := by
      rw [Registry.encoder?, hresolve]
      rfl
    rw [written?, hm, mixinEncoder?, if_neg (by simp [hcore]), hencoder]
    rfl

/-- The object of a decoded symbol, key by key. -/
theorem exists_encode_of_decode (h : registry.AllOf p)
    (hdecode : (decode registry v).outcome = .ok symbol) :
    ∃ container, (symbol.encode registry).outcome = .ok container ∧
      (Entries.keys container).Nodup ∧
      ∀ key, Entries.get? container key =
        ((symbol.mixins.get? key).map Mixin.payload).or (Entries.get? symbol.toCore.wire key) := by
  obtain ⟨container, hencode, hnodup, hget⟩ :=
    @exists_outcome_encode registry symbol fun key _ => h.writesPlainly key
  refine ⟨container, hencode, hnodup, fun key => ?_⟩
  rw [hget, written?_of_decode h hdecode]

/-- A key of the object holds the payload of a mixin or belongs to a core field. -/
theorem mem_of_get?_encode {container : Entries Value}
    (hget : ∀ key, Entries.get? container key =
      ((symbol.mixins.get? key).map Mixin.payload).or (Entries.get? symbol.toCore.wire key))
    {key : String} {w : Value} (hw : Entries.get? container key = some w) :
    (∃ m, symbol.mixins.get? key = some m ∧ m.payload = w) ∨
      Entries.get? symbol.toCore.wire key = some w := by
  rw [hget] at hw
  cases hm : symbol.mixins.get? key with
  | some m =>
    rw [hm, Option.map_some, Option.some_or] at hw
    exact Or.inl ⟨m, rfl, Option.some_inj.mp hw⟩
  | none =>
    rw [hm, Option.map_none, Option.none_or] at hw
    exact Or.inr hw

/-- The object of a decoded symbol is legible when all types write legibly what they have read. -/
theorem legible_of_decode (h : registry.AllOf p)
    (hlegible : ∀ type, p type → ∀ w m, type.read w = .mixin m → m.payload.Legible)
    (hdecode : (decode registry v).outcome = .ok symbol) {container : Entries Value}
    (hencode : (symbol.encode registry).outcome = .ok container) :
    (Value.object container).Legible := by
  refine legible_of_encode (fun key _ => h.writesPlainly key) (fun key m hm => ?_) hencode
  obtain ⟨-, type, w, htype, -, hread⟩ := exists_mixin_of_decode h hdecode hm
  exact hlegible type htype w m hread

/-! ## Reading it again -/

section Sorted

variable {container : Entries Value} (h : registry.AllOf p)
  (hdecode : (decode registry v).outcome = .ok symbol)
  (hnodup : (Entries.keys container).Nodup)
  (hget : ∀ key, Entries.get? container key =
    ((symbol.mixins.get? key).map Mixin.payload).or (Entries.get? symbol.toCore.wire key))

include h hdecode hnodup hget

/-- The core fields are read again as they are. -/
theorem readCore_sorted :
    readCore (Entries.sorted (Entries.mapValues sortKeys container)) = .ok symbol.toCore := by
  obtain ⟨record, -, hrecord, -⟩ := decode_ok_iff.mp hdecode
  refine readCore_of_alike (parse_kind_of_readCore hrecord) fun key hkey => ?_
  have hmixin : symbol.mixins.get? key = none := by
    cases hm : symbol.mixins.get? key with
    | none => rfl
    | some m =>
      have hnot := (exists_mixin_of_decode h hdecode hm).1
      rw [hkey] at hnot
      exact absurd hnot (by simp)
  rw [get?_sorted_mapValues hnodup, hget, hmixin, Option.map_none, Option.none_or]
  cases hw : Entries.get? symbol.toCore.wire key with
  | none => rfl
  | some w =>
    have hplain := symbol.toCore.plain_of_mem_wire (Entries.mem_of_get?_eq_some hw)
    exact congrArg some (sortKeys_sortKeys hplain.proper)

/-- Under every other key stands what the type of the key has written for a mixin of the symbol. -/
theorem exists_type_of_sorted {key : String}
    (hkey : key ∈ otherKeys (Entries.sorted (Entries.mapValues sortKeys container))) :
    ∃ m type w, symbol.mixins.get? key = some m ∧ p type ∧ type.read w = .mixin m ∧
      registry.decoder? key = some type.decode ∧
      Entries.get? (Entries.sorted (Entries.mapValues sortKeys container)) key =
        some (sortKeys m.payload) := by
  obtain ⟨hmem, hcore⟩ := mem_otherKeys.mp hkey
  obtain ⟨u, hu⟩ := Option.isSome_iff_exists.mp (Entries.isSome_get?_iff.mpr hmem)
  have hsorted := hu
  rw [get?_sorted_mapValues hnodup] at hsorted
  obtain ⟨w, hw, rfl⟩ := Option.map_eq_some_iff.mp hsorted
  rcases mem_of_get?_encode hget hw with ⟨m, hm, rfl⟩ | hwire
  · obtain ⟨-, type, w, htype, hresolve, hread⟩ := exists_mixin_of_decode h hdecode hm
    refine ⟨m, type, w, hm, htype, hread, ?_, hu⟩
    rw [Registry.decoder?, hresolve]
    rfl
  · rw [symbol.toCore.get?_wire_of_not_isKey hcore] at hwire
    exact absurd hwire (by simp)

end Sorted

end Symbol

end SymbolRecord
