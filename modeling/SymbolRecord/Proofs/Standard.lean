import SymbolRecord.Coder
import SymbolRecord.Proofs.Entries
import SymbolRecord.Proofs.Run
/-!
# Descriptors of mixin types

Most registries hold nothing but the descriptors of mixin types, possibly without their encoder or
their decoder.  Such a descriptor brings no code of its own: it fails by refusing a payload, and it
registers nothing.

* `Descriptor.IsOf`: the descriptor of a type under a key.
* `Registry.Standard`, `Coder.standard_snapshot`: registries of such descriptors.
* `Symbol.quiet_decode`: decoding registers nothing.
* `Symbol.failsBy_decode`: decoding fails for reasons of its own only.
-/

namespace SymbolRecord

/-- A descriptor is that of a type under a key, possibly without its encoder or its decoder. -/
structure Descriptor.IsOf (descriptor : Descriptor) (type : MixinType) (key : String) : Prop where
  /-- The key is the same. -/
  key : descriptor.key = key
  /-- The encoder is that of mixin types, if there is one. -/
  encoder : descriptor.encoder? = none ∨ descriptor.encoder? = some MixinType.encode
  /-- The decoder is that of the type, if there is one. -/
  decoder : descriptor.decoder? = none ∨ descriptor.decoder? = some type.decode

theorem MixinType.isOf_descriptor (type : MixinType) (key : String) :
    (type.descriptor key).IsOf type key :=
  ⟨rfl, Or.inr rfl, Or.inr rfl⟩

namespace Registry

/-- The built-in descriptors are those of the built-in types under their keys. -/
theorem exists_type_of_builtin {key : String} {descriptor : Descriptor}
    (h : builtins.get? key = some descriptor) :
    ∃ type ∈ MixinType.builtin, type.key? = some key ∧ descriptor = type.descriptor key := by
  obtain ⟨type, htype, hsome⟩ := List.mem_filterMap.mp (Entries.mem_of_get?_eq_some h)
  obtain ⟨own, hown, heq⟩ := Option.map_eq_some_iff.mp hsome
  obtain ⟨rfl, rfl⟩ := Prod.mk.inj heq
  exact ⟨type, htype, hown, rfl⟩

/-- All descriptors of a registry are those of mixin types. -/
def Standard (registry : Registry) : Prop :=
  ∀ key descriptor, registry.resolve? key = some descriptor → ∃ type, descriptor.IsOf type key

theorem standard_of_extensions {registry : Registry}
    (h : ∀ key descriptor, registry.extensions.get? key = some descriptor →
      ∃ type, descriptor.IsOf type key) : registry.Standard := by
  intro key descriptor hresolve
  rw [resolve?] at hresolve
  cases hbuiltin : builtins.get? key with
  | some d =>
    rw [hbuiltin] at hresolve
    obtain ⟨type, -, -, hd⟩ := exists_type_of_builtin hbuiltin
    rw [← Option.some_inj.mp hresolve, hd]
    exact ⟨type, type.isOf_descriptor key⟩
  | none =>
    rw [hbuiltin] at hresolve
    exact h key descriptor hresolve

/-- A key of such a registry is read by a type, if it is read at all. -/
theorem Standard.decoder {registry : Registry} (h : registry.Standard) {key : String}
    {decoder : Decoder} (hdecoder : registry.decoder? key = some decoder) :
    ∃ type : MixinType, decoder = type.decode := by
  obtain ⟨descriptor, hresolve, hsome⟩ := Option.bind_eq_some_iff.mp hdecoder
  obtain ⟨type, hof⟩ := h key descriptor hresolve
  rcases hof.decoder with hnone | hdefault
  · exact absurd (hnone.symm.trans hsome) (by simp)
  · exact ⟨type, Option.some_inj.mp (hsome.symm.trans hdefault)⟩

end Registry

/-! ## Decoding with such descriptors -/

namespace MixinType

theorem quiet_noteDropped (type : MixinType) (issues : Nat) : (type.noteDropped issues).Quiet :=
  Run.quiet_log _ _

theorem quiet_decode (type : MixinType) (key : String) (container : Entries Value) :
    (type.decode key container).Quiet := by
  unfold decode intake
  split
  · split
    · exact Run.quiet_of_nil rfl
    · exact (type.quiet_noteDropped _).andThen fun _ _ => Run.quiet_of_nil rfl
    · exact Run.quiet_of_nil rfl
  · exact Run.quiet_of_nil rfl

theorem failsBy_decode (type : MixinType) (key : String) (container : Entries Value) :
    (type.decode key container).FailsBy fun failure => ∃ error, failure = .decode error := by
  unfold decode intake
  split
  · split
    · exact Run.failsBy_of_ok rfl
    · exact Run.failsBy_of_ok rfl
    · exact Run.failsBy_fail ⟨_, rfl⟩
  · exact Run.failsBy_of_ok rfl

end MixinType

namespace Symbol

variable {registry : Registry}

theorem quiet_readMixins (h : registry.Standard) (record : Entries Value) :
    ∀ (ks : List String) (mixins : Table Mixin), (readMixins registry record ks mixins).Quiet
  | [], _ => Run.quiet_of_nil rfl
  | key :: rest, mixins => by
    rw [readMixins]
    split
    · exact (Run.quiet_log _ _).andThen fun _ _ => quiet_readMixins h record rest mixins
    · next decoder hdecoder =>
      obtain ⟨type, rfl⟩ := h.decoder hdecoder
      refine (type.quiet_decode key record).andThen fun found _ => ?_
      cases found with
      | none => exact quiet_readMixins h record rest mixins
      | some mixin => exact quiet_readMixins h record rest (mixins.put key mixin)

/-- Decoding registers nothing. -/
theorem quiet_decode (h : registry.Standard) (v : Value) : (decode registry v).Quiet := by
  unfold decode
  split
  · split
    · exact Run.quiet_of_nil rfl
    · exact (quiet_readMixins h _ _ _).andThen fun _ _ => Run.quiet_of_nil rfl
  · exact Run.quiet_of_nil rfl

theorem failsBy_readMixins (h : registry.Standard) (record : Entries Value) :
    ∀ (ks : List String) (mixins : Table Mixin),
      (readMixins registry record ks mixins).FailsBy fun failure =>
        ∃ error, failure = .decode error
  | [], _ => Run.failsBy_of_ok rfl
  | key :: rest, mixins => by
    rw [readMixins]
    split
    · exact (Run.failsBy_of_ok rfl).andThen fun _ => failsBy_readMixins h record rest mixins
    · next decoder hdecoder =>
      obtain ⟨type, rfl⟩ := h.decoder hdecoder
      refine (type.failsBy_decode key record).andThen fun found => ?_
      cases found with
      | none => exact failsBy_readMixins h record rest mixins
      | some mixin => exact failsBy_readMixins h record rest (mixins.put key mixin)

/-- Decoding fails for reasons of its own only. -/
theorem failsBy_decode (h : registry.Standard) (v : Value) :
    (decode registry v).FailsBy fun failure => ∃ error, failure = .decode error := by
  unfold decode
  split
  · split
    · exact Run.failsBy_fail ⟨_, rfl⟩
    · exact (failsBy_readMixins h _ _ _).andThen fun _ => Run.failsBy_of_ok rfl
  · exact Run.failsBy_fail ⟨_, rfl⟩

end Symbol

namespace Coder

variable {coder : Coder}

/-- The registrations of a coder that holds descriptors of mixin types only. -/
theorem standard_snapshot
    (h : ∀ key descriptor, coder.registered.get? key = some descriptor →
      ∃ type, descriptor.IsOf type key) : coder.snapshot.Standard :=
  Registry.standard_of_extensions h

/-- A quiet run leaves a coder as it is. -/
theorem absorb_of_quiet (coder : Coder) :
    ∀ {events : List Event}, (∀ type, Event.register type ∉ events) → coder.absorb events = coder
  | [], _ => rfl
  | .log _ _ :: rest, h => by
    rw [absorb]
    exact absorb_of_quiet coder fun type hmem => h type (List.mem_cons_of_mem _ hmem)
  | .register type :: rest, h => absurd List.mem_cons_self (h type)

variable [Wording]

theorem quiet_parse (bytes : Bytes) : (parse bytes).Quiet := by
  unfold parse
  split
  · exact Run.quiet_of_nil rfl
  · exact Run.quiet_of_nil rfl

theorem quiet_decodeDocument (h : coder.snapshot.Standard) (bytes : Bytes) :
    (coder.decodeDocument bytes).Quiet := by
  refine (quiet_parse bytes).andThen fun v _ => ?_
  split
  · exact (Run.quiet_forAll (Symbol.quiet_decode h) _).andThen fun _ _ => Run.quiet_of_nil rfl
  · exact (Symbol.quiet_decode h v).andThen fun _ _ => Run.quiet_of_nil rfl

theorem quiet_decodeLines (h : coder.snapshot.Standard) (bytes : Bytes) :
    (coder.decodeLines bytes).Quiet :=
  Run.quiet_forAll
    (fun line => (quiet_parse line).andThen fun v _ => Symbol.quiet_decode h v) _

end Coder

end SymbolRecord
