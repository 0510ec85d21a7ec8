import SymbolRecord.Symbol.Encode
import SymbolRecord.Proofs.Core
import SymbolRecord.Proofs.Legible
/-!
# What is written for a symbol

The object of a symbol is written one mixin after another.  When all encoders do what the encoder of
a mixin type does, the whole object is known key by key: the payload under the key of each mixin
that has an encoder and does not stand in the place of a core field, and the core fields.

* `Registry.WritesPlainly`: the encoder of a key, if there is one, is that of a mixin type.
* `Symbol.written?`: what is written under a key for the mixins.
* `Symbol.exists_outcome_encode`: encoding succeeds, with the object described above.
* `Symbol.legible_of_encode`: the object is legible when the payloads are.
-/

namespace SymbolRecord

/-- The encoder that a key resolves to, if there is one, is the encoder of mixin types. -/
def Registry.WritesPlainly (registry : Registry) (key : String) : Prop :=
  ∀ encoder, registry.encoder? key = some encoder → encoder = MixinType.encode

/-- A mixin under such a key is written by that encoder, if it is. -/
theorem Registry.WritesPlainly.eq_encode {registry : Registry} {key : String}
    (h : registry.WritesPlainly key) {encoder : Encoder}
    (hencoder : Symbol.mixinEncoder? registry key = some encoder) :
    encoder = MixinType.encode := by
  unfold Symbol.mixinEncoder? at hencoder
  split at hencoder
  · exact absurd hencoder (by simp)
  · exact h encoder hencoder

namespace Symbol

/-- The payload that is written under a key for a table of mixins, if one is. -/
def written? (registry : Registry) (mixins : Table Mixin) (key : String) : Option Value :=
  (mixinEncoder? registry key).bind fun _ => (mixins.get? key).map Mixin.payload

/-- The object after the mixin under a key has been written. -/
def afterWriting (registry : Registry) (mixins : Table Mixin) (container : Entries Value)
    (key : String) : Entries Value :=
  match written? registry mixins key with
  | some v => container.put key v
  | none => container

theorem get?_afterWriting (registry : Registry) (mixins : Table Mixin)
    (container : Entries Value) (key other : String) :
    Entries.get? (afterWriting registry mixins container key) other =
      if key = other then (written? registry mixins other).or (container.get? other)
      else container.get? other := by
  unfold afterWriting
  by_cases hkey : key = other
  · subst hkey
    cases written? registry mixins key with
    | none => rw [if_pos rfl, Option.none_or]
    | some v => rw [if_pos rfl, Entries.get?_put_self, Option.some_or]
  · cases written? registry mixins key with
    | none => rw [if_neg hkey]
    | some v => rw [if_neg hkey, Entries.get?_put, if_neg hkey]

theorem nodup_keys_afterWriting (registry : Registry) (mixins : Table Mixin)
    {container : Entries Value} (h : (Entries.keys container).Nodup) (key : String) :
    (Entries.keys (afterWriting registry mixins container key)).Nodup := by
  unfold afterWriting
  cases written? registry mixins key with
  | none => exact h
  | some v => exact Entries.nodup_keys_put h key v

/-- One step of writing: the mixin under the first key is written, or left out with a note. -/
theorem outcome_writeMixins_cons {registry : Registry} {key : String}
    (h : registry.WritesPlainly key) (mixins : Table Mixin) (rest : List String)
    (container : Entries Value) :
    (writeMixins registry mixins (key :: rest) container).outcome =
      (writeMixins registry mixins rest (afterWriting registry mixins container key)).outcome := by
  unfold afterWriting written?
  cases hencoder : mixinEncoder? registry key with
  | none =>
    rw [writeMixins, hencoder]
    exact Run.outcome_andThen _ _
  | some encoder =>
    have hplain : encoder = MixinType.encode := h.eq_encode hencoder
    cases hmixin : mixins.get? key with
    | none =>
      rw [writeMixins, hencoder, hmixin]
      exact Run.outcome_andThen _ _
    | some mixin =>
      rw [writeMixins, hencoder, hmixin, hplain]
      exact Run.outcome_andThen _ _

theorem outcome_writeMixins {registry : Registry} (mixins : Table Mixin) :
    ∀ {ks : List String} (container : Entries Value), (∀ key ∈ ks, registry.WritesPlainly key) →
      (writeMixins registry mixins ks container).outcome =
        .ok (ks.foldl (afterWriting registry mixins) container)
  | [], _, _ => rfl
  | key :: rest, container, h => by
    rw [outcome_writeMixins_cons (h key List.mem_cons_self),
      outcome_writeMixins mixins _ fun other hmem => h other (List.mem_cons_of_mem _ hmem)]
    rfl

/-- The invariant of the whole loop: what stands under a key depends on that key alone. -/
theorem get?_foldl_afterWriting (registry : Registry) (mixins : Table Mixin) (other : String) :
    ∀ (ks : List String) (container : Entries Value),
      Entries.get? (ks.foldl (afterWriting registry mixins) container) other =
        if other ∈ ks then (written? registry mixins other).or (container.get? other)
        else container.get? other
  | [], container => rfl
  | key :: rest, container => by
    rw [List.foldl_cons, get?_foldl_afterWriting registry mixins other rest,
      get?_afterWriting]
    by_cases hkey : key = other
    · subst hkey
      simp only [if_pos, List.mem_cons, true_or]
      split
      · cases written? registry mixins key with
        | none => simp only [Option.none_or]
        | some v => simp only [Option.some_or]
      · rfl
    · have hmem : other ∈ key :: rest ↔ other ∈ rest := by
        rw [List.mem_cons, or_iff_right fun heq => hkey heq.symm]
      simp only [if_neg hkey, hmem]

theorem nodup_keys_foldl_afterWriting (registry : Registry) (mixins : Table Mixin) :
    ∀ (ks : List String) {container : Entries Value}, (Entries.keys container).Nodup →
      (Entries.keys (ks.foldl (afterWriting registry mixins) container)).Nodup
  | [], _, h => h
  | key :: rest, _, h =>
    nodup_keys_foldl_afterWriting registry mixins rest
      (nodup_keys_afterWriting registry mixins h key)

/-- **What encoding a symbol yields**, key by key, when encoders write plainly. -/
theorem exists_outcome_encode {registry : Registry} {symbol : Symbol}
    (h : ∀ key ∈ symbol.mixins.keys, registry.WritesPlainly key) :
    ∃ container, (symbol.encode registry).outcome = .ok container ∧
      (Entries.keys container).Nodup ∧
      ∀ key, Entries.get? container key =
        (written? registry symbol.mixins key).or (Entries.get? symbol.toCore.wire key) := by
  refine ⟨_, outcome_writeMixins symbol.mixins symbol.toCore.wire fun key hkey => ?_,
    nodup_keys_foldl_afterWriting registry symbol.mixins _ symbol.nodup_keys_wire,
    fun key => ?_⟩
  · exact h key ((Entries.mem_sortedKeys _ key).mp hkey)
  · rw [get?_foldl_afterWriting]
    split
    · rfl
    · next hkey =>
      have hnone : symbol.mixins.get? key = none := by
        rw [Table.get?, Entries.get?_eq_none_iff, ← Entries.mem_sortedKeys]
        exact hkey
      rw [written?, hnone]
      cases mixinEncoder? registry key with
      | none => rfl
      | some _ => rfl

/-- The core fields stand in the object as they are written. -/
theorem get?_core_of_encode {registry : Registry} {symbol : Symbol} {container : Entries Value}
    (h : ∀ key, Entries.get? container key =
      (written? registry symbol.mixins key).or (Entries.get? symbol.toCore.wire key))
    {key : String} (hkey : Core.isKey key = true) :
    Entries.get? container key = Entries.get? symbol.toCore.wire key := by
  have hnone : written? registry symbol.mixins key = none := by
    rw [written?, mixinEncoder?, if_pos hkey]
    rfl
  rw [h, hnone, Option.none_or]

/-- The object of a symbol is legible when the payloads of its mixins are. -/
theorem legible_of_encode {registry : Registry} {symbol : Symbol}
    (hplainly : ∀ key ∈ symbol.mixins.keys, registry.WritesPlainly key)
    (hlegible : ∀ key m, symbol.mixins.get? key = some m → m.payload.Legible)
    {container : Entries Value} (hencode : (symbol.encode registry).outcome = .ok container) :
    (Value.object container).Legible := by
  obtain ⟨_, heq, hnodup, hget⟩ := exists_outcome_encode hplainly
  obtain rfl := Except.ok.inj (heq.symm.trans hencode)
  refine Value.legible_object.mpr ⟨hnodup, fun entry hentry => ?_⟩
  have hentry' := (Entries.get?_eq_some_iff hnodup).mpr hentry
  rw [hget] at hentry'
  rcases Option.or_eq_some_iff.mp hentry' with hwritten | ⟨-, hwire⟩
  · obtain ⟨encoder, -, hpayload⟩ := Option.bind_eq_some_iff.mp hwritten
    obtain ⟨m, hm, heq⟩ := Option.map_eq_some_iff.mp hpayload
    rw [← heq]
    exact hlegible entry.1 m hm
  · exact (symbol.toCore.plain_of_mem_wire (Entries.mem_of_get?_eq_some hwire)).legible

end Symbol

end SymbolRecord
