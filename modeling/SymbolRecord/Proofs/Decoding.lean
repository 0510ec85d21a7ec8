import SymbolRecord.Symbol.Decode
import SymbolRecord.Proofs.Entries
/-!
# What is read of a record

A record is decoded key by key.  What is found under one key depends on the decoder of that key
alone, and decoding succeeds exactly when the core fields are read and no decoder fails.

* `Symbol.readMixin`: what decoding finds under a key.
* `Symbol.outcome_readMixins_cons`: one step of the loop over the keys.
* `Symbol.exists_outcome_readMixins`, `Symbol.get?_of_readMixins`: the whole loop.
* `Symbol.decode_ok_iff`: when decoding succeeds, and with which symbol.
-/

namespace SymbolRecord

deriving instance DecidableEq for Table
deriving instance DecidableEq for Symbol

/-- A type finds a mixin under a key when it reads one from the payload there. -/
theorem MixinType.outcome_decode_eq_some_iff {type : MixinType} {key : String}
    {record : Entries Value} {m : Mixin} :
    (type.decode key record).outcome = .ok (some m) ↔
      ∃ v, record.get? key = some v ∧ type.read v = .mixin m := by
  unfold decode
  cases record.get? key with
  | none => simp
  | some v =>
    simp only [intake, Option.some.injEq, exists_eq_left']
    cases type.read v with
    | mixin found => simp
    | dropped issues => simp [Run.outcome_andThen, noteDropped, Run.log, Except.bind]
    | refused report => simp

namespace Symbol

variable {registry : Registry} {record : Entries Value}

/-- What decoding finds under a key; without a decoder that is nothing. -/
def readMixin (registry : Registry) (record : Entries Value) (key : String) :
    Except Failure (Option Mixin) :=
  match registry.decoder? key with
  | none => .ok none
  | some decoder => (decoder key record).outcome

/-- Stores what was found under a key. -/
def store (key : String) (mixins : Table Mixin) : Option Mixin → Table Mixin
  | none => mixins
  | some mixin => mixins.put key mixin

theorem get?_store (key : String) (mixins : Table Mixin) (found : Option Mixin)
    (other : String) :
    (store key mixins found).get? other =
      if key = other then found.or (mixins.get? other) else mixins.get? other := by
  cases found with
  | none =>
    rw [Option.none_or, ite_self]
    rfl
  | some mixin => exact Table.get?_put mixins key mixin other

/-- One step of the loop: the first key is read, and what was found is stored. -/
theorem outcome_readMixins_cons (key : String) (rest : List String) (mixins : Table Mixin) :
    (readMixins registry record (key :: rest) mixins).outcome =
      (readMixin registry record key).bind fun found =>
        (readMixins registry record rest (store key mixins found)).outcome := by
  rw [readMixins, readMixin]
  cases registry.decoder? key with
  | none => exact Run.outcome_andThen _ _
  | some decoder =>
    refine (Run.outcome_andThen _ _).trans (congrArg _ ?_)
    funext found
    cases found with
    | none => rfl
    | some _ => rfl

/-- What was found under a key, or nothing when its decoder failed. -/
def found (registry : Registry) (record : Entries Value) (key : String) : Option Mixin :=
  match readMixin registry record key with
  | .ok found => found
  | .error _ => none

theorem readMixin_eq_found {key : String}
    (h : ∃ found, readMixin registry record key = .ok found) :
    readMixin registry record key = .ok (found registry record key) := by
  obtain ⟨m, hm⟩ := h
  rw [found, hm]

/-- When nothing fails, the loop ends with what was found under each of its keys. -/
theorem exists_outcome_readMixins :
    ∀ {ks : List String} (mixins : Table Mixin),
      (∀ key ∈ ks, ∃ found, readMixin registry record key = .ok found) →
      ∃ mixins', (readMixins registry record ks mixins).outcome = .ok mixins' ∧
        ∀ key, mixins'.get? key =
          if key ∈ ks then (found registry record key).or (mixins.get? key)
          else mixins.get? key
  | [], mixins, _ => ⟨mixins, rfl, fun _ => rfl⟩
  | key :: rest, mixins, h => by
    obtain ⟨mixins', hrest, hget⟩ :=
      exists_outcome_readMixins (store key mixins (found registry record key))
        fun other hmem => h other (List.mem_cons_of_mem _ hmem)
    refine ⟨mixins', ?_, fun other => ?_⟩
    · rw [outcome_readMixins_cons, readMixin_eq_found (h key List.mem_cons_self)]
      exact hrest
    · rw [hget, get?_store]
      by_cases hkey : key = other
      · subst hkey
        simp only [if_true, List.mem_cons, true_or]
        split
        · cases found registry record key with
          | none => simp only [Option.none_or]
          | some _ => simp only [Option.some_or]
        · rfl
      · have hmem : other ∈ key :: rest ↔ other ∈ rest := by
          rw [List.mem_cons, or_iff_right fun heq => hkey heq.symm]
        simp only [if_neg hkey, hmem]

/-- When the loop succeeds, no key failed. -/
theorem exists_readMixin_of_readMixins :
    ∀ {ks : List String} {mixins mixins' : Table Mixin},
      (readMixins registry record ks mixins).outcome = .ok mixins' →
      ∀ key ∈ ks, ∃ found, readMixin registry record key = .ok found
  | [], _, _, _ => fun _ hmem => absurd hmem List.not_mem_nil
  | key :: rest, mixins, mixins', h => by
    rw [outcome_readMixins_cons] at h
    cases hfound : readMixin registry record key with
    | error failure =>
      rw [hfound] at h
      exact absurd h (by simp [Except.bind])
    | ok found =>
      rw [hfound] at h
      intro other hmem
      rcases List.mem_cons.mp hmem with rfl | hrest
      · exact ⟨found, hfound⟩
      · exact exists_readMixin_of_readMixins h other hrest

/-- **A loop that succeeds has read every key**, and ends with what was found. -/
theorem readMixin_of_readMixins {ks : List String} {mixins : Table Mixin}
    (h : (readMixins registry record ks .empty).outcome = .ok mixins) {key : String} :
    (key ∈ ks → readMixin registry record key = .ok (mixins.get? key)) ∧
      (key ∉ ks → mixins.get? key = none) := by
  have hfound := exists_readMixin_of_readMixins h
  obtain ⟨mixins', houtcome, hget⟩ := exists_outcome_readMixins .empty hfound
  obtain rfl : mixins' = mixins := Except.ok.inj (houtcome.symm.trans h)
  constructor
  · intro hmem
    rw [readMixin_eq_found (hfound key hmem), hget, if_pos hmem, Table.get?_empty, Option.or_none]
  · intro hmem
    rw [hget, if_neg hmem]
    rfl

theorem mem_otherKeys {key : String} :
    key ∈ otherKeys record ↔ key ∈ Entries.keys record ∧ Core.isKey key = false := by
  rw [otherKeys, List.mem_filter, Entries.mem_sortedKeys, Bool.not_eq_true']

/-! ## Whole records -/

theorem outcome_decode_object (registry : Registry) (record : Entries Value) :
    (decode registry (.object record)).outcome =
      match readCore record with
      | .error error => .error (.decode error)
      | .ok core =>
        (readMixins registry record (otherKeys record) .empty).outcome.map fun mixins =>
          { core with mixins := mixins } := by
  rw [decode]
  cases readCore record with
  | error => rfl
  | ok core => exact Run.outcome_andThen _ _

/-- **Decoding succeeds on objects only**: the core fields must be read, and no mixin may fail. -/
theorem decode_ok_iff {v : Value} {symbol : Symbol} :
    (decode registry v).outcome = .ok symbol ↔
      ∃ record, v = .object record ∧ readCore record = .ok symbol.toCore ∧
        (readMixins registry record (otherKeys record) .empty).outcome = .ok symbol.mixins := by
  constructor
  · intro h
    cases v with
    | object record =>
      rw [outcome_decode_object] at h
      cases hcore : readCore record with
      | error =>
        rw [hcore] at h
        exact absurd h (by simp)
      | ok core =>
        rw [hcore] at h
        cases hmixins : (readMixins registry record (otherKeys record) .empty).outcome with
        | error =>
          simp only [hmixins, Except.map] at h
          exact absurd h (by simp)
        | ok mixins =>
          simp only [hmixins, Except.map] at h
          obtain rfl := Except.ok.inj h
          exact ⟨record, rfl, hcore, hmixins⟩
    | _ => exact absurd h (by simp [decode])
  · rintro ⟨record, rfl, hcore, hmixins⟩
    rw [outcome_decode_object, hcore]
    simp only [hmixins, Except.map]

/-- Decoding an object succeeds when both of its steps do. -/
theorem decode_object_ok_iff {symbol : Symbol} :
    (decode registry (.object record)).outcome = .ok symbol ↔
      readCore record = .ok symbol.toCore ∧
        (readMixins registry record (otherKeys record) .empty).outcome = .ok symbol.mixins := by
  rw [decode_ok_iff]
  constructor
  · rintro ⟨_, heq, hsteps⟩
    obtain rfl := Value.object.inj heq
    exact hsteps
  · exact fun hsteps => ⟨record, rfl, hsteps⟩

/-- What a decoded symbol holds under a key beside those of the core fields. -/
theorem readMixin_of_decode {symbol : Symbol}
    (h : (decode registry (.object record)).outcome = .ok symbol) {key : String}
    (hkey : key ∈ Entries.keys record) (hcore : Core.isKey key = false) :
    readMixin registry record key = .ok (symbol.mixins.get? key) :=
  (readMixin_of_readMixins (decode_object_ok_iff.mp h).2).1 (mem_otherKeys.mpr ⟨hkey, hcore⟩)

/-- A decoded symbol holds nothing under a key that the record lacks, or under a core key. -/
theorem get?_mixins_of_decode {symbol : Symbol}
    (h : (decode registry (.object record)).outcome = .ok symbol) {key : String}
    (hkey : ¬ (key ∈ Entries.keys record ∧ Core.isKey key = false)) :
    symbol.mixins.get? key = none :=
  (readMixin_of_readMixins (decode_object_ok_iff.mp h).2).2 fun hmem => hkey (mem_otherKeys.mp hmem)

/-- A mixin of a decoded symbol was found by the decoder of its key, which is no core key. -/
theorem exists_decoder_of_decode {v : Value} {symbol : Symbol}
    (h : (decode registry v).outcome = .ok symbol) {key : String} {m : Mixin}
    (hm : symbol.mixins.get? key = some m) :
    Core.isKey key = false ∧ ∃ record decoder, registry.decoder? key = some decoder ∧
      (decoder key record).outcome = .ok (some m) := by
  obtain ⟨record, rfl, -, -⟩ := decode_ok_iff.mp h
  by_cases hkey : key ∈ Entries.keys record ∧ Core.isKey key = false
  · have hread := readMixin_of_decode h hkey.1 hkey.2
    rw [hm, readMixin] at hread
    cases hdecoder : registry.decoder? key with
    | none =>
      rw [hdecoder] at hread
      exact absurd hread (by simp)
    | some decoder =>
      rw [hdecoder] at hread
      exact ⟨hkey.2, record, decoder, rfl, hread⟩
  · rw [get?_mixins_of_decode h hkey] at hm
    exact absurd hm (by simp)

/-- Decoding succeeds when the core fields are read and nothing else fails. -/
theorem exists_outcome_decode {core : Core} (hcore : readCore record = .ok core)
    (h : ∀ key ∈ otherKeys record, ∃ found, readMixin registry record key = .ok found) :
    ∃ symbol, (decode registry (.object record)).outcome = .ok symbol ∧ symbol.toCore = core := by
  obtain ⟨mixins, hmixins, -⟩ := exists_outcome_readMixins .empty h
  exact ⟨{ core with mixins := mixins }, decode_ok_iff.mpr ⟨record, rfl, hcore, hmixins⟩, rfl⟩

end Symbol

end SymbolRecord
