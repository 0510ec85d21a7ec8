import SymbolRecord.Proofs.Dispatch
/-!
# What decoding sees of a record

A record may have any keys in any order, and most of them are none of decoding's business.  What it
sees are the core keys and the keys that resolve to a decoder; two records that look the same in
this way come to the same thing, be it a symbol or a failure, down to its words.

Nothing but the guards keeps the other keys out: the core fields are described with names beside
their keys, such as `path_components`, under which a value would be accepted if it got as far as
that, and every decoder is handed the whole record.

* `Registry.sees`: the keys that decoding looks at.
* `Symbol.decodableKeys_congr`: which keys are decoded, and in which order, is seen.
* `Symbol.outcome_decode_of_seen`: the outcome of decoding is determined by what is seen.
-/

namespace SymbolRecord

/-- Whether decoding looks at a key. -/
def Registry.sees (registry : Registry) (key : String) : Bool :=
  Core.isKey key || (registry.decoder? key).isSome

namespace Symbol

variable {registry : Registry} {record record' : Entries Value}

/-- Records that look the same have the same keys decoded, in the same order. -/
theorem decodableKeys_congr
    (h : ∀ key, (registry.decoder? key).isSome → record.get? key = record'.get? key) :
    decodableKeys registry record = decodableKeys registry record' := by
  refine Entries.eq_of_pairwise_lt (pairwise_decodableKeys registry record)
    (pairwise_decodableKeys registry record') fun key => ?_
  rw [mem_decodableKeys, mem_decodableKeys, ← Entries.isSome_get?_iff, ← Entries.isSome_get?_iff]
  refine and_congr_left fun ⟨_, hdecoder⟩ => ?_
  rw [h key hdecoder]

/-- Records that look the same have the same mixins read. -/
theorem outcome_readMixins_of_seen (hplain : ∀ key, registry.ReadsPlainly key)
    (h : ∀ key, (registry.decoder? key).isSome → record.get? key = record'.get? key)
    (mixins : Table Mixin) :
    (readMixins registry record (otherKeys record) mixins).outcome =
      (readMixins registry record' (otherKeys record') mixins).outcome := by
  rw [outcome_readMixins_decodableKeys, outcome_readMixins_decodableKeys, decodableKeys_congr h]
  exact readMixins_congr mixins fun key _ => readMixin_congr (hplain key) (h key)

/-- **The outcome of decoding is determined by what is seen of a record.**  Two records that have
the same values under all core keys and under all keys that are decoded, or lack them both, are
decoded as the same symbol or fail with the same failure, whatever their other keys hold and in
whatever order their keys stand.  So what is written for them is the same byte by byte. -/
theorem outcome_decode_of_seen (registry : Registry)
    (hplain : ∀ key, registry.ReadsPlainly key) (record record' : Entries Value)
    (hseen : ∀ key, registry.sees key = true → record.get? key = record'.get? key) :
    (decode registry (.object record)).outcome = (decode registry (.object record')).outcome ∧
      ∀ coder : Coder,
        ((decode registry (.object record)).andThen coder.encode).outcome =
          ((decode registry (.object record')).andThen coder.encode).outcome := by
  have hcore : readCore record = readCore record' :=
    readCore_congr fun key hkey => hseen key (by rw [Registry.sees, hkey, Bool.true_or])
  have hmixins := outcome_readMixins_of_seen hplain
    (fun key hdecoder => hseen key (by rw [Registry.sees, hdecoder, Bool.or_true])) .empty
  have houtcome : (decode registry (.object record)).outcome =
      (decode registry (.object record')).outcome := by
    rw [outcome_decode_object, outcome_decode_object, hcore, hmixins]
  refine ⟨houtcome, fun coder => ?_⟩
  rw [Run.outcome_andThen, Run.outcome_andThen, houtcome]

/-- Keys that nothing looks at: names of core fields that are not their keys, a key that is only
written, and others. -/
def unseen : Entries Value :=
  [("mixins", .object [("spi", .bool true)]), ("path_components", .list [.text "hidden"]),
    ("doc_comment", .null), ("access_level", .text "private"), ("draft", .text "lost")]

/-- A record with its keys in another order, and with keys in front that nothing looks at, is
decoded as the same symbol. -/
theorem outcome_decode_of_unseen :
    (decode notes (.object plainRecord)).outcome =
        (decode notes (.object (unseen ++ plainRecord.reverse))).outcome ∧
      (decode notes (.object plainRecord)).outcome.isOk = true := by
  refine ⟨(outcome_decode_of_seen notes standard_notes.readsPlainly plainRecord
    (unseen ++ plainRecord.reverse) fun key hseen => ?_).1, by decide +kernel⟩
  have hunseen : ∀ key ∈ unseen.keys, notes.sees key = false := by decide +kernel
  have hnone : unseen.get? key = none := by
    refine (Entries.get?_eq_none_iff _ _).mpr fun hmem => ?_
    rw [hunseen key hmem] at hseen
    exact absurd hseen Bool.false_ne_true
  rw [Entries.get?_append, hnone, Option.none_or]
  exact Entries.get?_eq_of_perm (by decide) (List.reverse_perm _).symm key

end Symbol

end SymbolRecord
