import SymbolRecord.Proofs.Token
/-!
# Values that come back from their texts

The text of a value says what the value is unless an object has a key twice, of which one is lost,
or a double is written as something else.  Everything that the library writes of its own is legible,
as it has no doubles; what callers write need not be.

* `Value.Legible`: no key twice, and doubles that are read back.
* `Value.legible_list`, `Value.legible_object`: legible values are made of legible values.
* `Value.Plain.legible`: plain values are legible.
-/

namespace SymbolRecord

open Json

namespace Value

/-- A value is legible when no object inside it has a key twice and the doubles inside it are read
back from their texts. -/
structure Legible (v : Value) : Prop where
  /-- No object inside has a key twice. -/
  proper : v.Proper
  /-- The doubles inside are read back from their texts. -/
  spelled : ∀ x, (float x).Within v → Spelled (.float x)

theorem Plain.legible {v : Value} (h : v.Plain) : v.Legible where
  proper := h.proper
  spelled _ hx := absurd (h.isPlain _ hx) Bool.false_ne_true

theorem legible_list {items : List Value} :
    (list items).Legible ↔ ∀ v ∈ items, v.Legible := by
  constructor
  · exact fun h v hv => ⟨proper_list.mp h.proper v hv, fun x hx => h.spelled x (.item hv hx)⟩
  · refine fun h => ⟨proper_list.mpr fun v hv => (h v hv).proper, fun x hx => ?_⟩
    rcases within_list.mp hx with heq | ⟨v, hv, hin⟩
    · nomatch heq
    · exact (h v hv).spelled x hin

theorem legible_object {entries : Entries Value} :
    (object entries).Legible ↔
      (Entries.keys entries).Nodup ∧ ∀ entry ∈ entries, entry.2.Legible := by
  constructor
  · intro h
    obtain ⟨hnodup, hproper⟩ := proper_object.mp h.proper
    exact ⟨hnodup, fun entry hentry =>
      ⟨hproper entry hentry, fun x hx => h.spelled x (.entry hentry hx)⟩⟩
  · rintro ⟨hnodup, h⟩
    refine ⟨proper_object.mpr ⟨hnodup, fun entry hentry => (h entry hentry).proper⟩,
      fun x hx => ?_⟩
    rcases within_object.mp hx with heq | ⟨entry, hentry, hin⟩
    · nomatch heq
    · exact (h entry hentry).spelled x hin

/-- Legible values stay so with their keys in ascending order. -/
theorem Legible.sortKeys {v : Value} (h : v.Legible) : (Json.sortKeys v).Legible where
  proper := proper_sortKeys h.proper
  spelled x hx := h.spelled x (within_of_within_sortKeys rfl hx)

end Value

end SymbolRecord
