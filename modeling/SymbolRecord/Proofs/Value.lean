import SymbolRecord.Json.Writer
import SymbolRecord.Proofs.Entries
/-!
# Values up to the order of keys

A value is written with its keys in ascending order, and what is read back has them in that order.
Readers look keys up by name, so they do not tell a value from its rearrangements.  This module
says what that means, and what a value is made of.

* `Value.ind`: induction over the lists and objects of a value.
* `Value.Within`: the values that occur inside a value.
* `Value.Proper`: no object inside a value has a key twice.
* `Value.Alike`: values that differ in the order of keys only, with one inversion lemma for
  each kind of value.
* `sortKeys_sortKeys`, `alike_sortKeys`: sorting the keys gives the value that stands for all
  its rearrangements.
-/

namespace SymbolRecord

namespace Value

/-- Whether a value is neither a list nor an object. -/
def isLeaf : Value → Bool
  | .list _ => false
  | .object _ => false
  | _ => true

/-- Induction over the lists and objects of a value. -/
theorem ind {motive : Value → Prop} (leaf : ∀ v, isLeaf v = true → motive v)
    (list : ∀ items : List Value, (∀ v ∈ items, motive v) → motive (.list items))
    (object : ∀ entries : Entries Value,
      (∀ entry ∈ entries, motive entry.2) → motive (.object entries)) (v : Value) : motive v := by
  refine @Value.rec motive (fun items => ∀ v ∈ items, motive v)
    (fun entries => ∀ entry ∈ entries, motive entry.2) (fun entry => motive entry.2)
    (leaf _ rfl) (fun _ => leaf _ rfl) (fun _ => leaf _ rfl) (fun _ => leaf _ rfl)
    (fun _ => leaf _ rfl) list object (fun _ _ => leaf _ rfl)
    ?nil ?cons ?noEntries ?entries (fun _ _ h => h) v
  case nil => exact fun _ hmem => absurd hmem List.not_mem_nil
  case cons =>
    intro w rest hw hrest v hmem
    rcases List.mem_cons.mp hmem with rfl | hmem
    · exact hw
    · exact hrest v hmem
  case noEntries => exact fun _ hmem => absurd hmem List.not_mem_nil
  case entries =>
    intro e rest he hrest entry hmem
    rcases List.mem_cons.mp hmem with rfl | hmem
    · exact he
    · exact hrest entry hmem

/-! ## What occurs inside a value -/

/-- `u.Within v` says that `u` is `v` or occurs in one of its lists or objects. -/
inductive Within : Value → Value → Prop where
  | self (v : Value) : Within v v
  | item {u v : Value} {items : List Value} : v ∈ items → Within u v → Within u (.list items)
  | entry {u : Value} {entry : String × Value} {entries : Entries Value} :
    entry ∈ entries → Within u entry.2 → Within u (.object entries)

theorem within_leaf {u v : Value} (hv : isLeaf v = true) : u.Within v ↔ u = v := by
  constructor
  · intro h
    cases h with
    | self => rfl
    | item => exact absurd hv (by simp [isLeaf])
    | entry => exact absurd hv (by simp [isLeaf])
  · rintro rfl
    exact .self _

theorem within_list {u : Value} {items : List Value} :
    u.Within (.list items) ↔ u = .list items ∨ ∃ v ∈ items, u.Within v := by
  constructor
  · intro h
    cases h with
    | self => exact Or.inl rfl
    | item hmem hin => exact Or.inr ⟨_, hmem, hin⟩
  · rintro (rfl | ⟨v, hmem, hin⟩)
    · exact .self _
    · exact .item hmem hin

theorem within_object {u : Value} {entries : Entries Value} :
    u.Within (.object entries) ↔ u = .object entries ∨ ∃ entry ∈ entries, u.Within entry.2 := by
  constructor
  · intro h
    cases h with
    | self => exact Or.inl rfl
    | entry hmem hin => exact Or.inr ⟨_, hmem, hin⟩
  · rintro (rfl | ⟨v, hmem, hin⟩)
    · exact .self _
    · exact .entry hmem hin

/-- No object inside a value has a key twice. -/
def Proper (v : Value) : Prop :=
  ∀ entries : Entries Value, (object entries).Within v → (Entries.keys entries).Nodup

theorem proper_of_isLeaf {v : Value} (hv : isLeaf v = true) : v.Proper := by
  intro entries h
  rw [within_leaf hv] at h
  rw [← h] at hv
  exact absurd hv (by simp [isLeaf])

theorem proper_list {items : List Value} :
    (list items).Proper ↔ ∀ v ∈ items, v.Proper := by
  constructor
  · exact fun h v hmem entries hin => h entries (.item hmem hin)
  · intro h entries hin
    rcases within_list.mp hin with heq | ⟨v, hmem, hv⟩
    · exact absurd heq (by simp)
    · exact h v hmem entries hv

theorem proper_object {entries : Entries Value} :
    (object entries).Proper ↔
      (Entries.keys entries).Nodup ∧ ∀ entry ∈ entries, entry.2.Proper := by
  constructor
  · exact fun h => ⟨h entries (.self _), fun entry hmem es hin => h es (.entry hmem hin)⟩
  · rintro ⟨hnodup, h⟩ es hin
    rcases within_object.mp hin with heq | ⟨entry, hmem, hv⟩
    · rw [object.inj heq]
      exact hnodup
    · exact h entry hmem es hv

/-- Whether a value has a JSON form that says what it is, without regard to its parts: doubles may
have none, and foreign values have none. -/
def isPlain : Value → Bool
  | .float _ => false
  | .foreign _ _ => false
  | _ => true

/-- A plain value is made of lists, objects with distinct keys, texts, integers, truth values and
nulls. -/
structure Plain (v : Value) : Prop where
  /-- No object inside has a key twice. -/
  proper : v.Proper
  /-- Nothing inside is a double or a foreign value. -/
  isPlain : ∀ u : Value, u.Within v → u.isPlain = true

theorem plain_of_isLeaf {v : Value} (hv : isLeaf v = true) (h : v.isPlain = true) : v.Plain := by
  refine ⟨proper_of_isLeaf hv, fun u hu => ?_⟩
  rw [(within_leaf hv).mp hu]
  exact h

theorem plain_list {items : List Value} : (list items).Plain ↔ ∀ v ∈ items, v.Plain := by
  constructor
  · exact fun h v hmem =>
      ⟨proper_list.mp h.proper v hmem, fun u hu => h.isPlain u (.item hmem hu)⟩
  · refine fun h => ⟨proper_list.mpr fun v hmem => (h v hmem).proper, fun u hu => ?_⟩
    rcases within_list.mp hu with rfl | ⟨v, hmem, hin⟩
    · rfl
    · exact (h v hmem).isPlain u hin

theorem plain_object {entries : Entries Value} :
    (object entries).Plain ↔
      (Entries.keys entries).Nodup ∧ ∀ entry ∈ entries, entry.2.Plain := by
  constructor
  · exact fun h => ⟨(proper_object.mp h.proper).1, fun entry hmem =>
      ⟨(proper_object.mp h.proper).2 entry hmem, fun u hu => h.isPlain u (.entry hmem hu)⟩⟩
  · rintro ⟨hnodup, h⟩
    refine ⟨proper_object.mpr ⟨hnodup, fun entry hmem => (h entry hmem).proper⟩, fun u hu => ?_⟩
    rcases within_object.mp hu with rfl | ⟨entry, hmem, hin⟩
    · rfl
    · exact (h entry hmem).isPlain u hin

end Value

/-! ## Sorting keys at every depth -/

namespace Json

theorem sortKeys_leaf {v : Value} (hv : v.isLeaf = true) : sortKeys v = v := by
  cases v with
  | list => exact absurd hv (by simp [Value.isLeaf])
  | object => exact absurd hv (by simp [Value.isLeaf])
  | _ => simp only [sortKeys]

theorem sortItems_eq_map (items : List Value) : sortItems items = items.map sortKeys := by
  induction items with
  | nil => simp only [sortItems, List.map_nil]
  | cons item rest ih => simp only [sortItems, ih, List.map_cons]

theorem sortEntries_eq_mapValues (entries : Entries Value) :
    sortEntries entries = Entries.mapValues sortKeys entries := by
  induction entries with
  | nil => simp only [sortEntries, Entries.mapValues, List.map_nil]
  | cons entry rest ih =>
    obtain ⟨key, v⟩ := entry
    rw [sortEntries, ih]
    rfl

theorem sortKeys_list (items : List Value) :
    sortKeys (.list items) = .list (items.map sortKeys) := by
  rw [sortKeys, sortItems_eq_map]

theorem sortKeys_object (entries : Entries Value) :
    sortKeys (.object entries) = .object (Entries.sorted (Entries.mapValues sortKeys entries)) := by
  rw [sortKeys, sortEntries_eq_mapValues]

theorem isLeaf_sortKeys (v : Value) : (sortKeys v).isLeaf = v.isLeaf := by
  cases v with
  | list => rw [sortKeys_list]; rfl
  | object => rw [sortKeys_object]; rfl
  | _ => rw [sortKeys_leaf rfl]

/-- The entries of an object are sorted as a whole and each for itself. -/
theorem get?_sorted_mapValues {entries : Entries Value} (hnodup : (Entries.keys entries).Nodup)
    (key : String) :
    Entries.get? (Entries.sorted (Entries.mapValues sortKeys entries)) key =
      (Entries.get? entries key).map sortKeys := by
  have hkeys : (Entries.keys (Entries.mapValues sortKeys entries)).Nodup := by
    rwa [Entries.keys_mapValues]
  rw [← Entries.get?_eq_of_perm hkeys (Entries.sorted_perm _).symm, Entries.get?_mapValues]

theorem nodup_keys_sorted_mapValues {entries : Entries Value}
    (hnodup : (Entries.keys entries).Nodup) :
    (Entries.keys (Entries.sorted (Entries.mapValues sortKeys entries))).Nodup :=
  Entries.nodup_keys_sorted (by rwa [Entries.keys_mapValues])

theorem proper_sortKeys {v : Value} (h : v.Proper) : (sortKeys v).Proper := by
  induction v using Value.ind with
  | leaf v hv =>
    rw [sortKeys_leaf hv]
    exact h
  | list items ih =>
    rw [sortKeys_list, Value.proper_list]
    intro w hw
    obtain ⟨v, hmem, rfl⟩ := List.mem_map.mp hw
    exact ih v hmem (Value.proper_list.mp h v hmem)
  | object entries ih =>
    rw [sortKeys_object, Value.proper_object]
    obtain ⟨hnodup, hin⟩ := Value.proper_object.mp h
    refine ⟨nodup_keys_sorted_mapValues hnodup, fun entry hentry => ?_⟩
    obtain ⟨e, hmem, rfl⟩ := List.mem_map.mp ((Entries.sorted_perm _).mem_iff.mp hentry)
    exact ih e hmem (hin e hmem)

/-- What is neither a list nor an object occurs in a value whatever the order of its keys. -/
theorem within_of_within_sortKeys {u v : Value} (hu : u.isLeaf = true)
    (h : u.Within (sortKeys v)) : u.Within v := by
  induction v using Value.ind with
  | leaf v hv =>
    rwa [sortKeys_leaf hv] at h
  | list items ih =>
    rw [sortKeys_list] at h
    rcases Value.within_list.mp h with rfl | ⟨w, hw, hin⟩
    · exact absurd hu (by simp [Value.isLeaf])
    · obtain ⟨v, hv, rfl⟩ := List.mem_map.mp hw
      exact .item hv (ih v hv hin)
  | object entries ih =>
    rw [sortKeys_object] at h
    rcases Value.within_object.mp h with rfl | ⟨entry, hentry, hin⟩
    · exact absurd hu (by simp [Value.isLeaf])
    · obtain ⟨e, he, rfl⟩ := List.mem_map.mp ((Entries.sorted_perm _).mem_iff.mp hentry)
      exact .entry he (ih e he hin)

/-- Sorted keys are sorted for good. -/
theorem sortKeys_sortKeys {v : Value} (h : v.Proper) : sortKeys (sortKeys v) = sortKeys v := by
  induction v using Value.ind with
  | leaf v hv => rw [sortKeys_leaf hv, sortKeys_leaf hv]
  | list items ih =>
    rw [sortKeys_list, sortKeys_list, List.map_map]
    refine congrArg Value.list (List.map_congr_left fun v hmem => ?_)
    exact ih v hmem (Value.proper_list.mp h v hmem)
  | object entries ih =>
    obtain ⟨hnodup, hin⟩ := Value.proper_object.mp h
    have hsorted := nodup_keys_sorted_mapValues hnodup
    rw [sortKeys_object, sortKeys_object]
    refine congrArg Value.object (Entries.sorted_eq_of_get?_eq (by rwa [Entries.keys_mapValues])
      (by rwa [Entries.keys_mapValues]) fun key => ?_)
    rw [Entries.get?_mapValues, get?_sorted_mapValues hnodup, Entries.get?_mapValues,
      Option.map_map]
    cases hget : Entries.get? entries key with
    | none => rfl
    | some v =>
      have hmem := Entries.mem_of_get?_eq_some hget
      exact congrArg some (ih _ hmem (hin _ hmem))

end Json

/-! ## Values that differ in the order of keys only -/

namespace Value

open Json

/-- Two values are alike when they are the same once all keys are in ascending order. -/
def Alike (v w : Value) : Prop := sortKeys v = sortKeys w

@[simp] theorem Alike.refl (v : Value) : v.Alike v := rfl

theorem Alike.symm {v w : Value} (h : v.Alike w) : w.Alike v := Eq.symm h

theorem alike_sortKeys {v : Value} (h : v.Proper) : (sortKeys v).Alike v := sortKeys_sortKeys h

theorem Alike.eq_of_isLeaf {v w : Value} (h : v.Alike w) (hw : isLeaf w = true) : v = w := by
  have hv : isLeaf v = true := by
    rw [← isLeaf_sortKeys, show sortKeys v = sortKeys w from h, isLeaf_sortKeys, hw]
  rw [← sortKeys_leaf hv, show sortKeys v = sortKeys w from h, sortKeys_leaf hw]

theorem Alike.isLeaf_eq {v w : Value} (h : v.Alike w) : v.isLeaf = w.isLeaf := by
  rw [← isLeaf_sortKeys, show sortKeys v = sortKeys w from h, isLeaf_sortKeys]

/-- What is alike to a list is a list of alike items. -/
theorem Alike.exists_list {v : Value} {items : List Value} (h : v.Alike (.list items)) :
    ∃ items', v = .list items' ∧ items'.map sortKeys = items.map sortKeys := by
  have hleaf : v.isLeaf = false := h.isLeaf_eq
  have heq : sortKeys v = sortKeys (.list items) := h
  rw [sortKeys_list] at heq
  cases v with
  | list items' =>
    rw [sortKeys_list] at heq
    exact ⟨items', rfl, list.inj heq⟩
  | object entries =>
    rw [sortKeys_object] at heq
    exact absurd heq (by simp)
  | _ => exact absurd hleaf (by simp [isLeaf])

/-- What is alike to an object is an object with alike values under the same keys. -/
theorem Alike.exists_object {v : Value} {entries : Entries Value} (h : v.Alike (.object entries))
    (hnodup : (Entries.keys entries).Nodup) :
    ∃ entries', v = .object entries' ∧ (Entries.keys entries').Nodup ∧
      ∀ key,
        (Entries.get? entries' key).map sortKeys = (Entries.get? entries key).map sortKeys := by
  have hleaf : v.isLeaf = false := h.isLeaf_eq
  have heq : sortKeys v = sortKeys (.object entries) := h
  rw [sortKeys_object] at heq
  cases v with
  | list items =>
    rw [sortKeys_list] at heq
    exact absurd heq (by simp)
  | object entries' =>
    rw [sortKeys_object] at heq
    have hsorted := object.inj heq
    have hperm : (Entries.keys entries').Perm (Entries.keys entries) := by
      have h₁ := Entries.keys_perm (Entries.sorted_perm (Entries.mapValues sortKeys entries'))
      have h₂ := Entries.keys_perm (Entries.sorted_perm (Entries.mapValues sortKeys entries))
      rw [Entries.keys_mapValues] at h₁ h₂
      rw [hsorted] at h₁
      exact h₁.symm.trans h₂
    have hnodup' := hperm.symm.nodup hnodup
    refine ⟨entries', rfl, hnodup', fun key => ?_⟩
    rw [← get?_sorted_mapValues hnodup', ← get?_sorted_mapValues hnodup, hsorted]
  | _ => exact absurd hleaf (by simp [isLeaf])

/-- Objects with alike values under the same keys are alike. -/
theorem alike_object {a b : Entries Value} (ha : (Entries.keys a).Nodup)
    (hb : (Entries.keys b).Nodup)
    (h : ∀ key, (Entries.get? a key).map sortKeys = (Entries.get? b key).map sortKeys) :
    (object a).Alike (.object b) := by
  rw [Alike, sortKeys_object, sortKeys_object]
  refine congrArg object (Entries.sorted_eq_of_get?_eq (by rwa [Entries.keys_mapValues])
    (by rwa [Entries.keys_mapValues]) fun key => ?_)
  rw [Entries.get?_mapValues, Entries.get?_mapValues, h]

end Value

end SymbolRecord
