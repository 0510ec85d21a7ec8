import SymbolRecord.Entries
/-!
# Entries as maps

Two entry lists with distinct keys that hold the same pairs are the same map, whatever the order
of the pairs.  This module ties the three views of an entry list together: its pairs, its look-ups
and its pairs in ascending order of their keys.

* `get?_eq_some_iff`, `get?_eq_of_perm`: looking up sees the pairs and not their order.
* `pairwise_sorted`, `sorted_eq_of_perm`: sorting forgets the order of insertion.
* `pairwise_ascending`, `eq_of_pairwise_lt`: sorted keys are strictly ascending, and known by which
  keys they are.
* `sorted_eq_of_get?_eq`: entries with the same look-ups are the same when sorted.
-/

namespace SymbolRecord

namespace Entries

variable {α β : Type}

/-! ## Look-up and pairs -/

theorem get?_append (a b : Entries α) (key : String) :
    get? (a ++ b) key = (get? a key).or (get? b key) := by
  induction a with
  | nil => rfl
  | cons entry rest ih =>
    obtain ⟨k, v⟩ := entry
    rw [List.cons_append, get?_cons, get?_cons, ih]
    split
    · rfl
    · rfl

theorem get?_mapValues (f : α → β) (entries : Entries α) (key : String) :
    get? (mapValues f entries) key = (get? entries key).map f := by
  induction entries with
  | nil => rfl
  | cons entry rest ih =>
    obtain ⟨k, v⟩ := entry
    have hcons : mapValues f ((k, v) :: rest) = (k, f v) :: mapValues f rest := rfl
    rw [hcons, get?_cons, get?_cons, ih]
    split
    · rfl
    · rfl

theorem get?_filter (p : String → Bool) (entries : Entries α) (key : String) :
    get? (entries.filter fun entry => p entry.1) key =
      if p key then get? entries key else none := by
  induction entries with
  | nil => simp
  | cons entry rest ih =>
    obtain ⟨k, v⟩ := entry
    rw [List.filter_cons]
    by_cases hk : k = key
    · subst hk
      cases hp : p k with
      | true => simp [get?_cons]
      | false => simpa [hp] using ih
    · cases hp : p k with
      | true => simpa [hp, get?_cons, hk] using ih
      | false => simpa [hp, get?_cons, hk] using ih

@[simp] theorem keys_append (a b : Entries α) : keys (a ++ b) = keys a ++ keys b :=
  List.map_append

@[simp] theorem keys_mapValues (f : α → β) (entries : Entries α) :
    keys (mapValues f entries) = keys entries := by
  unfold keys mapValues
  rw [List.map_map]
  rfl

/-- The keys of entries that are made key by key are those for which one is made. -/
theorem keys_filterMap (f : String → Option α) (ks : List String) :
    keys (ks.filterMap fun key => (f key).map fun v => (key, v)) =
      ks.filter fun key => (f key).isSome := by
  induction ks with
  | nil => rfl
  | cons key rest ih =>
    rw [List.filterMap_cons, List.filter_cons]
    cases f key with
    | none => exact ih
    | some v => exact congrArg (List.cons key) ih

theorem keys_erase (entries : Entries α) (key : String) :
    keys (erase entries key) = (keys entries).filter (· ≠ key) := by
  unfold keys erase
  rw [List.filter_map]
  rfl

theorem mem_keys {entries : Entries α} {key : String} :
    key ∈ keys entries ↔ ∃ v, (key, v) ∈ entries := by
  unfold keys
  rw [List.mem_map]
  constructor
  · rintro ⟨⟨k, v⟩, hmem, rfl⟩
    exact ⟨v, hmem⟩
  · rintro ⟨v, hmem⟩
    exact ⟨(key, v), hmem, rfl⟩

theorem mem_of_get?_eq_some {entries : Entries α} {key : String} {v : α}
    (h : get? entries key = some v) : (key, v) ∈ entries := by
  induction entries with
  | nil => exact absurd h (by simp)
  | cons entry rest ih =>
    obtain ⟨k, w⟩ := entry
    rw [get?_cons] at h
    split at h
    · next hk =>
      rw [hk, Option.some_inj.mp h]
      exact List.mem_cons_self
    · exact List.mem_cons_of_mem _ (ih h)

theorem get?_eq_some_iff {entries : Entries α} (hnodup : (keys entries).Nodup) {key : String}
    {v : α} : get? entries key = some v ↔ (key, v) ∈ entries := by
  refine ⟨mem_of_get?_eq_some, fun hmem => ?_⟩
  induction entries with
  | nil => exact absurd hmem List.not_mem_nil
  | cons entry rest ih =>
    obtain ⟨k, w⟩ := entry
    rw [keys_cons, List.nodup_cons] at hnodup
    rw [get?_cons]
    rcases List.mem_cons.mp hmem with heq | htail
    · obtain ⟨rfl, rfl⟩ := Prod.mk.inj heq
      rw [if_pos rfl]
    · have hne : k ≠ key := by
        rintro rfl
        exact hnodup.1 (mem_keys.mpr ⟨v, htail⟩)
      rw [if_neg hne]
      exact ih hnodup.2 htail

theorem isSome_get?_iff {entries : Entries α} {key : String} :
    (get? entries key).isSome = true ↔ key ∈ keys entries := by
  rw [← Option.ne_none_iff_isSome, ne_eq, get?_eq_none_iff, Decidable.not_not]

theorem keys_perm {a b : Entries α} (h : a.Perm b) : (keys a).Perm (keys b) :=
  h.map Prod.fst

/-- The order of the pairs does not matter to a look-up. -/
theorem get?_eq_of_perm {a b : Entries α} (hnodup : (keys a).Nodup) (h : a.Perm b)
    (key : String) : get? a key = get? b key := by
  have hnodup' : (keys b).Nodup := (keys_perm h).nodup hnodup
  ext v
  rw [get?_eq_some_iff hnodup, get?_eq_some_iff hnodup', h.mem_iff]

theorem nodup_of_nodup_keys {entries : Entries α} (h : (keys entries).Nodup) : entries.Nodup :=
  List.Pairwise.of_map Prod.fst (fun _ _ hne heq => hne (congrArg Prod.fst heq)) h

theorem perm_of_get?_eq {a b : Entries α} (ha : (keys a).Nodup) (hb : (keys b).Nodup)
    (h : ∀ key, get? a key = get? b key) : a.Perm b := by
  refine (List.perm_ext_iff_of_nodup (nodup_of_nodup_keys ha) (nodup_of_nodup_keys hb)).mpr
    fun entry => ?_
  obtain ⟨key, v⟩ := entry
  rw [← get?_eq_some_iff ha, ← get?_eq_some_iff hb, h]

/-! ## Storing under a new key -/

theorem put_of_notMem {entries : Entries α} {key : String} (h : key ∉ keys entries) (v : α) :
    put entries key v = entries ++ [(key, v)] := by
  induction entries with
  | nil => rfl
  | cons entry rest ih =>
    obtain ⟨k, w⟩ := entry
    rw [keys_cons, List.mem_cons, not_or] at h
    rw [put, if_neg (fun hk => h.1 hk.symm), ih h.2, List.cons_append]

/-! ## Ascending order -/

theorem insertEntry_perm (entry : String × α) (entries : Entries α) :
    (insertEntry entry entries).Perm (entry :: entries) := by
  induction entries with
  | nil => exact List.Perm.refl _
  | cons next rest ih =>
    rw [insertEntry]
    split
    · exact List.Perm.refl _
    · exact (ih.cons next).trans (List.Perm.swap entry next rest)

/-- Sorting neither loses nor invents a pair. -/
theorem sorted_perm (entries : Entries α) : (sorted entries).Perm entries := by
  induction entries with
  | nil => exact List.Perm.refl _
  | cons entry rest ih => exact (insertEntry_perm entry (sorted rest)).trans (ih.cons entry)

theorem nodup_keys_sorted {entries : Entries α} (h : (keys entries).Nodup) :
    (keys (sorted entries)).Nodup :=
  (keys_perm (sorted_perm entries)).symm.nodup h

theorem mapValues_insertEntry (f : α → β) (entry : String × α) (entries : Entries α) :
    mapValues f (insertEntry entry entries) =
      insertEntry (entry.1, f entry.2) (mapValues f entries) := by
  induction entries with
  | nil => rfl
  | cons next rest ih =>
    have hcons : mapValues f (next :: rest) = (next.1, f next.2) :: mapValues f rest := rfl
    rw [insertEntry, hcons, insertEntry]
    split
    · rfl
    · exact congrArg (List.cons (next.1, f next.2)) ih

/-- Sorting looks at the keys only. -/
theorem sorted_mapValues (f : α → β) (entries : Entries α) :
    sorted (mapValues f entries) = mapValues f (sorted entries) := by
  induction entries with
  | nil => rfl
  | cons entry rest ih =>
    have hcons : sorted (mapValues f (entry :: rest)) =
        insertEntry (entry.1, f entry.2) (sorted (mapValues f rest)) := rfl
    rw [hcons, ih, ← mapValues_insertEntry]
    rfl

theorem pairwise_insertEntry (entry : String × α) {entries : Entries α}
    (h : entries.Pairwise fun a b => ¬ b.1 < a.1) :
    (insertEntry entry entries).Pairwise fun a b => ¬ b.1 < a.1 := by
  induction entries with
  | nil => exact List.pairwise_singleton _ _
  | cons next rest ih =>
    have htail := List.pairwise_cons.mp h
    rw [insertEntry]
    split
    · next hlt =>
      refine List.pairwise_cons.mpr ⟨fun other hmem => ?_, h⟩
      rcases List.mem_cons.mp hmem with rfl | hrest
      · exact String.lt_asymm hlt
      · exact fun hother => htail.1 other hrest (String.lt_trans hother hlt)
    · next hle =>
      refine List.pairwise_cons.mpr ⟨fun other hmem => ?_, ih htail.2⟩
      rcases List.mem_cons.mp ((insertEntry_perm entry rest).mem_iff.mp hmem) with rfl | hrest
      · exact hle
      · exact htail.1 other hrest

/-- Sorted pairs ascend by their keys. -/
theorem pairwise_sorted (entries : Entries α) :
    (sorted entries).Pairwise fun a b => ¬ b.1 < a.1 := by
  induction entries with
  | nil => exact List.Pairwise.nil
  | cons entry rest ih => exact pairwise_insertEntry entry ih

theorem eq_of_perm_of_pairwise {a b : Entries α} (hnodup : (keys a).Nodup)
    (ha : a.Pairwise fun x y => ¬ y.1 < x.1) (hb : b.Pairwise fun x y => ¬ y.1 < x.1)
    (h : a.Perm b) : a = b := by
  refine List.Perm.eq_of_pairwise (fun x y hx hy hxy hyx => ?_) ha hb h
  have hkey : x.1 = y.1 := String.le_antisymm (String.not_lt.mp hxy) (String.not_lt.mp hyx)
  obtain ⟨k, v⟩ := x
  obtain ⟨l, w⟩ := y
  have hkl : k = l := hkey
  subst hkl
  have hv := (get?_eq_some_iff hnodup).mpr hx
  have hw := (get?_eq_some_iff hnodup).mpr (h.mem_iff.mpr hy)
  rw [Option.some_inj.mp (hv.symm.trans hw)]

/-- Sorting forgets the order of insertion. -/
theorem sorted_eq_of_perm {a b : Entries α} (hnodup : (keys a).Nodup) (h : a.Perm b) :
    sorted a = sorted b :=
  eq_of_perm_of_pairwise (nodup_keys_sorted hnodup) (pairwise_sorted a) (pairwise_sorted b)
    (((sorted_perm a).trans h).trans (sorted_perm b).symm)

theorem sorted_eq_of_get?_eq {a b : Entries α} (ha : (keys a).Nodup) (hb : (keys b).Nodup)
    (h : ∀ key, get? a key = get? b key) : sorted a = sorted b :=
  sorted_eq_of_perm ha (perm_of_get?_eq ha hb h)

theorem pairwise_insertKey (key : String) {ks : List String} (h : ks.Pairwise (· < ·)) :
    (insertKey key ks).Pairwise (· < ·) := by
  induction ks with
  | nil => exact List.pairwise_singleton _ _
  | cons k rest ih =>
    have htail := List.pairwise_cons.mp h
    rw [insertKey]
    split
    · next hlt =>
      refine List.pairwise_cons.mpr ⟨fun other hmem => ?_, h⟩
      rcases List.mem_cons.mp hmem with rfl | hrest
      · exact hlt
      · exact String.lt_trans hlt (htail.1 other hrest)
    · split
      · exact h
      · next hle hne =>
        refine List.pairwise_cons.mpr ⟨fun other hmem => ?_, ih htail.2⟩
        rcases (mem_insertKey key other rest).mp hmem with rfl | hrest
        · exact Std.not_le.mp fun hge => hne (String.le_antisymm hge (String.not_lt.mp hle))
        · exact htail.1 other hrest

/-- Keys in ascending order are strictly ascending. -/
theorem pairwise_ascending (ks : List String) : (ascending ks).Pairwise (· < ·) := by
  induction ks with
  | nil => exact List.Pairwise.nil
  | cons k rest ih => exact pairwise_insertKey k ih

/-- No key stands twice in strictly ascending keys. -/
theorem nodup_of_pairwise_lt {ks : List String} (h : ks.Pairwise (· < ·)) : ks.Nodup := by
  refine h.imp ?_
  rintro key _ hlt rfl
  exact String.lt_irrefl key hlt

theorem nodup_sortedKeys (entries : Entries α) : (sortedKeys entries).Nodup :=
  nodup_of_pairwise_lt (pairwise_ascending _)

/-- Strictly ascending keys are known when it is known which keys they are. -/
theorem eq_of_pairwise_lt {ks ls : List String} (hks : ks.Pairwise (· < ·))
    (hls : ls.Pairwise (· < ·)) (h : ∀ key, key ∈ ks ↔ key ∈ ls) : ks = ls := by
  refine List.Perm.eq_of_pairwise (fun key _ _ _ hlt hgt => ?_) hks hls
    ((List.perm_ext_iff_of_nodup (nodup_of_pairwise_lt hks) (nodup_of_pairwise_lt hls)).mpr h)
  exact absurd (String.lt_trans hlt hgt) (String.lt_irrefl key)

/-- Maps with something under the same keys have the same sorted keys. -/
theorem sortedKeys_eq_of_isSome_eq {a : Entries α} {b : Entries β}
    (h : ∀ key, (get? a key).isSome = (get? b key).isSome) : sortedKeys a = sortedKeys b := by
  refine eq_of_pairwise_lt (pairwise_ascending _) (pairwise_ascending _) fun key => ?_
  rw [mem_sortedKeys, mem_sortedKeys, ← isSome_get?_iff, ← isSome_get?_iff, h]

end Entries

/-! ## Tables -/

namespace Table

variable {α : Type}

theorem entries_foldl_put : ∀ (pairs : List (String × α)) (table : Table α),
    (Entries.keys (table.entries ++ pairs)).Nodup →
      (pairs.foldl (fun table pair => table.put pair.1 pair.2) table).entries =
        table.entries ++ pairs
  | [], table, _ => (List.append_nil _).symm
  | (key, a) :: rest, table, hnodup => by
    have hkey : key ∉ Entries.keys table.entries := by
      rw [Entries.keys_append, List.nodup_append] at hnodup
      exact fun hmem => hnodup.2.2 key hmem key List.mem_cons_self rfl
    have hput : (table.put key a).entries = table.entries ++ [(key, a)] :=
      Entries.put_of_notMem hkey a
    have happend : table.entries ++ (key, a) :: rest = (table.put key a).entries ++ rest := by
      rw [hput, List.append_assoc, List.singleton_append]
    rw [happend] at hnodup ⊢
    exact entries_foldl_put rest (table.put key a) hnodup

/-- A table made of pairs with distinct keys holds those pairs. -/
theorem entries_ofPairs {pairs : List (String × α)} (hnodup : (Entries.keys pairs).Nodup) :
    (Table.ofPairs pairs).entries = pairs :=
  entries_foldl_put pairs .empty hnodup

/-- The entries of a table whose keys pass a test. -/
def restrict (table : Table α) (p : String → Bool) : Table α :=
  ⟨table.entries.filter fun entry => p entry.1, Entries.nodup_keys_filter table.nodup_keys _⟩

theorem get?_restrict (table : Table α) (p : String → Bool) (key : String) :
    (table.restrict p).get? key = if p key then table.get? key else none :=
  Entries.get?_filter p table.entries key

/-- Tables with ascending keys and the same look-ups are the same. -/
theorem eq_of_get?_eq {a b : Table α} (ha : a.keys.Pairwise (· < ·))
    (hb : b.keys.Pairwise (· < ·)) (h : ∀ key, a.get? key = b.get? key) : a = b := by
  have hascending : ∀ {table : Table α}, table.keys.Pairwise (· < ·) →
      table.entries.Pairwise fun x y => ¬ y.1 < x.1 := fun hkeys =>
    (List.pairwise_map.mp hkeys).imp fun hlt => String.lt_asymm hlt
  exact Table.ext (Entries.eq_of_perm_of_pairwise a.nodup_keys (hascending ha) (hascending hb)
    (Entries.perm_of_get?_eq a.nodup_keys b.nodup_keys h))

end Table

end SymbolRecord
