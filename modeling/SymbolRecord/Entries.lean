/-!
# Keyed entries in insertion order

Objects, the mixins of a symbol, the slices of a snippet and the registrations of a coder are
all maps from text keys whose order of insertion is visible.  `Entries` is the plain list of
pairs with the map operations on it; `Table` is an entry list whose keys are distinct, for the
places where that is an invariant.

* `Entries.get?`, `Entries.put`, `Entries.erase`: look up, replace in place or append, remove.
* `Entries.sortedKeys`: the keys in ascending order, each once.
* `Entries.sorted`: the entries in ascending order of their keys.
* `Table`: entries with distinct keys, with the same operations.
* `Entries.get?_put`, `Entries.get?_erase`: how the operations change a look-up.
* `Entries.nodup_keys_put`, `Entries.nodup_keys_erase`: they keep keys distinct.
-/

namespace SymbolRecord

/-- Keyed values in the order of insertion. -/
abbrev Entries (α : Type) : Type := List (String × α)

namespace Entries

variable {α β : Type}

/-- The keys in the order of the entries. -/
def keys (entries : Entries α) : List String :=
  entries.map Prod.fst

@[simp] theorem keys_nil : keys ([] : Entries α) = [] := rfl

@[simp] theorem keys_cons (entry : String × α) (rest : Entries α) :
    keys (entry :: rest) = entry.1 :: keys rest := rfl

/-- The value stored under a key. -/
def get? : Entries α → String → Option α
  | [], _ => none
  | (k, v) :: rest, key => if k = key then some v else get? rest key

@[simp] theorem get?_nil (key : String) : get? ([] : Entries α) key = none := rfl

theorem get?_cons (k : String) (v : α) (rest : Entries α) (key : String) :
    get? ((k, v) :: rest) key = if k = key then some v else get? rest key := rfl

/-- Whether a key occurs. -/
def has (entries : Entries α) (key : String) : Bool :=
  (entries.get? key).isSome

/-- Stores a value: an existing key keeps its place, a new one goes to the end. -/
def put : Entries α → String → α → Entries α
  | [], key, value => [(key, value)]
  | (k, v) :: rest, key, value =>
    if k = key then (k, value) :: rest else (k, v) :: put rest key value

/-- Removes every entry under a key. -/
def erase (entries : Entries α) (key : String) : Entries α :=
  entries.filter fun entry => entry.1 ≠ key

/-- Changes every value and keeps keys and order. -/
def mapValues (f : α → β) (entries : Entries α) : Entries β :=
  entries.map fun entry => (entry.1, f entry.2)

/-- Builds entries from pairs by storing them one after another, so the last value of a
repeated key stands in the place of the first. -/
def ofPairs (pairs : List (String × α)) : Entries α :=
  pairs.foldl (fun entries pair => put entries pair.1 pair.2) []

/-! ## Look-up after an operation -/

theorem get?_put (entries : Entries α) (key : String) (value : α) (other : String) :
    get? (put entries key value) other =
      if key = other then some value else get? entries other := by
  induction entries with
  | nil => rfl
  | cons entry rest ih =>
    obtain ⟨k, v⟩ := entry
    by_cases hk : k = key
    · subst hk
      by_cases ho : k = other <;> simp [put, get?_cons, ho]
    · by_cases ho : k = other
      · subst ho
        have hne : key ≠ k := fun h => hk h.symm
        simp [put, get?_cons, hk, hne]
      · simp [put, get?_cons, hk, ho, ih]

@[simp] theorem get?_put_self (entries : Entries α) (key : String) (value : α) :
    get? (put entries key value) key = some value := by
  simp [get?_put]

theorem get?_erase (entries : Entries α) (key other : String) :
    get? (erase entries key) other = if key = other then none else get? entries other := by
  induction entries with
  | nil => simp [erase]
  | cons entry rest ih =>
    obtain ⟨k, v⟩ := entry
    unfold erase at ih ⊢
    by_cases hk : k = key
    · subst hk
      by_cases ho : k = other
      · subst ho
        simpa using ih
      · simpa [get?_cons, ho] using ih
    · by_cases ho : k = other
      · subst ho
        have hne : key ≠ k := fun h => hk h.symm
        simp [get?_cons, hk, hne]
      · simpa [get?_cons, hk, ho] using ih

theorem get?_eq_none_iff (entries : Entries α) (key : String) :
    get? entries key = none ↔ key ∉ keys entries := by
  induction entries with
  | nil => simp
  | cons entry rest ih =>
    obtain ⟨k, v⟩ := entry
    by_cases hk : k = key
    · simp [get?_cons, hk]
    · have hne : key ≠ k := fun h => hk h.symm
      simp [get?_cons, hk, hne, ih]

theorem mem_keys_put (entries : Entries α) (key : String) (value : α) (other : String) :
    other ∈ keys (put entries key value) ↔ other = key ∨ other ∈ keys entries := by
  induction entries with
  | nil => simp [put]
  | cons entry rest ih =>
    obtain ⟨k, v⟩ := entry
    by_cases hk : k = key
    · subst hk
      simp [put]
    · simp only [put, hk, if_false, keys_cons, List.mem_cons, ih]
      exact or_left_comm

/-! ## Distinct keys -/

theorem nodup_keys_put {entries : Entries α} (h : (keys entries).Nodup) (key : String)
    (value : α) : (keys (put entries key value)).Nodup := by
  induction entries with
  | nil => simp [put]
  | cons entry rest ih =>
    obtain ⟨k, v⟩ := entry
    rw [keys_cons, List.nodup_cons] at h
    by_cases hk : k = key
    · simpa [put, hk] using ⟨hk ▸ h.1, h.2⟩
    · rw [put, if_neg hk, keys_cons, List.nodup_cons, mem_keys_put]
      exact ⟨fun hm => hm.elim hk h.1, ih h.2⟩

theorem nodup_keys_filter {entries : Entries α} (h : (keys entries).Nodup)
    (p : String × α → Bool) : (keys (entries.filter p)).Nodup := by
  unfold keys at h ⊢
  exact List.Pairwise.sublist (List.Sublist.map _ List.filter_sublist) h

theorem nodup_keys_erase {entries : Entries α} (h : (keys entries).Nodup) (key : String) :
    (keys (erase entries key)).Nodup :=
  nodup_keys_filter h _

/-! ## Ascending order -/

/-- Puts a key into an ascending list unless it is there. -/
def insertKey (key : String) : List String → List String
  | [] => [key]
  | k :: rest =>
    if key < k then key :: k :: rest
    else if key = k then k :: rest
    else k :: insertKey key rest

/-- The given keys in ascending order of their code points, each once. -/
def ascending (ks : List String) : List String :=
  ks.foldr insertKey []

/-- The keys of the entries in ascending order, each once. -/
def sortedKeys (entries : Entries α) : List String :=
  ascending (keys entries)

/-- Puts an entry into an ascending list, before the entries with a larger key. -/
def insertEntry (entry : String × α) : Entries α → Entries α
  | [] => [entry]
  | next :: rest =>
    if entry.1 < next.1 then entry :: next :: rest else next :: insertEntry entry rest

/-- The entries in ascending order of their keys. -/
def sorted (entries : Entries α) : Entries α :=
  entries.foldr insertEntry []

theorem mem_insertKey (key other : String) (ks : List String) :
    other ∈ insertKey key ks ↔ other = key ∨ other ∈ ks := by
  induction ks with
  | nil => simp [insertKey]
  | cons k rest ih =>
    unfold insertKey
    split
    · simp
    · split
      · rename_i h
        subst h
        simp
      · simp only [List.mem_cons, ih]
        exact or_left_comm

/-- Sorting keys neither loses nor invents one. -/
theorem mem_ascending (ks : List String) (key : String) : key ∈ ascending ks ↔ key ∈ ks := by
  induction ks with
  | nil => simp [ascending]
  | cons k rest ih =>
    rw [ascending, List.foldr_cons, mem_insertKey, List.mem_cons]
    exact or_congr_right ih

@[simp] theorem mem_sortedKeys (entries : Entries α) (key : String) :
    key ∈ sortedKeys entries ↔ key ∈ keys entries :=
  mem_ascending _ _

end Entries

/-! ## Tables -/

/-- Keyed values whose keys are distinct, in the order of insertion. -/
@[ext] structure Table (α : Type) where
  /-- The pairs in the order of insertion. -/
  entries : Entries α
  /-- No key occurs twice. -/
  nodup_keys : entries.keys.Nodup

namespace Table

variable {α β : Type}

instance [DecidableEq α] : DecidableEq (Table α) := fun a b =>
  decidable_of_iff (a.entries = b.entries) Table.ext_iff.symm

/-- The table without entries. -/
def empty : Table α := ⟨[], List.nodup_nil⟩

instance : Inhabited (Table α) := ⟨empty⟩

/-- The value stored under a key. -/
def get? (table : Table α) (key : String) : Option α := table.entries.get? key

/-- Stores a value: an existing key keeps its place, a new one goes to the end. -/
def put (table : Table α) (key : String) (value : α) : Table α :=
  ⟨table.entries.put key value, Entries.nodup_keys_put table.nodup_keys key value⟩

/-- Removes a key. -/
def erase (table : Table α) (key : String) : Table α :=
  ⟨table.entries.erase key, Entries.nodup_keys_erase table.nodup_keys key⟩

/-- The keys in the order of insertion. -/
def keys (table : Table α) : List String := table.entries.keys

/-- Stores pairs one after another; of a repeated key the last value counts. -/
def ofPairs (pairs : List (String × α)) : Table α :=
  pairs.foldl (fun table pair => table.put pair.1 pair.2) empty

@[simp] theorem get?_empty (key : String) : (empty : Table α).get? key = none := rfl

theorem get?_put (table : Table α) (key : String) (value : α) (other : String) :
    (table.put key value).get? other = if key = other then some value else table.get? other :=
  Entries.get?_put _ _ _ _

theorem get?_erase (table : Table α) (key other : String) :
    (table.erase key).get? other = if key = other then none else table.get? other :=
  Entries.get?_erase _ _ _

/-- Two tables agree when they hold the same keys with the same values, in any order. -/
def agrees [BEq α] (a b : Table α) : Bool :=
  a.entries.length == b.entries.length &&
    a.entries.all fun entry => match b.get? entry.1 with
      | some value => entry.2 == value
      | none => false

end Table

end SymbolRecord
