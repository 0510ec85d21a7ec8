import SymbolRecord.Codec
import SymbolRecord.Proofs.Value
/-!
# What codecs read back

A codec recovers a record when it reads the record back from its wire form, with the keys of the
wire form in any order.  Each way of building a codec keeps this property, so it holds of a codec
as soon as it holds of its parts; there is one law for each combinator.

* `Codec.Recovers`: a codec recovers a record.
* `Fields.Recovers`: a description of fields recovers a record from the entries under its keys,
  whatever else there is; `Fields.Recovers.required`, `defaulted`, `optional` and `list` put one
  field behind a description.
* `Fields.Recovers.codec`: a record is recovered when its fields are.
-/

namespace SymbolRecord

open Json

/-- A codec recovers a record when it reads it from every rearrangement of its wire form.  The wire
form is then not null, which would stand for an absent record, and it is plain. -/
structure Codec.Recovers {α : Type} (codec : Codec α) (a : α) : Prop where
  /-- The record is read back. -/
  read : ∀ v : Value, v.Alike (codec.wire a) → codec.read v = .accepted a
  /-- The wire form is not null. -/
  solid : (codec.wire a).isNull = false
  /-- The wire form is plain. -/
  plain : (codec.wire a).Plain

namespace Codec

variable {α β : Type}

/-- A codec whose wire forms are leaves need only read back the wire form itself. -/
theorem recovers_of_isLeaf {codec : Codec α} {a : α} (hleaf : (codec.wire a).isLeaf = true)
    (hplain : (codec.wire a).isPlain = true) (hsolid : (codec.wire a).isNull = false)
    (hread : codec.read (codec.wire a) = .accepted a) : codec.Recovers a where
  read v hv := by rw [hv.eq_of_isLeaf hleaf, hread]
  solid := hsolid
  plain := Value.plain_of_isLeaf hleaf hplain

theorem recovers_text (s : String) : text.Recovers s :=
  recovers_of_isLeaf rfl rfl rfl rfl

theorem recovers_integer (n : Int) : integer.Recovers n :=
  recovers_of_isLeaf rfl rfl rfl rfl

theorem recovers_flag (b : Bool) : flag.Recovers b :=
  recovers_of_isLeaf rfl rfl rfl rfl

theorem recovers_strictFlag (b : Bool) : strictFlag.Recovers b :=
  recovers_of_isLeaf rfl rfl rfl rfl

theorem recovers_choice {all : List α} {name : α → String} {a : α}
    (h : (all.find? fun b => name b = name a) = some a) : (choice all name).Recovers a := by
  refine recovers_of_isLeaf rfl rfl rfl ?_
  show (choice all name).read (.text (name a)) = .accepted a
  simp only [choice, scalar, h]

/-! ## Containers -/

/-- Items that are alike to the wire forms of records are read as those records. -/
theorem readItems_of_alike {codec : Codec α} :
    ∀ {vs : List Value} {as : List α} (position : Nat), (∀ a ∈ as, codec.Recovers a) →
      vs.map sortKeys = (as.map codec.wire).map sortKeys →
      readItems codec.read position vs = .accepted as
  | [], [], _, _, _ => rfl
  | [], _ :: _, _, _, heq => absurd heq (by simp)
  | _ :: _, [], _, _, heq => absurd heq (by simp)
  | v :: vs, a :: as, position, h, heq => by
    obtain ⟨hhead, htail⟩ := List.cons.inj heq
    have hrest := readItems_of_alike (position + 1)
      (fun b hb => h b (List.mem_cons_of_mem _ hb)) htail
    rw [readItems, (h a List.mem_cons_self).read v hhead, hrest]
    rfl

theorem recovers_listOf {codec : Codec α} {as : List α} (h : ∀ a ∈ as, codec.Recovers a) :
    codec.listOf.Recovers as where
  read v hv := by
    obtain ⟨items, rfl, hitems⟩ := Value.Alike.exists_list hv
    exact readItems_of_alike 0 h hitems
  solid := rfl
  plain := by
    refine Value.plain_list.mpr fun v hmem => ?_
    obtain ⟨a, ha, rfl⟩ := List.mem_map.mp hmem
    exact (h a ha).plain

/-- Entries that are alike, key by key, to the wire forms of records are read as those records
under the same keys. -/
theorem exists_readEntries_of_alike {codec : Codec α} {records : String → Option α}
    (h : ∀ key a, records key = some a → codec.Recovers a) :
    ∀ {entries : List (String × Value)},
      (∀ entry ∈ entries, ∃ a, records entry.1 = some a ∧ entry.2.Alike (codec.wire a)) →
      ∃ pairs : List (String × α), readEntries codec.read entries = .accepted pairs ∧
        Entries.keys pairs = Entries.keys entries ∧
        ∀ pair ∈ pairs, records pair.1 = some pair.2
  | [], _ => ⟨[], rfl, rfl, fun _ hmem => absurd hmem List.not_mem_nil⟩
  | (key, v) :: rest, halike => by
    obtain ⟨a, ha, hv⟩ := halike (key, v) List.mem_cons_self
    have htail : ∀ entry ∈ rest, ∃ a, records entry.1 = some a ∧ entry.2.Alike (codec.wire a) :=
      fun entry hmem => halike entry (List.mem_cons_of_mem _ hmem)
    obtain ⟨pairs, hpairs, hkeys, hrecords⟩ := exists_readEntries_of_alike h htail
    refine ⟨(key, a) :: pairs, ?_, ?_, fun pair hmem => ?_⟩
    · rw [readEntries, (h key a ha).read v hv, hpairs]
      rfl
    · rw [Entries.keys_cons, Entries.keys_cons, hkeys]
    · rcases List.mem_cons.mp hmem with rfl | hrest
      · exact ha
      · exact hrecords pair hrest

/-- A table is read back from its entries in any order, with the entries in that order. -/
theorem exists_read_tableOf_of_alike {codec : Codec α} {table : Table α}
    (h : ∀ key a, table.get? key = some a → codec.Recovers a) {v : Value}
    (hv : v.Alike (codec.tableOf.wire table)) :
    ∃ table' : Table α, codec.tableOf.read v = .accepted table' ∧
      ∀ key, table'.get? key = table.get? key := by
  have hnodup : (Entries.keys (Entries.mapValues codec.wire table.entries)).Nodup := by
    rw [Entries.keys_mapValues]
    exact table.nodup_keys
  obtain ⟨entries, rfl, hentries, hget⟩ := Value.Alike.exists_object hv hnodup
  have halike : ∀ entry ∈ entries,
      ∃ a, table.get? entry.1 = some a ∧ entry.2.Alike (codec.wire a) := by
    rintro ⟨key, w⟩ hmem
    have hw := hget key
    rw [(Entries.get?_eq_some_iff hentries).mpr hmem, Entries.get?_mapValues, Option.map_some,
      Option.map_map] at hw
    obtain ⟨a, ha, heq⟩ := Option.map_eq_some_iff.mp hw.symm
    exact ⟨a, ha, heq.symm⟩
  obtain ⟨pairs, hread, hkeys, hpairs⟩ := exists_readEntries_of_alike h halike
  have hdistinct : (Entries.keys pairs).Nodup := by rwa [hkeys]
  refine ⟨Table.ofPairs pairs, ?_, fun key => ?_⟩
  · show (readEntries codec.read entries).map Table.ofPairs = _
    rw [hread]
    rfl
  · rw [Table.get?, Table.entries_ofPairs hdistinct]
    cases hget' : Entries.get? pairs key with
    | some a => exact (hpairs _ (Entries.mem_of_get?_eq_some hget')).symm
    | none =>
      have hnone : Entries.get? entries key = none := by
        rw [Entries.get?_eq_none_iff, ← hkeys, ← Entries.get?_eq_none_iff]
        exact hget'
      have hw := hget key
      rw [hnone, Entries.get?_mapValues, Option.map_none, Option.map_map] at hw
      exact (Option.map_eq_none_iff.mp hw.symm).symm

theorem read_optional_of_solid {codec : Codec α} {v : Value} (hv : v.isNull = false) :
    codec.optional.read v = (codec.read v).map some := by
  cases v with
  | null => exact absurd hv (by simp [Value.isNull])
  | _ => rfl

/-- Values that are alike to one that is not null are not null. -/
theorem isNull_of_alike {v w : Value} (h : v.Alike w) (hw : w.isNull = false) :
    v.isNull = false := by
  cases v with
  | null =>
    have heq : w = .null := (h.symm).eq_of_isLeaf rfl
    rw [heq] at hw
    exact absurd hw (by simp [Value.isNull])
  | _ => rfl

theorem Recovers.optional {codec : Codec α} {a : α} (h : codec.Recovers a) :
    codec.optional.Recovers (some a) where
  read v hv := by
    rw [read_optional_of_solid (isNull_of_alike hv h.solid), h.read v hv]
    rfl
  solid := h.solid
  plain := h.plain

theorem Recovers.bare {field : Codec β} {make : β → α} {get : α → β} {a : α}
    (h : field.Recovers (get a)) (hmake : make (get a) = a) (name : String) :
    (Codec.bare name field make get).Recovers a where
  read v hv := by
    show ((field.read v).within (.key name)).map make = .accepted a
    rw [h.read v hv]
    exact congrArg Reading.accepted hmake
  solid := h.solid
  plain := h.plain

theorem Recovers.restricted {codec : Codec β} {make : β → Except String α} {get : α → β} {a : α}
    (h : codec.Recovers (get a)) (hmake : make (get a) = .ok a) :
    (Codec.restricted codec make get).Recovers a where
  read v hv := by
    show (codec.read v).check _ = .accepted a
    rw [h.read v hv, Reading.check]
    simp only [hmake]
  solid := h.solid
  plain := h.plain

end Codec

/-! ## Records -/

/-- The keys under which a field is sought. -/
def Slot.keys (slot : Slot) : List String := [slot.key, slot.name]

/-- A description of fields, which seeks its fields under the given keys, recovers what it stands
for from all entries that have, under those keys, what it writes. -/
structure Fields.Recovers {ρ α : Type} (description : Fields ρ α) (names : List String) (r : ρ)
    (a : α) : Prop where
  /-- The fields are read back. -/
  read : ∀ entries : Entries Value,
    (∀ key ∈ names, (entries.get? key).map sortKeys =
      (Entries.get? (description.wire r) key).map sortKeys) →
    description.read entries = .accepted a
  /-- Nothing is written under other keys. -/
  keys_subset : ∀ key ∈ Entries.keys (description.wire r), key ∈ names
  /-- No key is written twice. -/
  nodup : (Entries.keys (description.wire r)).Nodup
  /-- What is written is plain. -/
  plain : ∀ entry ∈ description.wire r, entry.2.Plain

namespace Fields

variable {ρ α β : Type} {r : ρ}

theorem recovers_start (a : α) : (start a : Fields ρ α).Recovers [] r a where
  read _ _ := rfl
  keys_subset _ h := h
  nodup := List.nodup_nil
  plain _ h := absurd h List.not_mem_nil

theorem written_of_solid (slot : Slot) {v : Value} (hv : v.isNull = false) :
    written slot v = [(slot.key, v)] := by
  rw [written, hv]
  rfl

theorem get?_written (slot : Slot) {v : Value} (hv : v.isNull = false) :
    Entries.get? (written slot v) slot.key = some v := by
  rw [written_of_solid slot hv, Entries.get?_cons, if_pos rfl]

/-- What a field finds among entries that have, under its key, what it writes. -/
theorem find?_of_written {slot : Slot} {v : Value} (hv : v.isNull = false)
    {entries : Entries Value}
    (h : (entries.get? slot.key).map sortKeys =
      (Entries.get? (written slot v) slot.key).map sortKeys) :
    ∃ w, slot.find? entries = some (slot.key, w) ∧ w.Alike v := by
  rw [get?_written slot hv] at h
  cases hget : entries.get? slot.key with
  | none =>
    rw [hget] at h
    exact absurd h (by simp)
  | some w =>
    rw [hget] at h
    refine ⟨w, ?_, Option.some_inj.mp h⟩
    rw [Slot.find?, hget]

theorem find?_of_not_written {slot : Slot} {entries : Entries Value}
    (h : ∀ key ∈ slot.keys, entries.get? key = none) : slot.find? entries = none := by
  have hkey := h slot.key (by simp [Slot.keys])
  have hname := h slot.name (by simp [Slot.keys])
  rw [Slot.find?, hkey, hname]
  rfl

theorem wire_one_of_solid (slot : Slot) {codec : Codec α} (default? : Option α) {get : ρ → α}
    (h : (codec.wire (get r)).isNull = false) :
    (one slot codec default? get).wire r = [(slot.key, codec.wire (get r))] :=
  written_of_solid slot h

/-- A field whose value is written is read back, whether or not it has a default. -/
theorem recovers_one {slot : Slot} {codec : Codec α} {default? : Option α} {get : ρ → α}
    (h : codec.Recovers (get r)) : (one slot codec default? get).Recovers slot.keys r (get r) where
  read entries hentries := by
    obtain ⟨w, hfind, hw⟩ := find?_of_written h.solid
      (hentries slot.key (by simp [Slot.keys]))
    have hread := h.read w hw
    simp only [one, hfind, hread]
    rfl
  keys_subset key hkey := by
    rw [wire_one_of_solid slot default? h.solid] at hkey
    simp only [Entries.keys_cons, Entries.keys_nil, List.mem_singleton] at hkey
    rw [hkey]
    exact List.mem_cons_self
  nodup := by
    rw [wire_one_of_solid slot default? h.solid]
    exact List.pairwise_singleton _ _
  plain entry hmem := by
    have hwire : (one slot codec default? get).wire r = [(slot.key, codec.wire (get r))] :=
      written_of_solid slot h.solid
    rw [hwire, List.mem_singleton] at hmem
    rw [hmem]
    exact h.plain

/-- A field that writes nothing is recovered when its default is the value. -/
theorem recovers_of_wire_eq_nil {slot : Slot} {field : Fields ρ α} {a : α}
    (hwire : field.wire r = [])
    (hread : ∀ entries, slot.find? entries = none → field.read entries = .accepted a) :
    field.Recovers slot.keys r a where
  read entries hentries := by
    refine hread entries (find?_of_not_written fun key hkey => ?_)
    have h := hentries key hkey
    rw [hwire] at h
    exact Option.map_eq_none_iff.mp h
  keys_subset key hkey := by
    rw [hwire] at hkey
    exact absurd hkey List.not_mem_nil
  nodup := by
    rw [hwire]
    exact List.nodup_nil
  plain entry hmem := by
    rw [hwire] at hmem
    exact absurd hmem List.not_mem_nil

theorem recovers_optional {slot : Slot} {codec : Codec α} {get : ρ → Option α}
    (h : ∀ a, get r = some a → codec.Recovers a) :
    (one slot codec.optional (some none) get).Recovers slot.keys r (get r) := by
  cases hget : get r with
  | some a =>
    rw [← hget]
    refine recovers_one ?_
    rw [hget]
    exact (h a hget).optional
  | none =>
    refine recovers_of_wire_eq_nil ?_ fun entries hfind => ?_
    · show written slot (codec.optional.wire (get r)) = []
      rw [hget]
      rfl
    · simp only [one, hfind]

/-- A field that reads and writes as another does is recovered with it. -/
theorem Recovers.congr {field field' : Fields ρ α} {names : List String} {a : α}
    (h : field.Recovers names r a) (hread : field'.read = field.read)
    (hwire : field'.wire r = field.wire r) : field'.Recovers names r a := by
  obtain ⟨hr, hk, hn, hp⟩ := h
  rw [← hread] at hr
  rw [← hwire] at hr hk hn hp
  exact ⟨hr, hk, hn, hp⟩

/-- The keys of two parts of a record do not meet, so each part is read from the whole. -/
theorem Recovers.and {description : Fields ρ (α → β)} {field : Fields ρ α}
    {names names' : List String} {f : α → β} {a : α} (hd : description.Recovers names r f)
    (hf : field.Recovers names' r a) (hnew : ∀ key ∈ names', key ∉ names) :
    (description.and field).Recovers (names ++ names') r (f a) where
  read entries hentries := by
    have hdescription : description.read entries = .accepted f := by
      refine hd.read entries fun key hkey => ?_
      rw [hentries key (List.mem_append_left _ hkey)]
      have hnone : Entries.get? (field.wire r) key = none := by
        rw [Entries.get?_eq_none_iff]
        exact fun hmem => hnew key (hf.keys_subset key hmem) hkey
      show (Entries.get? (description.wire r ++ field.wire r) key).map sortKeys = _
      rw [Entries.get?_append, hnone, Option.or_none]
    have hfield : field.read entries = .accepted a := by
      refine hf.read entries fun key hkey => ?_
      rw [hentries key (List.mem_append_right _ hkey)]
      have hnone : Entries.get? (description.wire r) key = none := by
        rw [Entries.get?_eq_none_iff]
        exact fun hmem => hnew key hkey (hd.keys_subset key hmem)
      show (Entries.get? (description.wire r ++ field.wire r) key).map sortKeys = _
      rw [Entries.get?_append, hnone, Option.none_or]
    show Reading.both _ (description.read entries) (field.read entries) = .accepted (f a)
    rw [hdescription, hfield]
    rfl
  keys_subset key hkey := by
    have hkey' : key ∈ Entries.keys (description.wire r ++ field.wire r) := hkey
    rw [Entries.keys_append, List.mem_append] at hkey'
    rcases hkey' with h | h
    · exact List.mem_append_left _ (hd.keys_subset key h)
    · exact List.mem_append_right _ (hf.keys_subset key h)
  nodup := by
    show (Entries.keys (description.wire r ++ field.wire r)).Nodup
    rw [Entries.keys_append, List.nodup_append]
    refine ⟨hd.nodup, hf.nodup, fun key hkey key' hkey' heq => ?_⟩
    rw [← heq] at hkey'
    exact hnew key (hf.keys_subset key hkey') (hd.keys_subset key hkey)
  plain entry hmem := by
    rcases List.mem_append.mp hmem with h | h
    · exact hd.plain entry h
    · exact hf.plain entry h

section Behind

variable {description : Fields ρ (α → β)} {names : List String} {f : α → β}

theorem Recovers.required (hd : description.Recovers names r f) {slot : Slot} {codec : Codec α}
    {get : ρ → α} (h : codec.Recovers (get r)) (hnew : ∀ key ∈ slot.keys, key ∉ names) :
    (description.required slot codec get).Recovers (names ++ slot.keys) r (f (get r)) :=
  hd.and (recovers_one h) hnew

theorem Recovers.defaulted (hd : description.Recovers names r f) {slot : Slot} {codec : Codec α}
    {get : ρ → α} (h : codec.Recovers (get r)) (a : α) (hnew : ∀ key ∈ slot.keys, key ∉ names) :
    (description.defaulted slot codec a get).Recovers (names ++ slot.keys) r (f (get r)) :=
  hd.and (recovers_one h) hnew

end Behind

theorem Recovers.optional {description : Fields ρ (Option α → β)} {names : List String}
    {f : Option α → β} (hd : description.Recovers names r f) {slot : Slot} {codec : Codec α}
    {get : ρ → Option α} (h : ∀ a, get r = some a → codec.Recovers a)
    (hnew : ∀ key ∈ slot.keys, key ∉ names) :
    (description.optional slot codec get).Recovers (names ++ slot.keys) r (f (get r)) :=
  hd.and (recovers_optional h) hnew

theorem Recovers.list {description : Fields ρ (List α → β)} {names : List String}
    {f : List α → β} (hd : description.Recovers names r f) {slot : Slot} {codec : Codec α}
    {get : ρ → List α} (h : ∀ a ∈ get r, codec.Recovers a)
    (hnew : ∀ key ∈ slot.keys, key ∉ names) :
    (description.list slot codec get).Recovers (names ++ slot.keys) r (f (get r)) := by
  refine hd.and ?_ hnew
  cases hget : get r with
  | nil =>
    refine recovers_of_wire_eq_nil ?_ fun entries hfind => ?_
    · simp only [hget, List.isEmpty_nil, if_true]
    · simp only [one, hfind]
  | cons a as =>
    have hone : (one slot codec.listOf (some []) get).Recovers slot.keys r (get r) :=
      recovers_one (Codec.recovers_listOf h)
    rw [← hget]
    refine hone.congr rfl ?_
    simp only [hget, List.isEmpty_cons, Bool.false_eq_true, if_false]

/-- **A record is recovered when its fields are.** -/
theorem Recovers.codec {description : Fields ρ ρ} {names : List String}
    (h : description.Recovers names r r) (name : String) :
    (Fields.codec name description).Recovers r where
  read v hv := by
    obtain ⟨entries, rfl, -, hget⟩ := Value.Alike.exists_object hv h.nodup
    exact h.read entries fun key _ => hget key
  solid := rfl
  plain := Value.plain_object.mpr ⟨h.nodup, h.plain⟩

end Fields

end SymbolRecord
