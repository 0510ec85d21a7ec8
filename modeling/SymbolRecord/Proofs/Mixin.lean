import Mathlib.Data.List.Perm.Subperm
import SymbolRecord.Symbol.Basic
import SymbolRecord.Proofs.Record
/-!
# Every mixin is read back

What was proved of each record is put together here for mixins of any built-in type: the type of a
mixin reads the mixin back from its payload.  As snippets are read up to the order of their slices,
this holds up to the order of slices, which is how mixins are compared.

* `Mixin.Alike`, `Mixin.agrees_iff_alike`: equal up to the order of slices.
* `Mixin.Readable`: the mixins that reading does not give up because of their depth.
* `Mixin.exists_read_of_alike`: a mixin is read back from its payload.
* `Symbol.mixinsAgree_iff`: tables of such mixins agree key by key.
-/

namespace SymbolRecord

open Json

/-! ## Maps that agree -/

namespace Entries

variable {α : Type} {a b : Entries α}

theorem isSome_eq_of_rel {r : α → α → Prop} {x y : Option α} (h : Option.Rel r x y) :
    x.isSome = y.isSome := by
  cases h with
  | none => rfl
  | some _ => rfl

theorem mem_keys_iff_of_subset (ha : (keys a).Nodup) (hlength : a.length = b.length)
    (hsub : ∀ key ∈ keys a, key ∈ keys b) (key : String) : key ∈ keys a ↔ key ∈ keys b := by
  have hsubperm : (keys a).Subperm (keys b) := List.subperm_of_subset ha hsub
  have hle : (keys b).length ≤ (keys a).length := by
    refine Nat.le_of_eq ?_
    rw [keys, keys, List.length_map, List.length_map, hlength]
  exact (hsubperm.perm_of_length_le hle).mem_iff

/-- Two maps with the same number of entries are related key by key when each entry of the first
has a relative under its key in the second. -/
theorem forall_rel_iff (ha : (keys a).Nodup) (hb : (keys b).Nodup) (r : α → α → Prop) :
    (a.length = b.length ∧ ∀ entry ∈ a, ∃ v, get? b entry.1 = some v ∧ r entry.2 v) ↔
      ∀ key, Option.Rel r (get? a key) (get? b key) := by
  constructor
  · rintro ⟨hlength, h⟩ key
    have hmem := mem_keys_iff_of_subset ha hlength fun key hkey => by
      obtain ⟨v, hv⟩ := mem_keys.mp hkey
      obtain ⟨w, hw, -⟩ := h _ hv
      exact mem_keys.mpr ⟨w, mem_of_get?_eq_some hw⟩
    cases hget : get? a key with
    | some v =>
      obtain ⟨w, hw, hr⟩ := h _ (mem_of_get?_eq_some hget)
      rw [hw]
      exact .some hr
    | none =>
      rw [get?_eq_none_iff, hmem, ← get?_eq_none_iff] at hget
      rw [hget]
      exact .none
  · intro h
    have hkeys : (keys a).Perm (keys b) := by
      refine (List.perm_ext_iff_of_nodup ha hb).mpr fun key => ?_
      rw [← isSome_get?_iff, ← isSome_get?_iff, isSome_eq_of_rel (h key)]
    refine ⟨?_, fun entry hmem => ?_⟩
    · have hlength := hkeys.length_eq
      rwa [keys, keys, List.length_map, List.length_map] at hlength
    · have hget := (get?_eq_some_iff ha).mpr hmem
      have hrel := h entry.1
      rw [hget] at hrel
      cases hw : get? b entry.1 with
      | none =>
        rw [hw] at hrel
        cases hrel
      | some w =>
        rw [hw] at hrel
        cases hrel with
        | some hr => exact ⟨w, rfl, hr⟩

end Entries

/-- Whether two tables are related is decided entry by entry. -/
theorem Table.all_iff {α : Type} (a b : Table α) (test : α → α → Bool) :
    (a.entries.length == b.entries.length && a.entries.all fun entry =>
      match b.get? entry.1 with
      | some v => test entry.2 v
      | none => false) = true ↔
      ∀ key, Option.Rel (fun v w => test v w = true) (a.get? key) (b.get? key) := by
  rw [Bool.and_eq_true, beq_iff_eq, List.all_eq_true]
  refine Iff.trans (and_congr_right fun _ => forall₂_congr fun entry _ => ?_)
    (Entries.forall_rel_iff a.nodup_keys b.nodup_keys fun v w => test v w = true)
  show _ ↔ ∃ v, b.get? entry.1 = some v ∧ test entry.2 v = true
  cases b.get? entry.1 with
  | none => simp
  | some v => simp

theorem Table.agrees_iff {α : Type} [BEq α] [LawfulBEq α] (a b : Table α) :
    a.agrees b = true ↔ ∀ key, a.get? key = b.get? key := by
  refine (Table.all_iff a b (· == ·)).trans (forall_congr' fun key => ?_)
  simp only [beq_iff_eq]
  constructor
  · intro h
    cases ha : a.get? key with
    | none =>
      rw [ha] at h
      cases hb : b.get? key with
      | none => rfl
      | some w => simp [hb] at h
    | some v =>
      rw [ha] at h
      cases hb : b.get? key with
      | none => simp [hb] at h
      | some w => simpa [hb] using h
  · intro h
    rw [h]
    cases b.get? key with
    | none => exact .none
    | some w => exact .some rfl

/-! ## Mixins up to the order of slices -/

namespace Mixin

/-- Two mixins are alike when they are the same up to the order of the slices of a snippet. -/
def Alike : Mixin → Mixin → Prop
  | .snippet a, .snippet b => a.Alike b
  | a, b => a = b

theorem alike_self (m : Mixin) : m.Alike m := by
  cases m with
  | snippet s => exact ⟨rfl, rfl, fun _ => rfl⟩
  | _ => rfl

theorem rel_alike_self (m? : Option Mixin) : Option.Rel Alike m? m? := by
  cases m? with
  | none => exact .none
  | some m => exact .some m.alike_self

/-- Mixins are compared up to the order of slices. -/
theorem agrees_iff_alike (a b : Mixin) : a.agrees b = true ↔ a.Alike b := by
  cases a with
  | snippet s =>
    cases b with
    | snippet t =>
      show (s.language == t.language && s.lines == t.lines && s.slices.agrees t.slices) = true ↔ _
      rw [Bool.and_eq_true, Bool.and_eq_true, beq_iff_eq, beq_iff_eq, Table.agrees_iff]
      exact ⟨fun h => ⟨h.1.1, h.1.2, h.2⟩, fun h => ⟨⟨h.language, h.lines⟩, h.slices⟩⟩
    | _ => exact beq_iff_eq
  | _ => cases b <;> exact beq_iff_eq

theorem Alike.payload_eq {a b : Mixin} (h : a.Alike b) : a.payload = b.payload := by
  cases a with
  | snippet s =>
    cases b with
    | snippet t => exact Snippet.Alike.wire_eq h
    | _ => exact absurd h (by simp [Alike])
  | _ => cases b <;> exact congrArg payload h

/-! ## Reading a mixin back -/

/-- The built-in type of a mixin. -/
def builtinType? : Mixin → Option MixinType
  | .availability _ => some .availability
  | .declarationFragments _ => some .declarationFragments
  | .mutability _ => some .mutability
  | .swiftExtension _ => some .swiftExtension
  | .swiftGenerics _ => some .swiftGenerics
  | .location _ => some .location
  | .functionSignature _ => some .functionSignature
  | .spi _ => some .spi
  | .snippet _ => some .snippet
  | .extension _ => none

/-- Reading gives up parameters that are nested too deep; everything else can be read. -/
def Readable : Mixin → Prop
  | .functionSignature signature => signature.Readable
  | _ => True

theorem read_ofCodec {α : Type} {codec : Codec α} {a : α} (tag : TypeTag) (wrap : α → Mixin)
    (h : codec.Recovers a) {v : Value} (hv : v.Alike (codec.wire a)) :
    (MixinType.ofCodec tag codec wrap).read v = .mixin (wrap a) := by
  simp only [MixinType.ofCodec, h.read v hv]

/-- **The built-in type of a mixin reads it back from its payload**, with the keys of the payload
in any order. -/
theorem exists_read_of_alike {m : Mixin} {type : MixinType} (htype : m.builtinType? = some type)
    (hm : m.Readable) {v : Value} (hv : v.Alike m.payload) :
    ∃ m', type.read v = .mixin m' ∧ m'.Alike m := by
  cases m with
  | extension => exact absurd htype (by simp [builtinType?])
  | snippet s =>
    obtain rfl := Option.some_inj.mp htype
    obtain ⟨s', hread, halike⟩ := Snippet.exists_read_of_alike hv
    refine ⟨.snippet s', ?_, halike⟩
    simp only [MixinType.snippet, MixinType.ofCodec, hread]
  | functionSignature s =>
    obtain rfl := Option.some_inj.mp htype
    exact ⟨_, read_ofCodec _ _ (FunctionSignature.recovers hm) hv, alike_self _⟩
  | location l =>
    obtain rfl := Option.some_inj.mp htype
    refine ⟨.location l, ?_, alike_self _⟩
    have hread := read_ofCodec (.plain 6 "Location" (some "location")) .location l.recovers hv
    simp only [MixinType.location, MixinType.lenient, hread]
  | availability a =>
    obtain rfl := Option.some_inj.mp htype
    exact ⟨_, read_ofCodec _ _ a.recovers hv, alike_self _⟩
  | declarationFragments d =>
    obtain rfl := Option.some_inj.mp htype
    exact ⟨_, read_ofCodec _ _ d.recovers hv, alike_self _⟩
  | mutability b =>
    obtain rfl := Option.some_inj.mp htype
    exact ⟨_, read_ofCodec _ _ b.recovers hv, alike_self _⟩
  | swiftExtension e =>
    obtain rfl := Option.some_inj.mp htype
    exact ⟨_, read_ofCodec _ _ e.recovers hv, alike_self _⟩
  | swiftGenerics g =>
    obtain rfl := Option.some_inj.mp htype
    exact ⟨_, read_ofCodec _ _ g.recovers hv, alike_self _⟩
  | spi b =>
    obtain rfl := Option.some_inj.mp htype
    exact ⟨_, read_ofCodec _ _ b.recovers hv, alike_self _⟩

/-- What the library itself writes is plain. -/
theorem plain_payload {m : Mixin} {type : MixinType} (htype : m.builtinType? = some type)
    (hm : m.Readable) : m.payload.Plain := by
  cases m with
  | availability a => exact a.recovers.plain
  | declarationFragments d => exact d.recovers.plain
  | mutability b => exact b.recovers.plain
  | swiftExtension e => exact e.recovers.plain
  | swiftGenerics g => exact g.recovers.plain
  | location l => exact l.recovers.plain
  | functionSignature s => exact (FunctionSignature.recovers hm).plain
  | spi b => exact b.recovers.plain
  | snippet s => exact s.plain_wire
  | extension => exact absurd htype (by simp [builtinType?])

end Mixin

theorem Symbol.mixinsAgree_iff (a b : Table Mixin) :
    Symbol.mixinsAgree a b = true ↔
      ∀ key, Option.Rel Mixin.Alike (a.get? key) (b.get? key) := by
  have h := Table.all_iff a b Mixin.agrees
  simp only [Mixin.agrees_iff_alike] at h
  rw [← h, mixinsAgree]
  refine iff_of_eq (congrArg (fun test => (_ && List.all a.entries test) = true) ?_)
  funext entry
  cases b.get? entry.1 with
  | none => rfl
  | some _ => rfl

end SymbolRecord
