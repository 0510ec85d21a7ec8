import SymbolRecord.Proofs.Limits
import SymbolRecord.Proofs.Placement
import SymbolRecord.Proofs.Slice
/-!
# Histories of a symbol

A symbol keeps its mixins in the order in which they came, and a snippet its slices.  Replacing a
mixin keeps its place and removing it gives the place up, so symbols that came about in different
ways may hold the same mixins in different orders.  None of this is written.  Encoding goes over the
keys of the mixins in ascending order, a snippet writes its slices in ascending order of their
names, and the printer sorts the keys of every object once more.  So the bytes depend on what stands
under each key, up to the order of slices, and what stands under the key of a type is the value of
the last call that set the type.

The same holds of the reason for which a symbol is not written, and of the notes on the mixins that
are left out.

* `Symbol.setAll`: calls in a row, none of which is refused.
* `Setting.IsLastOf`, `Setting.lastUnder?`: the last call for a type, and the last one for a key.
* `Symbol.get?_setAll`: what stands under a key after calls in a row.
* `Symbol.encode_congr`: encoding looks at what stands under each key.
* `Coder.bytes_forget_the_history`: what is written.
-/

namespace SymbolRecord

/-! ## The last call -/

namespace Setting

variable {setting : Setting} {settings : List Setting}

/-- A setting is the last one for its type. -/
def IsLastOf (setting : Setting) (settings : List Setting) : Prop :=
  ∃ before since, settings = before ++ setting :: since ∧
    ∀ other ∈ since, other.type ≠ setting.type

theorem IsLastOf.mem (h : setting.IsLastOf settings) : setting ∈ settings := by
  obtain ⟨before, since, rfl, -⟩ := h
  exact List.mem_append_right before List.mem_cons_self

/-- No two types that are set have the same key. -/
def KeysDistinct (settings : List Setting) : Prop :=
  ∀ a ∈ settings, ∀ b ∈ settings, a.type.key? = b.type.key? → a.type = b.type

theorem KeysDistinct.of_subset {settings' : List Setting} (h : KeysDistinct settings)
    (hsubset : settings' ⊆ settings) : KeysDistinct settings' :=
  fun a ha b hb => h a (hsubset ha) b (hsubset hb)

/-- The last setting for a type with a key. -/
def lastUnder? (settings : List Setting) (key : String) : Option Setting :=
  settings.reverse.find? fun setting => setting.type.key? = some key

theorem lastUnder?_cons (setting : Setting) (rest : List Setting) (key : String) :
    lastUnder? (setting :: rest) key =
      (lastUnder? rest key).or (if setting.type.key? = some key then some setting else none) := by
  simp only [lastUnder?, List.reverse_cons, List.find?_append, List.find?_singleton,
    decide_eq_true_eq]

/-- Where types are known by their keys, the last setting for a key is the last one for a type. -/
theorem lastUnder?_eq_some_iff (h : KeysDistinct settings) {key : String} :
    lastUnder? settings key = some setting ↔
      setting.type.key? = some key ∧ setting.IsLastOf settings := by
  rw [lastUnder?, List.find?_eq_some_iff_append, decide_eq_true_iff]
  refine and_congr_right fun hkey => ⟨?_, ?_⟩
  · rintro ⟨since, before, hsplit, hsince⟩
    refine ⟨before.reverse, since.reverse, ?_, fun other hother htype => ?_⟩
    · rw [← List.reverse_reverse settings, hsplit]
      simp
    · have hnot := hsince other (List.mem_reverse.mp hother)
      rw [htype, hkey] at hnot
      simp at hnot
  · rintro ⟨before, since, rfl, hsince⟩
    refine ⟨since.reverse, before.reverse, by simp, fun other hother => ?_⟩
    have hother' : other ∈ since := List.mem_reverse.mp hother
    have hne : other.type.key? ≠ some key := fun hsame =>
      hsince other hother' (h other (by simp [hother']) setting (by simp) (hsame.trans hkey.symm))
    simp [hne]

/-- The same settings are the last ones for their types if and only if they are the last ones for
the keys of these types. -/
theorem forall_isLastOf_iff {settings' : List Setting} (h : KeysDistinct settings)
    (h' : KeysDistinct settings') (hkeyed : ∀ setting ∈ settings, setting.type.key?.isSome)
    (hkeyed' : ∀ setting ∈ settings', setting.type.key?.isSome) :
    (∀ setting : Setting, setting.IsLastOf settings ↔ setting.IsLastOf settings') ↔
      ∀ key, lastUnder? settings key = lastUnder? settings' key := by
  have hone : ∀ {settings settings' : List Setting}, KeysDistinct settings →
      KeysDistinct settings' → (∀ setting ∈ settings, setting.type.key?.isSome) →
      (∀ key, lastUnder? settings key = lastUnder? settings' key) →
      ∀ setting : Setting, setting.IsLastOf settings → setting.IsLastOf settings' := by
    intro settings settings' h h' hkeyed heq setting hlast
    obtain ⟨key, hkey⟩ := Option.isSome_iff_exists.mp (hkeyed setting hlast.mem)
    have hunder := (lastUnder?_eq_some_iff h).mpr ⟨hkey, hlast⟩
    rw [heq] at hunder
    exact ((lastUnder?_eq_some_iff h').mp hunder).2
  constructor
  · intro hlast key
    ext setting
    rw [lastUnder?_eq_some_iff h, lastUnder?_eq_some_iff h', hlast]
  · intro heq setting
    exact ⟨hone h h' hkeyed heq setting, hone h' h hkeyed' (fun key => (heq key).symm) setting⟩

end Setting

/-! ## Calls in a row -/

namespace Symbol

variable {symbol changed final : Symbol} {setting : Setting} {settings : List Setting}

/-- The symbol after calls in a row, unless one of them is refused. -/
def setAll (symbol : Symbol) (settings : List Setting) : Except MixinMisuse Symbol :=
  settings.foldlM (fun symbol setting => symbol.setMixin setting.type setting.value?) symbol

/-- What one call does that is not refused. -/
theorem exists_key_of_setMixin (h : symbol.setMixin setting.type setting.value? = .ok changed) :
    ∃ key, setting.type.key? = some key ∧ changed.toCore = symbol.toCore ∧
      ∀ other, changed.mixins.get? other =
        if key = other then setting.value? else symbol.mixins.get? other := by
  cases hkey : setting.type.key? with
  | none =>
    simp only [setMixin, hkey] at h
    exact absurd h (by simp)
  | some key =>
    cases hfits : setting.fits with
    | true =>
      obtain ⟨_, hset, hcore, hget⟩ := exists_setMixin_of_fits symbol hkey hfits
      obtain rfl := Except.ok.inj (hset.symm.trans h)
      exact ⟨key, rfl, hcore, hget⟩
    | false =>
      obtain ⟨_, -, -, hset⟩ := exists_setMixin_of_not_fits symbol hkey hfits
      exact absurd (hset.symm.trans h) (by simp)

theorem setAll_cons_eq_ok_iff :
    symbol.setAll (setting :: settings) = .ok final ↔
      ∃ changed, symbol.setMixin setting.type setting.value? = .ok changed ∧
        changed.setAll settings = .ok final := by
  rw [setAll, List.foldlM_cons]
  cases symbol.setMixin setting.type setting.value? with
  | error misuse =>
    refine iff_of_false (fun h => nomatch h) ?_
    rintro ⟨_, heq, -⟩
    nomatch heq
  | ok changed =>
    refine ⟨fun h => ⟨changed, rfl, h⟩, ?_⟩
    rintro ⟨_, heq, h⟩
    obtain rfl := Except.ok.inj heq
    exact h

/-- A type that has no key is refused. -/
theorem isSome_key?_of_setAll :
    ∀ {settings : List Setting} {symbol : Symbol}, symbol.setAll settings = .ok final →
      ∀ setting ∈ settings, setting.type.key?.isSome
  | [], _, _ => fun _ hmem => absurd hmem List.not_mem_nil
  | setting :: rest, _, h => by
    obtain ⟨changed, hset, hrest⟩ := setAll_cons_eq_ok_iff.mp h
    obtain ⟨key, hkey, -⟩ := exists_key_of_setMixin hset
    exact List.forall_mem_cons.mpr
      ⟨Option.isSome_iff_exists.mpr ⟨key, hkey⟩, isSome_key?_of_setAll hrest⟩

/-- Calls in a row leave the core fields as they are. -/
theorem toCore_setAll :
    ∀ {settings : List Setting} {symbol : Symbol}, symbol.setAll settings = .ok final →
      final.toCore = symbol.toCore
  | [], symbol, h => by rw [← Except.ok.inj h]
  | setting :: rest, symbol, h => by
    obtain ⟨changed, hset, hrest⟩ := setAll_cons_eq_ok_iff.mp h
    obtain ⟨-, -, hcore, -⟩ := exists_key_of_setMixin hset
    rw [toCore_setAll hrest, hcore]

/-- **What stands under a key after calls in a row** is the value of the last call for that key, or
what stood there before if there is none. -/
theorem get?_setAll (key : String) :
    ∀ {settings : List Setting} {symbol : Symbol}, symbol.setAll settings = .ok final →
      final.mixins.get? key =
        (Setting.lastUnder? settings key).elim (symbol.mixins.get? key) Setting.value?
  | [], symbol, h => by
    rw [← Except.ok.inj h]
    rfl
  | setting :: rest, symbol, h => by
    obtain ⟨changed, hset, hrest⟩ := setAll_cons_eq_ok_iff.mp h
    obtain ⟨own, hown, -, hget⟩ := exists_key_of_setMixin hset
    rw [get?_setAll key hrest, Setting.lastUnder?_cons, hget, hown]
    cases Setting.lastUnder? rest key with
    | some later => rfl
    | none =>
      by_cases heq : own = key
      · simp [heq]
      · simp [heq]

/-! ## What encoding looks at -/

variable {registry : Registry}

/-- One loop over keys, two tables: each step writes the same. -/
theorem writeMixins_congr (h : ∀ key, registry.WritesPlainly key) {a b : Table Mixin}
    (hmixins : ∀ key, Option.Rel Mixin.Alike (a.get? key) (b.get? key)) :
    ∀ (ks : List String) (container : Entries Value),
      writeMixins registry a ks container = writeMixins registry b ks container
  | [], _ => rfl
  | key :: rest, container => by
    have hrel := hmixins key
    rw [writeMixins, writeMixins]
    simp only [writeMixins_congr h hmixins rest]
    cases hencoder : mixinEncoder? registry key with
    | none => rfl
    | some encoder =>
      obtain rfl : encoder = MixinType.encode := (h key).eq_encode hencoder
      -- something stands under the key in both tables, or in neither
      generalize a.get? key = m? at hrel
      generalize b.get? key = m'? at hrel
      cases hrel with
      | none => rfl
      | some halike => simp only [MixinType.encode, halike.payload_eq]

/-- **Encoding looks at what stands under each key**, up to the order of slices. -/
theorem encode_congr (h : ∀ key, registry.WritesPlainly key) {a b : Symbol}
    (hcore : a.toCore = b.toCore)
    (hmixins : ∀ key, Option.Rel Mixin.Alike (a.mixins.get? key) (b.mixins.get? key)) :
    a.encode registry = b.encode registry := by
  have hkeys : a.mixins.entries.sortedKeys = b.mixins.entries.sortedKeys :=
    Entries.sortedKeys_eq_of_isSome_eq fun key => Entries.isSome_eq_of_rel (hmixins key)
  rw [encode, encode, hcore, hkeys, writeMixins_congr h hmixins]

end Symbol

/-! ## What is written -/

namespace Coder

variable {coder : Coder}

/-- Two symbols are written alike: with the same notes, and either as the same bytes, or not at all
for the same reason. -/
structure WritesAlike (coder : Coder) (a b : Symbol) : Prop where
  /-- What is noted and what comes of it are the same. -/
  runs : coder.encode a = coder.encode b
  /-- What comes of it are bytes, or a reason against writing the symbol. -/
  outcome : (∃ bytes, (coder.encode a).outcome = .ok bytes ∧ (coder.encode b).outcome = .ok bytes) ∨
    ∃ error, (coder.encode a).outcome = .error (.encode error) ∧
      (coder.encode b).outcome = .error (.encode error)

/-- A symbol is written, or there is a reason against it. -/
theorem exists_outcome_encode (h : ∀ key, coder.snapshot.WritesPlainly key) (symbol : Symbol) :
    (∃ bytes, (coder.encode symbol).outcome = .ok bytes) ∨
      ∃ error, (coder.encode symbol).outcome = .error (.encode error) := by
  obtain ⟨container, hcontainer, -⟩ := Symbol.exists_outcome_encode fun key _ => h key
  rw [encode, Run.outcome_andThen, hcontainer]
  rcases outcome_print coder.layout (.object container) with ⟨-, hprinted⟩ | ⟨-, hrefused⟩
  · exact Or.inl hprinted
  · exact Or.inr hrefused

/-- Symbols that hold the same under each key, up to the order of slices, are written alike. -/
theorem writesAlike_of_rel (h : ∀ key, coder.snapshot.WritesPlainly key) {a b : Symbol}
    (hcore : a.toCore = b.toCore)
    (hmixins : ∀ key, Option.Rel Mixin.Alike (a.mixins.get? key) (b.mixins.get? key)) :
    coder.WritesAlike a b := by
  have hruns : coder.encode a = coder.encode b := by
    rw [encode, encode, Symbol.encode_congr h hcore hmixins]
  refine ⟨hruns, ?_⟩
  rw [← hruns]
  rcases exists_outcome_encode h a with ⟨bytes, hbytes⟩ | ⟨error, herror⟩
  · exact Or.inl ⟨bytes, hbytes, hbytes⟩
  · exact Or.inr ⟨error, herror, herror⟩

/-- **What is written does not depend on how a symbol was built up.**  Two rows of calls set and
remove mixins of types with distinct keys, none of them is refused, and the last call for each type
is the same in both or missing from both: the symbols they lead to are written alike, in either
layout.  So is a symbol with the slices of a snippet in another order. -/
theorem bytes_forget_the_history (coder : Coder)
    (hcoder : ∀ key descriptor, coder.registered.get? key = some descriptor →
      ∃ type, descriptor.IsOf type key) :
    (∀ (symbol : Symbol) (settings settings' : List Setting) (final final' : Symbol),
      Setting.KeysDistinct (settings ++ settings') →
      symbol.setAll settings = .ok final → symbol.setAll settings' = .ok final' →
      (∀ setting : Setting, setting.IsLastOf settings ↔ setting.IsLastOf settings') →
      ∀ indent, { coder with indent := indent }.WritesAlike final final') ∧
    ∀ (symbol : Symbol) (key : String) (snippet : Snippet) (slices : Table SliceRange),
      symbol.mixins.get? key = some (.snippet snippet) →
      slices.entries.Perm snippet.slices.entries →
      ∀ indent, { coder with indent := indent }.WritesAlike symbol
        { symbol with
          mixins := symbol.mixins.put key (.snippet { snippet with slices := slices }) } := by
  have hplain : ∀ indent key, { coder with indent := indent }.snapshot.WritesPlainly key :=
    fun _ => (standard_snapshot hcoder).writesPlainly
  refine ⟨fun symbol settings settings' final final' hdistinct hset hset' hlast indent => ?_,
    fun symbol key snippet slices hsnippet hperm indent => ?_⟩
  · refine writesAlike_of_rel (hplain indent) ?_ fun key => ?_
    · rw [Symbol.toCore_setAll hset, Symbol.toCore_setAll hset']
    · have hunder := (Setting.forall_isLastOf_iff
        (hdistinct.of_subset (List.subset_append_left _ _))
        (hdistinct.of_subset (List.subset_append_right _ _))
        (Symbol.isSome_key?_of_setAll hset) (Symbol.isSome_key?_of_setAll hset')).mp hlast key
      rw [Symbol.get?_setAll key hset, Symbol.get?_setAll key hset', hunder]
      exact Mixin.rel_alike_self _
  · refine writesAlike_of_rel (hplain indent) rfl fun other => ?_
    rw [Table.get?_put]
    split
    · next heq =>
      rw [← heq, hsnippet]
      exact .some ⟨rfl, rfl, fun name =>
        (Entries.get?_eq_of_perm slices.nodup_keys hperm name).symm⟩
    · exact Mixin.rel_alike_self _

/-- A row of calls in which a flag is set and removed and a note is removed before another is
set. -/
def detour : List Setting :=
  [⟨.spi, some (.spi ⟨true⟩)⟩, ⟨Symbol.noteType "note", none⟩, ⟨.snippet, some (.snippet .sliced)⟩,
    ⟨Symbol.noteType "note", some (Symbol.note "note" "second")⟩, ⟨.spi, none⟩]

/-- A row of calls that sets no more than it leaves. -/
def direct : List Setting :=
  [⟨Symbol.noteType "note", some (Symbol.note "note" "second")⟩, ⟨.spi, none⟩,
    ⟨.snippet, some (.snippet .sliced)⟩]

theorem keysDistinct_detour : Setting.KeysDistinct (detour ++ direct) := by
  have hmem : ∀ setting ∈ detour ++ direct, setting.type ∈ Symbol.noteFamily := by
    simp [detour, direct, Symbol.noteFamily, Symbol.noteTypes, MixinType.builtin]
  exact fun a ha b hb => Symbol.key_inj_noteFamily (hmem a ha) (hmem b hb)

theorem lastUnder?_detour (key : String) :
    Setting.lastUnder? detour key = Setting.lastUnder? direct key := by
  have hnil : Setting.lastUnder? [] key = none := rfl
  have hspi : MixinType.spi.key? = some "spi" := rfl
  have hnote : (Symbol.noteType "note").key? = some "note" := rfl
  have hsnippet : MixinType.snippet.key? = some "snippet" := rfl
  simp only [detour, direct, Setting.lastUnder?_cons, hnil, hspi, hnote, hsnippet]
  by_cases h₁ : "spi" = key
  · subst h₁
    rfl
  · by_cases h₂ : "note" = key
    · subst h₂
      rfl
    · simp [h₁, h₂]

/-- The slices of the snippet in another order. -/
def reversed : Table SliceRange := ⟨Snippet.sliced.slices.entries.reverse, by decide⟩

/-- The two rows lead to symbols that hold the same mixins in different orders, and that are written
alike; and so is the first of them with its slices in another order. -/
theorem bytes_after_detour :
    ∃ final final', Symbol.withNote.setAll detour = .ok final ∧
      Symbol.withNote.setAll direct = .ok final' ∧ final.mixins.keys = ["snippet", "note"] ∧
      final'.mixins.keys = ["note", "snippet"] ∧ noting.encode final = noting.encode final' ∧
      noting.encode final = noting.encode { final with
        mixins := final.mixins.put "snippet"
          (.snippet { Snippet.sliced with slices := reversed }) } := by
  have hset : (Symbol.withNote.setAll detour).map (fun final => final.mixins.keys) =
        .ok ["snippet", "note"] ∧
      (Symbol.withNote.setAll direct).map (fun final => final.mixins.keys) =
        .ok ["note", "snippet"] := by decide +kernel
  cases hdetour : Symbol.withNote.setAll detour with
  | error misuse =>
    rw [hdetour] at hset
    nomatch hset.1
  | ok final =>
    cases hdirect : Symbol.withNote.setAll direct with
    | error misuse =>
      rw [hdirect] at hset
      nomatch hset.2
    | ok final' =>
      rw [hdetour, hdirect] at hset
      obtain ⟨hhistory, hslices⟩ :=
        bytes_forget_the_history noting stable_noting.exists_isOf
      have hlast := (Setting.forall_isLastOf_iff
        (keysDistinct_detour.of_subset (List.subset_append_left _ _))
        (keysDistinct_detour.of_subset (List.subset_append_right _ _))
        (Symbol.isSome_key?_of_setAll hdetour)
        (Symbol.isSome_key?_of_setAll hdirect)).mpr lastUnder?_detour
      have hsnippet : final.mixins.get? "snippet" = some (.snippet .sliced) :=
        Symbol.get?_setAll "snippet" hdetour
      refine ⟨final, final', rfl, rfl, Except.ok.inj hset.1, Except.ok.inj hset.2, ?_, ?_⟩
      · exact (hhistory Symbol.withNote detour direct final final' keysDistinct_detour hdetour
          hdirect hlast false).runs
      · exact (hslices final "snippet" .sliced reversed hsnippet (List.reverse_perm _) false).runs

end Coder

end SymbolRecord
