import SymbolRecord.Symbol.Basic
import SymbolRecord.Proofs.Codec
/-!
# Every record is read back

The records of the format are recovered by their codecs.  Two of them say more than "what was
written is read".

A function parameter has parameters of its own, and reading gives up beyond a fixed height, so a
parameter is recovered when its tree is no higher than that.  The proof follows the height.

The slices of a snippet are written in ascending order of their names, and read in the order in
which they are found.  So what is read from a snippet's wire form is the snippet up to that order.

* `Identifier.recovers`, …, `GenericParameter.recovers`: records whose fields are all they have.
* `FunctionParameter.height`, `FunctionParameter.recovers_codecWithin`: trees of parameters.
* `Snippet.Alike`, `Snippet.exists_read_of_alike`: snippets.
-/

namespace SymbolRecord

open Fields Json

/-! ## Names and kinds -/

theorem Identifier.recovers (a : Identifier) : Identifier.codec.Recovers a :=
  (recovers_start Identifier.mk
    |>.required (Codec.recovers_text _) (by decide)
    |>.optional (fun _ _ => Codec.recovers_text _) (by decide)).codec "Identifier"

theorem DeclarationFragment.recovers (a : DeclarationFragment) :
    DeclarationFragment.codec.Recovers a :=
  (recovers_start DeclarationFragment.mk
    |>.required (Codec.recovers_text _) (by decide)
    |>.required (Codec.recovers_text _) (by decide)
    |>.optional (fun _ _ => Codec.recovers_text _) (by decide)).codec "DeclarationFragment"

theorem DeclarationFragment.recovers_listOf (as : List DeclarationFragment) :
    DeclarationFragment.codec.listOf.Recovers as :=
  Codec.recovers_listOf fun a _ => a.recovers

theorem Names.recovers (a : Names) : Names.codec.Recovers a :=
  (recovers_start Names.mk
    |>.required (Codec.recovers_text _) (by decide)
    |>.optional (fun as _ => DeclarationFragment.recovers_listOf as) (by decide)
    |>.optional (fun as _ => DeclarationFragment.recovers_listOf as) (by decide)
    |>.optional (fun _ _ => Codec.recovers_text _) (by decide)).codec "Names"

/-- Only kinds that parsing leaves as they are can be read back. -/
theorem KindIdentifier.recovers {a : KindIdentifier} (h : KindIdentifier.parse a.token = a) :
    KindIdentifier.codec.Recovers a :=
  Codec.recovers_of_isLeaf rfl rfl rfl (congrArg Reading.accepted h)

theorem Kind.recovers {a : Kind} (h : KindIdentifier.parse a.identifier.token = a.identifier) :
    Kind.codec.Recovers a :=
  (recovers_start Kind.mk
    |>.required (KindIdentifier.recovers h) (by decide)
    |>.defaulted (Codec.recovers_text _) "" (by decide)).codec "Kind"

/-! ## Comments and positions -/

theorem Position.recovers (a : Position) : Position.codec.Recovers a :=
  (recovers_start Position.mk
    |>.required (Codec.recovers_integer _) (by decide)
    |>.required (Codec.recovers_integer _) (by decide)).codec "Position"

theorem SourceRange.recovers (a : SourceRange) : SourceRange.codec.Recovers a :=
  (recovers_start SourceRange.mk
    |>.required (Position.recovers _) (by decide)
    |>.required (Position.recovers _) (by decide)).codec "SourceRange"

theorem Line.recovers (a : Line) : Line.codec.Recovers a :=
  (recovers_start Line.mk
    |>.required (Codec.recovers_text _) (by decide)
    |>.optional (fun range _ => range.recovers) (by decide)).codec "Line"

theorem Comment.recovers (a : Comment) : Comment.codec.Recovers a :=
  (recovers_start Comment.mk
    |>.defaulted (Codec.recovers_listOf fun line _ => line.recovers) [] (by decide)
    |>.optional (fun _ _ => Codec.recovers_text _) (by decide)
    |>.optional (fun _ _ => Codec.recovers_text _) (by decide)).codec "LineList"

theorem Location.recovers (a : Location) : Location.codec.Recovers a :=
  (recovers_start Location.mk
    |>.required (Codec.recovers_text _) (by decide)
    |>.required (Position.recovers _) (by decide)).codec "Location"

/-! ## Availability -/

theorem SemanticVersion.recovers (a : SemanticVersion) : SemanticVersion.codec.Recovers a :=
  (recovers_start SemanticVersion.mk
    |>.required (Codec.recovers_integer _) (by decide)
    |>.optional (fun _ _ => Codec.recovers_integer _) (by decide)
    |>.optional (fun _ _ => Codec.recovers_integer _) (by decide)).codec "SemanticVersion"

theorem AvailabilityItem.recovers (a : AvailabilityItem) : AvailabilityItem.codec.Recovers a :=
  (recovers_start AvailabilityItem.mk
    |>.optional (fun _ _ => Codec.recovers_text _) (by decide)
    |>.optional (fun version _ => version.recovers) (by decide)
    |>.optional (fun version _ => version.recovers) (by decide)
    |>.optional (fun version _ => version.recovers) (by decide)
    |>.optional (fun _ _ => Codec.recovers_text _) (by decide)
    |>.optional (fun _ _ => Codec.recovers_text _) (by decide)
    |>.optional (fun _ _ => Codec.recovers_flag _) (by decide)
    |>.optional (fun _ _ => Codec.recovers_flag _) (by decide)
    |>.optional (fun _ _ => Codec.recovers_flag _) (by decide)).codec "AvailabilityItem"

theorem Availability.recovers (a : Availability) : Availability.codec.Recovers a :=
  Codec.Recovers.bare (Codec.recovers_listOf fun item _ => item.recovers) rfl "items"

/-! ## Declarations, flags and generics -/

theorem DeclarationFragments.recovers (a : DeclarationFragments) :
    DeclarationFragments.codec.Recovers a :=
  Codec.Recovers.bare (DeclarationFragment.recovers_listOf _) rfl "fragments"

theorem Mutability.recovers (a : Mutability) : Mutability.codec.Recovers a :=
  Codec.Recovers.bare (Codec.recovers_strictFlag _) rfl "is_read_only"

theorem Spi.recovers (a : Spi) : Spi.codec.Recovers a :=
  Codec.Recovers.bare (Codec.recovers_strictFlag _) rfl "is_spi"

theorem ConstraintKind.recovers (a : ConstraintKind) : ConstraintKind.codec.Recovers a :=
  Codec.recovers_choice (by cases a <;> decide)

theorem GenericConstraint.recovers (a : GenericConstraint) :
    GenericConstraint.codec.Recovers a :=
  (recovers_start GenericConstraint.mk
    |>.required (ConstraintKind.recovers _) (by decide)
    |>.required (Codec.recovers_text _) (by decide)
    |>.required (Codec.recovers_text _) (by decide)).codec "GenericConstraint"

theorem GenericParameter.recovers (a : GenericParameter) : GenericParameter.codec.Recovers a :=
  (recovers_start GenericParameter.mk
    |>.required (Codec.recovers_text _) (by decide)
    |>.required (Codec.recovers_integer _) (by decide)
    |>.required (Codec.recovers_integer _) (by decide)).codec "GenericParameter"

theorem SwiftExtension.recovers (a : SwiftExtension) : SwiftExtension.codec.Recovers a :=
  (recovers_start SwiftExtension.mk
    |>.required (Codec.recovers_text _) (by decide)
    |>.optional (fun _ _ => Codec.recovers_text _) (by decide)
    |>.list (fun constraint _ => constraint.recovers) (by decide)).codec "SwiftExtension"

theorem SwiftGenerics.recovers (a : SwiftGenerics) : SwiftGenerics.codec.Recovers a :=
  (recovers_start SwiftGenerics.mk
    |>.list (fun parameter _ => parameter.recovers) (by decide)
    |>.list (fun constraint _ => constraint.recovers) (by decide)).codec "SwiftGenerics"

/-! ## Trees of parameters -/

namespace FunctionParameter

mutual

/-- The number of parameters on the longest way from a parameter down to one without children. -/
def height : FunctionParameter → Nat
  | ⟨_, _, _, children⟩ => heightOfChildren children + 1

/-- The greatest height of a child. -/
def heightOfChildren : Option (List FunctionParameter) → Nat
  | none => 0
  | some ps => heightOfAll ps

/-- The greatest height in a list of parameters. -/
def heightOfAll : List FunctionParameter → Nat
  | [] => 0
  | p :: ps => max (height p) (heightOfAll ps)

end

theorem height_le_heightOfAll {p : FunctionParameter} {ps : List FunctionParameter}
    (h : p ∈ ps) : p.height ≤ heightOfAll ps := by
  induction ps with
  | nil => exact absurd h List.not_mem_nil
  | cons q qs ih =>
    rw [heightOfAll]
    rcases List.mem_cons.mp h with rfl | hrest
    · exact Nat.le_max_left _ _
    · exact Nat.le_trans (ih hrest) (Nat.le_max_right _ _)

/-- Children are lower than their parent. -/
theorem height_lt_of_mem_children {p child : FunctionParameter} {ps : List FunctionParameter}
    (hchildren : p.children = some ps) (h : child ∈ ps) : child.height < p.height := by
  obtain ⟨name, internalName, fragments, children⟩ := p
  have hsome : children = some ps := hchildren
  have hle := height_le_heightOfAll h
  rw [hsome, height, heightOfChildren]
  omega

theorem wireAll_eq_map (ps : List FunctionParameter) : wireAll ps = ps.map wire := by
  induction ps with
  | nil => rfl
  | cons p ps ih => rw [wireAll, ih, List.map_cons]

/-- The wire form of a parameter is that of its fields, whatever codec of its children is used. -/
theorem wire_eq_description_wire (p : FunctionParameter) (limit : Nat) :
    p.wire = .object ((description (codecWithin limit)).wire p) := by
  obtain ⟨name, internalName, fragments, children⟩ := p
  have hname : Value.ofText? internalName = Codec.text.optional.wire internalName := by
    cases internalName <;> rfl
  have hchildren : wireChildren children = (codecWithin limit).listOf.optional.wire children := by
    cases children with
    | none => rfl
    | some ps => exact congrArg Value.list (wireAll_eq_map ps)
  rw [wire, hname, hchildren]
  rfl

theorem recovers_description {child : Codec FunctionParameter} {p : FunctionParameter}
    (h : ∀ ps, p.children = some ps → child.listOf.Recovers ps) :
    ((description child).codec "FunctionParameter").Recovers p := by
  -- a record that contains records of its own type is not definitionally the sum of its fields
  obtain ⟨name, internalName, fragments, children⟩ := p
  unfold description
  exact (recovers_start FunctionParameter.mk
    |>.required (Codec.recovers_text _) (by decide)
    |>.optional (fun _ _ => Codec.recovers_text _) (by decide)
    |>.optional (fun as _ => DeclarationFragment.recovers_listOf as) (by decide)
    |>.optional h (by decide)).codec "FunctionParameter"

/-- **A parameter is read back if its tree is no higher than what is read.**  By induction on the
limit: the children of a parameter are lower than it is, and they are read with a lower limit. -/
theorem recovers_codecWithin : ∀ (limit : Nat) (p : FunctionParameter), p.height ≤ limit →
    (codecWithin limit).Recovers p
  | 0, ⟨_, _, _, children⟩, h => by
    rw [height] at h
    omega
  | limit + 1, p, h => by
    have hchild : ∀ ps, p.children = some ps → (codecWithin limit).listOf.Recovers ps := by
      intro ps hps
      refine Codec.recovers_listOf fun child hmem => recovers_codecWithin limit child ?_
      have hlt := height_lt_of_mem_children hps hmem
      omega
    have hrecord := recovers_description hchild
    have hwire := wire_eq_description_wire p limit
    refine ⟨fun v hv => hrecord.read v ?_, ?_, ?_⟩
    · rw [show (codecWithin (limit + 1)).wire p = p.wire from rfl, hwire] at hv
      exact hv
    · rw [show (codecWithin (limit + 1)).wire p = p.wire from rfl, hwire]
      exact hrecord.solid
    · rw [show (codecWithin (limit + 1)).wire p = p.wire from rfl, hwire]
      exact hrecord.plain

end FunctionParameter

/-- A signature is read when its parameters are. -/
def FunctionSignature.Readable (signature : FunctionSignature) : Prop :=
  ∀ p ∈ signature.parameters, p.height ≤ FunctionParameter.heightLimit - 1

theorem FunctionSignature.recovers {a : FunctionSignature} (h : a.Readable) :
    FunctionSignature.codec.Recovers a :=
  (recovers_start FunctionSignature.mk
    |>.list (fun p hp => FunctionParameter.recovers_codecWithin _ p (h p hp)) (by decide)
    |>.list (fun fragment _ => fragment.recovers) (by decide)).codec "FunctionSignature"

/-! ## Snippets -/

theorem SliceRange.recovers (a : SliceRange) : SliceRange.codec.Recovers a :=
  Codec.Recovers.restricted
    (recovers_start Prod.mk
      |>.required (Codec.recovers_integer _) (by decide)
      |>.required (Codec.recovers_integer _) (by decide)
      |>.codec "SliceRange")
    (dif_pos a.start_le_finish)

namespace Snippet

/-- Two snippets are alike when they differ at most in the order of their slices. -/
structure Alike (a b : Snippet) : Prop where
  /-- The languages are the same. -/
  language : a.language = b.language
  /-- The lines are the same. -/
  lines : a.lines = b.lines
  /-- The slices are the same, name by name. -/
  slices : ∀ name, a.slices.get? name = b.slices.get? name

/-- The entries of a snippet's wire form. -/
def wireEntries (snippet : Snippet) : Entries Value :=
  Fields.written linesSlot (Codec.text.listOf.wire snippet.lines)
    ++ Fields.written languageSlot (Codec.text.optional.wire snippet.language)
    ++ if snippet.slices.entries.isEmpty then []
      else [(slicesSlot.key,
        .object (Entries.mapValues SliceRange.codec.wire (Entries.sorted snippet.slices.entries)))]

theorem wire_eq_object (snippet : Snippet) : snippet.wire = .object snippet.wireEntries := rfl

/-- The order of the slices is not written. -/
theorem Alike.wire_eq {a b : Snippet} (h : a.Alike b) : a.wire = b.wire := by
  have hsorted : Entries.sorted a.slices.entries = Entries.sorted b.slices.entries :=
    Entries.sorted_eq_of_get?_eq a.slices.nodup_keys b.slices.nodup_keys h.slices
  have hempty : a.slices.entries.isEmpty = b.slices.entries.isEmpty := by
    have hperm := (Entries.sorted_perm a.slices.entries).symm.trans
      (hsorted ▸ Entries.sorted_perm b.slices.entries)
    exact hperm.isEmpty_eq
  rw [wire, wire, h.language, h.lines, hsorted, hempty]

/-- The slices of a snippet in ascending order of their names. -/
def sortedSlices (snippet : Snippet) : Table SliceRange :=
  ⟨Entries.sorted snippet.slices.entries, Entries.nodup_keys_sorted snippet.slices.nodup_keys⟩

theorem get?_sortedSlices (snippet : Snippet) (name : String) :
    snippet.sortedSlices.get? name = snippet.slices.get? name :=
  (Entries.get?_eq_of_perm snippet.slices.nodup_keys (Entries.sorted_perm _).symm name).symm

/-- The lines and the language of a snippet, which are all it has beside its slices. -/
def head : Fields Snippet (Table SliceRange → Snippet) :=
  Fields.start mk
    |>.optional languageSlot Codec.text language
    |>.required linesSlot Codec.text.listOf lines

theorem recovers_head (snippet : Snippet) :
    head.Recovers ["language", "language", "lines", "lines"] snippet
      (mk snippet.language snippet.lines) :=
  recovers_start Snippet.mk
    |>.optional (fun _ _ => Codec.recovers_text _) (by decide)
    |>.required (Codec.recovers_listOf fun _ _ => Codec.recovers_text _) (by decide)

/-- What is written for the slices. -/
def slicesEntries (snippet : Snippet) : Entries Value :=
  if snippet.slices.entries.isEmpty then []
  else [(slicesSlot.key, SliceRange.codec.tableOf.wire snippet.sortedSlices)]

theorem wireEntries_perm (snippet : Snippet) :
    snippet.wireEntries.Perm (head.wire snippet ++ snippet.slicesEntries) := by
  refine List.Perm.append_right _ ?_
  exact List.perm_append_comm

theorem keys_slicesEntries (snippet : Snippet) :
    ∀ key ∈ Entries.keys snippet.slicesEntries, key = "slices" := by
  intro key hkey
  unfold slicesEntries at hkey
  split at hkey
  · exact absurd hkey List.not_mem_nil
  · exact List.mem_singleton.mp hkey

theorem nodup_keys_wireEntries (snippet : Snippet) :
    (Entries.keys snippet.wireEntries).Nodup := by
  refine (Entries.keys_perm snippet.wireEntries_perm).symm.nodup ?_
  rw [Entries.keys_append, List.nodup_append]
  refine ⟨snippet.recovers_head.nodup, ?_, fun key hkey key' hkey' heq => ?_⟩
  · unfold slicesEntries
    split
    · exact List.nodup_nil
    · exact List.pairwise_singleton _ _
  · have hmem := snippet.recovers_head.keys_subset key hkey
    rw [heq, snippet.keys_slicesEntries key' hkey'] at hmem
    exact absurd hmem (by decide)

theorem get?_wireEntries (snippet : Snippet) (key : String) :
    Entries.get? snippet.wireEntries key =
      if key = "slices" then Entries.get? snippet.slicesEntries key
      else Entries.get? (head.wire snippet) key := by
  rw [Entries.get?_eq_of_perm snippet.nodup_keys_wireEntries snippet.wireEntries_perm,
    Entries.get?_append]
  split
  · next hkey =>
    have hnone : Entries.get? (head.wire snippet) key = none := by
      rw [Entries.get?_eq_none_iff, hkey]
      exact fun hmem => absurd (snippet.recovers_head.keys_subset _ hmem) (by decide)
    rw [hnone, Option.none_or]
  · next hkey =>
    have hnone : Entries.get? snippet.slicesEntries key = none := by
      rw [Entries.get?_eq_none_iff]
      exact fun hmem => hkey (snippet.keys_slicesEntries key hmem)
    rw [hnone, Option.or_none]

/-- The slices of a snippet, which may be missing. -/
def slicesField : Fields Snippet (Table SliceRange) :=
  one slicesSlot SliceRange.codec.tableOf (some .empty) slices

theorem exists_read_slicesField {snippet : Snippet} {entries : Entries Value}
    (h : (entries.get? "slices").map sortKeys =
      (Entries.get? snippet.slicesEntries "slices").map sortKeys) :
    ∃ slices, slicesField.read entries = .accepted slices ∧
      ∀ name, slices.get? name = snippet.slices.get? name := by
  unfold slicesEntries at h
  split at h
  · next hempty =>
    have hnone : slicesSlot.find? entries = none := by
      have hget : entries.get? "slices" = none := Option.map_eq_none_iff.mp h
      rw [Slot.find?, show slicesSlot.key = "slices" from rfl,
        show slicesSlot.name = "slices" from rfl, hget]
      rfl
    refine ⟨.empty, ?_, fun name => ?_⟩
    · simp only [slicesField, one, hnone]
    · have hnil : snippet.slices.entries = [] := List.isEmpty_iff.mp hempty
      rw [Table.get?, Table.get?, hnil]
      rfl
  · next hsome =>
    have hwritten : written slicesSlot (SliceRange.codec.tableOf.wire snippet.sortedSlices) =
        [(slicesSlot.key, SliceRange.codec.tableOf.wire snippet.sortedSlices)] := rfl
    rw [← hwritten] at h
    have hsolid : (SliceRange.codec.tableOf.wire snippet.sortedSlices).isNull = false := rfl
    obtain ⟨w, hfind, hw⟩ := @find?_of_written slicesSlot _ hsolid entries h
    obtain ⟨slices, hread, hslices⟩ :=
      Codec.exists_read_tableOf_of_alike (fun _ range _ => range.recovers) hw
    refine ⟨slices, ?_, fun name => (hslices name).trans (snippet.get?_sortedSlices name)⟩
    simp only [slicesField, one, hfind, hread]
    rfl

/-- **What is read from a snippet's wire form is the snippet up to the order of its slices.** -/
theorem exists_read_of_alike {snippet : Snippet} {v : Value} (hv : v.Alike snippet.wire) :
    ∃ snippet', Snippet.codec.read v = .accepted snippet' ∧ snippet'.Alike snippet := by
  obtain ⟨entries, rfl, -, hget⟩ :=
    Value.Alike.exists_object (snippet.wire_eq_object ▸ hv) snippet.nodup_keys_wireEntries
  have hhead : head.read entries = .accepted (mk snippet.language snippet.lines) := by
    refine snippet.recovers_head.read entries fun key hkey => ?_
    rw [hget, get?_wireEntries, if_neg]
    rintro rfl
    exact absurd hkey (by decide)
  have hfield : (Entries.get? entries "slices").map sortKeys =
      (Entries.get? snippet.slicesEntries "slices").map sortKeys := by
    rw [hget, get?_wireEntries, if_pos rfl]
  obtain ⟨slices, hread, hslices⟩ := exists_read_slicesField hfield
  refine ⟨⟨snippet.language, snippet.lines, slices⟩, ?_, ⟨rfl, rfl, hslices⟩⟩
  show Reading.both _ (head.read entries) (slicesField.read entries) = _
  rw [hhead, hread]
  rfl

theorem plain_wire (snippet : Snippet) : snippet.wire.Plain := by
  refine Value.plain_object.mpr ⟨snippet.nodup_keys_wireEntries, fun entry hmem => ?_⟩
  rcases List.mem_append.mp (snippet.wireEntries_perm.mem_iff.mp hmem) with hhead | hslices
  · exact snippet.recovers_head.plain entry hhead
  · unfold slicesEntries at hslices
    split at hslices
    · exact absurd hslices List.not_mem_nil
    · rw [List.mem_singleton.mp hslices]
      refine Value.plain_object.mpr ⟨?_, fun slice hslice => ?_⟩
      · rw [Entries.keys_mapValues]
        exact snippet.sortedSlices.nodup_keys
      · obtain ⟨range, -, rfl⟩ := List.mem_map.mp hslice
        exact range.2.recovers.plain

end Snippet

end SymbolRecord
