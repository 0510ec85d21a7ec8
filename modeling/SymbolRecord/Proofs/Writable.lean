import SymbolRecord.Coder
import SymbolRecord.Proofs.Core
import SymbolRecord.Proofs.Json
/-!
# What may be written

The written form of a record is refused for two reasons only: an integer that does not fit 64 bits,
and lists and objects that are nested too deep.  Readers take integers of any size, because they
take them from texts too, so every integer of a record counts.  Nesting is a matter of the
parameters of a function alone; all other records are nested a few levels deep.

* `Codec.Writes`: with room for some levels of nesting, what a codec writes hangs on the integers
  of the record; `Fields.Writes` says the same of the fields of a record.
* `FunctionParameter.nesting`, `FunctionParameter.check_wire`: the depth of a parameter tree.
* `Mixin.Writable`, `Symbol.Writable`, `Document.Writable`: the integers are in range, and there
  is enough room.
* `Mixin.check_payload`, `Core.check_wire`: the payload of a mixin and the core fields.
-/

namespace SymbolRecord

open Json

/-- All integers of a list have a JSON form. -/
def InRange (integers : List Int) : Prop := ∀ n ∈ integers, NumberLiteral.inRange n = true

theorem inRange_nil : InRange [] := fun _ hmem => absurd hmem List.not_mem_nil

theorem inRange_append {as bs : List Int} : InRange (as ++ bs) ↔ InRange as ∧ InRange bs :=
  List.forall_mem_append

theorem inRange_flatMap {α : Type} {f : α → List Int} {as : List α} :
    InRange (as.flatMap f) ↔ ∀ a ∈ as, InRange (f a) := by
  constructor
  · intro h a ha n hn
    exact h n (List.mem_flatMap.mpr ⟨a, ha, hn⟩)
  · intro h n hn
    obtain ⟨a, ha, hn⟩ := List.mem_flatMap.mp hn
    exact h a ha n hn

theorem InRange.congr {as bs : List Int} (h : ∀ n, n ∈ as ↔ n ∈ bs) : InRange as ↔ InRange bs :=
  forall_congr' fun n => imp_congr_left (h n)

/-! ## Codecs -/

/-- With room for some further levels of nesting, what a codec writes is refused for the integers
of the record only. -/
def Codec.Writes {α : Type} (codec : Codec α) (height : Nat) (integers : α → List Int) : Prop :=
  ∀ a depth, depth + height ≤ writtenNestingLimit →
    (check depth (codec.wire a) = .ok () ↔ InRange (integers a))

/-- The same of the fields of a record. -/
def Fields.Writes {ρ α : Type} (description : Fields ρ α) (height : Nat)
    (integers : ρ → List Int) : Prop :=
  ∀ r depth, depth + height ≤ writtenNestingLimit →
    ((∀ entry ∈ description.wire r, check depth entry.2 = .ok ()) ↔ InRange (integers r))

namespace Codec

variable {α β : Type} {height : Nat} {integers : α → List Int}

/-- What is written without integers and without nesting is never refused. -/
theorem writes_of_check {codec : Codec α} (h : ∀ a depth, check depth (codec.wire a) = .ok ())
    (height : Nat) : codec.Writes height fun _ => [] :=
  fun a depth _ => iff_of_true (h a depth) inRange_nil

theorem writes_text (height : Nat) : text.Writes height fun _ => [] :=
  writes_of_check (fun _ _ => rfl) height

theorem writes_flag (height : Nat) : flag.Writes height fun _ => [] :=
  writes_of_check (fun _ _ => rfl) height

theorem writes_strictFlag (height : Nat) : strictFlag.Writes height fun _ => [] :=
  writes_of_check (fun _ _ => rfl) height

theorem writes_choice (all : List α) (name : α → String) (height : Nat) :
    (choice all name).Writes height fun _ => [] :=
  writes_of_check (fun _ _ => rfl) height

theorem writes_integer (height : Nat) : integer.Writes height fun n => [n] := by
  intro n depth _
  rw [InRange, List.forall_mem_singleton]
  show check depth (.int n) = .ok () ↔ _
  rw [check]
  cases NumberLiteral.inRange n with
  | true => simp
  | false => simp

theorem Writes.congr {codec : Codec α} (h : codec.Writes height integers)
    {integers' : α → List Int} (heq : ∀ a n, n ∈ integers a ↔ n ∈ integers' a) :
    codec.Writes height integers' :=
  fun a depth hdepth => (h a depth hdepth).trans (InRange.congr (heq a))

theorem Writes.mono {codec : Codec α} (h : codec.Writes height integers) {height' : Nat}
    (hle : height ≤ height') : codec.Writes height' integers :=
  fun a depth hdepth => h a depth (by omega)

theorem Writes.listOf {codec : Codec α} (h : codec.Writes height integers) :
    codec.listOf.Writes (height + 1) fun as => as.flatMap integers := by
  intro as depth hdepth
  show check depth (.list (as.map codec.wire)) = .ok () ↔ _
  rw [check_list, and_iff_right (by omega), List.forall_mem_map, inRange_flatMap]
  exact forall₂_congr fun a _ => h a (depth + 1) (by omega)

theorem Writes.optional {codec : Codec α} (h : codec.Writes height integers) :
    codec.optional.Writes height fun a? => a?.toList.flatMap integers := by
  intro a? depth hdepth
  cases a? with
  | none => exact iff_of_true rfl inRange_nil
  | some a =>
    show check depth (codec.wire a) = .ok () ↔ InRange ([a].flatMap integers)
    rw [List.flatMap_singleton]
    exact h a depth hdepth

theorem Writes.bare {codec : Codec α} (h : codec.Writes height integers) (name : String)
    (make : α → β) (get : β → α) :
    (Codec.bare name codec make get).Writes height fun b => integers (get b) :=
  fun b depth hdepth => h (get b) depth hdepth

theorem Writes.restricted {codec : Codec α} (h : codec.Writes height integers)
    (make : α → Except String β) (get : β → α) :
    (Codec.restricted codec make get).Writes height fun b => integers (get b) :=
  fun b depth hdepth => h (get b) depth hdepth

end Codec

namespace Fields

variable {ρ α β : Type} {height : Nat} {integers integers' : ρ → List Int}

theorem writes_start (a : α) (height : Nat) : (start a : Fields ρ α).Writes height fun _ => [] :=
  fun _ _ _ => iff_of_true (fun _ hmem => absurd hmem List.not_mem_nil) inRange_nil

/-- Leaving out a null is of no account. -/
theorem check_written (slot : Slot) (v : Value) (depth : Nat) :
    (∀ entry ∈ written slot v, check depth entry.2 = .ok ()) ↔ check depth v = .ok () := by
  unfold written
  split
  · next hnull =>
    cases v with
    | null => exact iff_of_true (fun _ hmem => absurd hmem List.not_mem_nil) rfl
    | _ => exact absurd hnull Bool.false_ne_true
  · exact List.forall_mem_singleton

/-- Leaving out an empty list is of no account. -/
theorem check_listField (slot : Slot) (codec : Codec α) (as : List α) {depth : Nat}
    (hdepth : depth < writtenNestingLimit) :
    (∀ entry ∈ (if as.isEmpty then [] else written slot (codec.listOf.wire as)),
        check depth entry.2 = .ok ()) ↔
      ∀ a ∈ as, check (depth + 1) (codec.wire a) = .ok () := by
  split
  · next hempty =>
    rw [List.isEmpty_iff.mp hempty]
    simp
  · rw [check_written]
    show check depth (.list (as.map codec.wire)) = .ok () ↔ _
    rw [check_list, and_iff_right hdepth, List.forall_mem_map]

theorem writes_one {codec : Codec α} {numbers : α → List Int} (h : codec.Writes height numbers)
    (slot : Slot) (default? : Option α) (get : ρ → α) :
    (one slot codec default? get).Writes height fun r => numbers (get r) :=
  fun r depth hdepth => (check_written slot _ depth).trans (h (get r) depth hdepth)

theorem Writes.and {description : Fields ρ (α → β)} {field : Fields ρ α}
    (hd : description.Writes height integers) (hf : field.Writes height integers') :
    (description.and field).Writes height fun r => integers r ++ integers' r := by
  intro r depth hdepth
  show (∀ entry ∈ description.wire r ++ field.wire r, _) ↔ _
  rw [List.forall_mem_append, inRange_append, hd r depth hdepth, hf r depth hdepth]

section Descriptions

variable {numbers : α → List Int} {codec : Codec α}

theorem Writes.required {description : Fields ρ (α → β)} (hd : description.Writes height integers)
    (h : codec.Writes height numbers) (slot : Slot) (get : ρ → α) :
    (description.required slot codec get).Writes height fun r => integers r ++ numbers (get r) :=
  hd.and (writes_one h slot none get)

theorem Writes.defaulted {description : Fields ρ (α → β)} (hd : description.Writes height integers)
    (h : codec.Writes height numbers) (slot : Slot) (a : α) (get : ρ → α) :
    (description.defaulted slot codec a get).Writes height
      fun r => integers r ++ numbers (get r) :=
  hd.and (writes_one h slot (some a) get)

theorem Writes.optional {description : Fields ρ (Option α → β)}
    (hd : description.Writes height integers) (h : codec.Writes height numbers) (slot : Slot)
    (get : ρ → Option α) :
    (description.optional slot codec get).Writes height
      fun r => integers r ++ (get r).toList.flatMap numbers :=
  hd.defaulted h.optional slot none get

theorem Writes.list {description : Fields ρ (List α → β)}
    (hd : description.Writes (height + 1) integers) (h : codec.Writes height numbers) (slot : Slot)
    (get : ρ → List α) :
    (description.list slot codec get).Writes (height + 1)
      fun r => integers r ++ (get r).flatMap numbers := by
  refine hd.and fun r depth hdepth => (check_listField slot codec (get r) (by omega)).trans ?_
  rw [inRange_flatMap]
  exact forall₂_congr fun a _ => h a (depth + 1) (by omega)

end Descriptions

theorem Writes.codec {description : Fields ρ ρ} (h : description.Writes height integers)
    (name : String) : (description.codec name).Writes (height + 1) integers := by
  intro r depth hdepth
  show check depth (.object (description.wire r)) = .ok () ↔ _
  rw [check_object, and_iff_right (by omega)]
  exact h r (depth + 1) (by omega)

end Fields

open Codec Fields

/-! ## Records -/

/-- The integers of a position. -/
def Position.integers (position : Position) : List Int := [position.line, position.character]

theorem Position.writes : codec.Writes 1 integers :=
  ((writes_start mk 0
    |>.required (writes_integer 0) _ _
    |>.required (writes_integer 0) _ _).codec _).congr (by simp [integers])

/-- The integers of a comment: those of the ranges of its lines. -/
def Comment.integers (comment : Comment) : List Int :=
  comment.lines.flatMap fun line => line.range.toList.flatMap fun range =>
    range.start.integers ++ range.finish.integers

theorem SourceRange.writes :
    codec.Writes 2 fun range => range.start.integers ++ range.finish.integers :=
  ((writes_start mk 1
    |>.required Position.writes _ _
    |>.required Position.writes _ _).codec _).congr (by simp)

theorem Line.writes :
    codec.Writes 3 fun line => line.range.toList.flatMap fun range =>
      range.start.integers ++ range.finish.integers :=
  ((writes_start mk 2
    |>.required (writes_text 2) _ _
    |>.optional SourceRange.writes _ _).codec _).congr (by simp)

theorem Comment.writes : codec.Writes 5 integers :=
  ((writes_start mk 4
    |>.defaulted Line.writes.listOf _ _ _
    |>.optional (writes_text 4) _ _
    |>.optional (writes_text 4) _ _).codec _).congr (by simp [integers])

theorem Identifier.writes : codec.Writes 1 fun _ => [] :=
  ((writes_start mk 0
    |>.required (writes_text 0) _ _
    |>.optional (writes_text 0) _ _).codec _).congr (by simp)

theorem Kind.writes : codec.Writes 1 fun _ => [] :=
  ((writes_start mk 0
    |>.required (writes_of_check (fun _ _ => rfl) 0) _ _
    |>.defaulted (writes_text 0) _ _ _).codec _).congr (by simp)

theorem DeclarationFragment.writes : codec.Writes 1 fun _ => [] :=
  ((writes_start mk 0
    |>.required (writes_text 0) _ _
    |>.required (writes_text 0) _ _
    |>.optional (writes_text 0) _ _).codec _).congr (by simp)

theorem Names.writes : codec.Writes 3 fun _ => [] :=
  ((writes_start mk 2
    |>.required (writes_text 2) _ _
    |>.optional DeclarationFragment.writes.listOf _ _
    |>.optional DeclarationFragment.writes.listOf _ _
    |>.optional (writes_text 2) _ _).codec _).congr (by simp)

/-- The core fields are refused for the integers of the comment only. -/
theorem Core.writes :
    description.Writes 5 fun core => core.docComment.toList.flatMap Comment.integers := by
  have h := writes_start mk 5
    |>.required (Identifier.writes.mono (by omega)) (.same "identifier") identifier
    |>.required (Kind.writes.mono (by omega)) (.same "kind") kind
    |>.required (writes_text 4).listOf ⟨"pathComponents", "path_components"⟩ pathComponents
    |>.optional (writes_text 5) (.same "type") type
    |>.required (Names.writes.mono (by omega)) (.same "names") names
    |>.optional Comment.writes ⟨"docComment", "doc_comment"⟩ docComment
    |>.required (writes_text 5) ⟨"accessLevel", "access_level"⟩ accessLevel
  intro core depth hdepth
  refine (h core depth hdepth).trans (InRange.congr ?_)
  simp

/-! ## Mixins without parameters -/

/-- The integers of an availability item: the parts of its versions. -/
def AvailabilityItem.integers (item : AvailabilityItem) : List Int :=
  [item.introduced, item.deprecated, item.obsoleted].flatMap fun version? =>
    version?.toList.flatMap SemanticVersion.parts

theorem SemanticVersion.writes : codec.Writes 1 parts :=
  ((writes_start mk 0
    |>.required (writes_integer 0) _ _
    |>.optional (writes_integer 0) _ _
    |>.optional (writes_integer 0) _ _).codec _).congr (by simp [parts])

theorem AvailabilityItem.writes : codec.Writes 2 integers :=
  ((writes_start mk 1
    |>.optional (writes_text 1) _ _
    |>.optional SemanticVersion.writes _ _
    |>.optional SemanticVersion.writes _ _
    |>.optional SemanticVersion.writes _ _
    |>.optional (writes_text 1) _ _
    |>.optional (writes_text 1) _ _
    |>.optional (writes_flag 1) _ _
    |>.optional (writes_flag 1) _ _
    |>.optional (writes_flag 1) _ _).codec _).congr (by simp [integers])

/-- The integers of a generic parameter. -/
def GenericParameter.integers (parameter : GenericParameter) : List Int :=
  [parameter.index, parameter.depth]

theorem GenericParameter.writes : codec.Writes 1 integers :=
  ((writes_start mk 0
    |>.required (writes_text 0) _ _
    |>.required (writes_integer 0) _ _
    |>.required (writes_integer 0) _ _).codec _).congr (by simp [integers])

theorem GenericConstraint.writes : codec.Writes 1 fun _ => [] :=
  ((writes_start mk 0
    |>.required (writes_choice _ _ 0) _ _
    |>.required (writes_text 0) _ _
    |>.required (writes_text 0) _ _).codec _).congr (by simp)

theorem SwiftExtension.writes : codec.Writes 3 fun _ => [] :=
  ((writes_start mk 2
    |>.required (writes_text 2) _ _
    |>.optional (writes_text 2) _ _
    |>.list GenericConstraint.writes _ _).codec _).congr (by simp)

theorem SwiftGenerics.writes :
    codec.Writes 3 fun generics => generics.parameters.flatMap GenericParameter.integers :=
  ((writes_start mk 2
    |>.list GenericParameter.writes _ _
    |>.list GenericConstraint.writes _ _).codec _).congr (by simp)

theorem Location.writes : codec.Writes 2 fun location => location.position.integers :=
  ((writes_start mk 1
    |>.required (writes_text 1) _ _
    |>.required Position.writes _ _).codec _).congr (by simp)

/-- The integers of the bounds of a slice. -/
def SliceRange.integers (range : SliceRange) : List Int := [range.start, range.finish]

theorem SliceRange.writes : codec.Writes 1 integers :=
  (((writes_start Prod.mk 0
    |>.required (writes_integer 0) _ _
    |>.required (writes_integer 0) _ _).codec _).restricted _ _).congr (by simp [integers])

/-- The integers of a snippet: the bounds of its slices. -/
def Snippet.integers (snippet : Snippet) : List Int :=
  snippet.slices.entries.flatMap fun entry => entry.2.integers

theorem Snippet.writes : codec.Writes 3 integers := by
  intro snippet depth hdepth
  show check depth (wire snippet) = .ok () ↔ _
  have hlines := (writes_text 0).listOf snippet.lines (depth + 1) (by omega)
  have hlanguage := (writes_text 0).optional snippet.language (depth + 1) (by omega)
  have hslices : (∀ entry ∈ (if snippet.slices.entries.isEmpty then []
      else [(slicesSlot.key,
        Value.object (Entries.mapValues SliceRange.codec.wire
          (Entries.sorted snippet.slices.entries)))]), check (depth + 1) entry.2 = .ok ()) ↔
      InRange snippet.integers := by
    rw [integers, inRange_flatMap]
    split
    · next hempty =>
      rw [List.isEmpty_iff.mp hempty]
      simp
    · rw [List.forall_mem_singleton, check_object, and_iff_right (by omega), Entries.mapValues,
        List.forall_mem_map]
      refine forall_congr' fun entry => ?_
      rw [(Entries.sorted_perm snippet.slices.entries).mem_iff]
      exact imp_congr_right fun _ => SliceRange.writes entry.2 (depth + 2) (by omega)
  rw [wire, check_object, and_iff_right (by omega), List.forall_mem_append, List.forall_mem_append,
    check_written, check_written, hslices, hlines, hlanguage]
  simp [InRange]

/-! ## Parameters of functions -/

namespace FunctionParameter

/-- How many lists and objects lie inside each other in the fragments of a parameter. -/
def nestingOfFragments : Option (List DeclarationFragment) → Nat
  | none => 0
  | some [] => 1
  | some (_ :: _) => 2

mutual

/-- How many lists and objects lie inside each other in a written parameter. -/
def nesting : FunctionParameter → Nat
  | ⟨_, _, fragments, children⟩ =>
    max (nestingOfFragments fragments) (nestingOfChildren children) + 1

/-- The same of the children of a parameter. -/
def nestingOfChildren : Option (List FunctionParameter) → Nat
  | none => 0
  | some ps => nestingOfAll ps + 1

/-- The greatest nesting in a list of parameters. -/
def nestingOfAll : List FunctionParameter → Nat
  | [] => 0
  | p :: ps => max (nesting p) (nestingOfAll ps)

end

theorem check_fragment (fragment : DeclarationFragment) (depth : Nat) :
    check depth (DeclarationFragment.codec.wire fragment) = .ok () ↔
      depth < writtenNestingLimit := by
  constructor
  · exact fun h => (check_object.mp h).1
  · exact fun h => (DeclarationFragment.writes fragment depth (by omega)).mpr inRange_nil

theorem check_fragments {depth : Nat} (hdepth : depth ≤ writtenNestingLimit) :
    ∀ fragments, check depth (fragmentsCodec.wire fragments) = .ok () ↔
      depth + nestingOfFragments fragments ≤ writtenNestingLimit
  | none => iff_of_true rfl hdepth
  | some fragments => by
    show check depth (.list (fragments.map DeclarationFragment.codec.wire)) = .ok () ↔ _
    rw [check_list, List.forall_mem_map]
    cases fragments with
    | nil =>
      rw [nestingOfFragments]
      exact ⟨fun h => h.1, fun h => ⟨h, fun _ hmem => absurd hmem List.not_mem_nil⟩⟩
    | cons fragment rest =>
      rw [nestingOfFragments]
      constructor
      · intro h
        have hfragment := (check_fragment fragment _).mp (h.2 fragment List.mem_cons_self)
        omega
      · intro h
        exact ⟨by omega, fun other _ => (check_fragment other _).mpr (by omega)⟩

mutual

/-- **A parameter may be written** if and only if its nesting leaves enough room. -/
theorem check_wire : ∀ (p : FunctionParameter) (depth : Nat),
    check depth p.wire = .ok () ↔ depth + p.nesting ≤ writtenNestingLimit
  | ⟨name, internalName, fragments, children⟩, depth => by
    have hname : check (depth + 1) (.text name) = .ok () := rfl
    have hinternal : check (depth + 1) (Value.ofText? internalName) = .ok () := by
      cases internalName <;> rfl
    rw [wire, check_object, nesting, List.forall_mem_append, List.forall_mem_append,
      List.forall_mem_append, check_written, check_written, check_written, check_written]
    constructor
    · rintro ⟨hlt, ⟨⟨-, -⟩, hfragments⟩, hchildren⟩
      have hfirst := (check_fragments hlt fragments).mp hfragments
      have hsecond := (check_wireChildren children hlt).mp hchildren
      omega
    · intro h
      have hlt : depth + 1 ≤ writtenNestingLimit := by omega
      exact ⟨hlt, ⟨⟨hname, hinternal⟩, (check_fragments hlt fragments).mpr (by omega)⟩,
        (check_wireChildren children hlt).mpr (by omega)⟩

theorem check_wireChildren : ∀ (children : Option (List FunctionParameter)) {depth : Nat},
    depth ≤ writtenNestingLimit → (check depth (wireChildren children) = .ok () ↔
      depth + nestingOfChildren children ≤ writtenNestingLimit)
  | none, _, hdepth => iff_of_true rfl hdepth
  | some ps, depth, _ => by
    rw [wireChildren, check_list, nestingOfChildren]
    constructor
    · rintro ⟨hlt, hall⟩
      have hrest := (check_wireAll ps hlt).mp hall
      omega
    · intro h
      have hlt : depth + 1 ≤ writtenNestingLimit := by omega
      exact ⟨hlt, (check_wireAll ps hlt).mpr (by omega)⟩

theorem check_wireAll : ∀ (ps : List FunctionParameter) {depth : Nat},
    depth ≤ writtenNestingLimit → ((∀ v ∈ wireAll ps, check depth v = .ok ()) ↔
      depth + nestingOfAll ps ≤ writtenNestingLimit)
  | [], _, hdepth => iff_of_true (fun _ hmem => nomatch hmem) hdepth
  | p :: ps, depth, hdepth => by
    rw [wireAll, List.forall_mem_cons, check_wire p depth, check_wireAll ps hdepth, nestingOfAll]
    omega

end

end FunctionParameter

theorem FunctionSignature.check_wire (signature : FunctionSignature) {depth : Nat}
    (hdepth : depth + 3 ≤ writtenNestingLimit) :
    check depth (codec.wire signature) = .ok () ↔
      ∀ p ∈ signature.parameters, depth + 2 + p.nesting ≤ writtenNestingLimit := by
  have hreturns : ∀ fragment ∈ signature.returns,
      check (depth + 2) (DeclarationFragment.codec.wire fragment) = .ok () :=
    fun fragment _ => (FunctionParameter.check_fragment fragment _).mpr (by omega)
  show check depth (.object
    (([] ++ if signature.parameters.isEmpty then [] else
        written (.same "parameters")
          (FunctionParameter.codecInSignature.listOf.wire signature.parameters))
      ++ if signature.returns.isEmpty then [] else
        written (.same "returns") (DeclarationFragment.codec.listOf.wire signature.returns))) =
      .ok () ↔ _
  rw [check_object, and_iff_right (by omega), List.nil_append, List.forall_mem_append,
    check_listField _ _ _ (by omega), check_listField _ _ _ (by omega), and_iff_left hreturns]
  exact forall₂_congr fun p _ => p.check_wire (depth + 2)

/-! ## Mixins and symbols -/

namespace Mixin

/-- The integers of a mixin of a built-in type. -/
def integers : Mixin → List Int
  | .availability m => m.items.flatMap AvailabilityItem.integers
  | .swiftGenerics m => m.parameters.flatMap GenericParameter.integers
  | .location m => m.position.integers
  | .snippet m => m.integers
  | _ => []

/-- A mixin leaves enough room for what is nested in it: a signature for its parameters, and a
mixin of another type for its payload. -/
def HasRoom (depth : Nat) : Mixin → Prop
  | .functionSignature m => ∀ p ∈ m.parameters, depth + 2 + p.nesting ≤ writtenNestingLimit
  | .extension m => check depth m.payload = .ok ()
  | _ => True

/-- A mixin may be written inside `depth` lists and objects. -/
def Writable (depth : Nat) (m : Mixin) : Prop := InRange m.integers ∧ m.HasRoom depth

theorem writable_iff_inRange (m : Mixin) {depth : Nat} (h : m.HasRoom depth) :
    m.Writable depth ↔ InRange m.integers :=
  and_iff_left h

theorem writable_iff_hasRoom (m : Mixin) (h : InRange m.integers) (depth : Nat) :
    m.Writable depth ↔ m.HasRoom depth :=
  and_iff_right h

/-- **A payload may be written** if and only if the mixin is writable. -/
theorem check_payload (m : Mixin) {depth : Nat} (hdepth : depth + 3 ≤ writtenNestingLimit) :
    check depth m.payload = .ok () ↔ m.Writable depth := by
  cases m with
  | availability m =>
    rw [writable_iff_inRange (.availability m) trivial]
    exact AvailabilityItem.writes.listOf.bare _ _ _ m depth hdepth
  | declarationFragments m =>
    rw [writable_iff_inRange (.declarationFragments m) trivial]
    have hfragments : DeclarationFragment.codec.listOf.Writes 2 fun _ => [] :=
      DeclarationFragment.writes.listOf.congr (by simp)
    exact hfragments.bare _ _ _ m depth (by omega)
  | mutability m =>
    rw [writable_iff_inRange (.mutability m) trivial]
    exact (writes_strictFlag 3).bare _ _ _ m depth hdepth
  | swiftExtension m =>
    rw [writable_iff_inRange (.swiftExtension m) trivial]
    exact SwiftExtension.writes m depth hdepth
  | swiftGenerics m =>
    rw [writable_iff_inRange (.swiftGenerics m) trivial]
    exact SwiftGenerics.writes m depth hdepth
  | location m =>
    rw [writable_iff_inRange (.location m) trivial]
    exact Location.writes m depth (by omega)
  | functionSignature m =>
    rw [writable_iff_hasRoom (.functionSignature m) inRange_nil]
    exact m.check_wire hdepth
  | spi m =>
    rw [writable_iff_inRange (.spi m) trivial]
    exact (writes_strictFlag 3).bare _ _ _ m depth hdepth
  | snippet m =>
    rw [writable_iff_inRange (.snippet m) trivial]
    exact Snippet.writes m depth hdepth
  | extension m =>
    rw [writable_iff_hasRoom (.extension m) inRange_nil]
    exact Iff.rfl

end Mixin

/-- The core fields may be written if and only if the integers of the comment may. -/
theorem Core.check_wire (core : Core) {depth : Nat} (hdepth : depth + 5 ≤ writtenNestingLimit) :
    (∀ entry ∈ core.wire, check depth entry.2 = .ok ()) ↔
      InRange (core.docComment.toList.flatMap Comment.integers) := by
  rw [← Core.writes core depth hdepth]
  exact forall_congr' fun entry => imp_congr_left core.wire_perm.mem_iff

namespace Symbol

/-- A symbol may be written with its fields inside `depth` lists and objects: the integers of its
comment and its mixins do not stand in the way, and neither does what is nested in its mixins. -/
def Writable (depth : Nat) (symbol : Symbol) : Prop :=
  InRange (symbol.docComment.toList.flatMap Comment.integers) ∧
    ∀ key m, symbol.mixins.get? key = some m → m.Writable depth

end Symbol

/-- The symbols of a document may be written: a symbol by itself stands inside its own object, and
the symbols of a list stand inside the list, too. -/
def Document.Writable : Document → Prop
  | .single symbol => symbol.Writable 1
  | .several symbols => ∀ symbol ∈ symbols, symbol.Writable 2

end SymbolRecord
