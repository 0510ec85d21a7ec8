import SymbolRecord.Proofs.Form
import SymbolRecord.Proofs.Mixin
/-!
# Codecs and forms

A codec is made of functions, and a form says in data what these functions do: what is read depends
on the canonical spelling of a value alone, and what is written is the trimmed value of all fields,
which is its own canonical spelling and has no null anywhere.  When both hold, the codec *fits* the
form.  Each way of building a codec keeps this property, so there is one law for each combinator,
and one line for each record of the format.

A value and its canonical spelling can be at fault in the same way and in different places, as a
place is told by the keys that were found.  So readings are compared without the places of issues.

* `Reading.unplaced`: a reading without the places of its issues.
* `Value.Solid`: no null occurs inside a value.
* `Form.Matches`: what is written is the trimmed value of all fields.
* `Codec.Fits`, `Fields.Fits`: a codec, or a description of fields, fits a form.
* `Fields.Fits.codec`: a record fits its form when its description has its fields.
-/

namespace SymbolRecord

/-! ## Issues without their places -/

/-- The issue, wherever it is. -/
def Issue.unplaced (issue : Issue) : Issue := { issue with place := [] }

namespace Reading

variable {α β γ : Type}

/-- The reading, wherever its issues are. -/
def unplaced : Reading α → Reading α
  | .accepted a => .accepted a
  | .rejected first others => .rejected first.unplaced (others.map Issue.unplaced)

@[simp] theorem issues_unplaced (r : Reading α) :
    r.unplaced.issues = r.issues.map Issue.unplaced := by
  cases r <;> rfl

@[simp] theorem unplaced_within (step : Step) (r : Reading α) :
    (r.within step).unplaced = r.unplaced := by
  cases r with
  | accepted => rfl
  | rejected first others =>
    have hothers : (others.map (·.within step)).map Issue.unplaced = others.map Issue.unplaced := by
      rw [List.map_map]
      rfl
    exact congrArg (rejected first.unplaced) hothers

@[simp] theorem unplaced_map (f : α → β) (r : Reading α) :
    (r.map f).unplaced = r.unplaced.map f := by
  cases r <;> rfl

@[simp] theorem unplaced_both (f : α → β → γ) (r : Reading α) (s : Reading β) :
    (both f r s).unplaced = both f r.unplaced s.unplaced := by
  cases r with
  | accepted => cases s <;> rfl
  | rejected first others =>
    show rejected first.unplaced ((others ++ s.issues).map Issue.unplaced) =
      rejected first.unplaced (others.map Issue.unplaced ++ s.unplaced.issues)
    rw [List.map_append, issues_unplaced]

@[simp] theorem unplaced_check (test : α → Reading β) (r : Reading α) :
    (r.check test).unplaced = r.unplaced.check fun a => (test a).unplaced := by
  cases r <;> rfl

theorem unplaced_eq_accepted_iff {r : Reading α} {a : α} :
    r.unplaced = .accepted a ↔ r = .accepted a := by
  cases r with
  | accepted b => exact Iff.rfl
  | rejected first others => exact iff_of_false (fun h => nomatch h) (fun h => nomatch h)

/-- Values of one type are at fault in the same way. -/
theorem unplaced_fail_congr (fault : Fault) {v w : Value} (h : v.typeName = w.typeName) :
    (fail fault v : Reading α).unplaced = (fail fault w : Reading α).unplaced := by
  rw [fail, fail, h]

end Reading

/-! ## Values without nulls -/

namespace Value

/-- No null occurs inside a value. -/
def Solid (v : Value) : Prop := ∀ u : Value, u.Within v → u.isNull = false

theorem solid_of_isLeaf {v : Value} (hv : v.isLeaf = true) (h : v.isNull = false) : v.Solid := by
  intro u hu
  rw [(within_leaf hv).mp hu]
  exact h

theorem Solid.isNull {v : Value} (h : v.Solid) : v.isNull = false := h v (.self v)

theorem solid_list {items : List Value} : (list items).Solid ↔ ∀ v ∈ items, v.Solid := by
  constructor
  · exact fun h v hv u hu => h u (within_list.mpr (.inr ⟨v, hv, hu⟩))
  · intro h u hu
    rcases within_list.mp hu with rfl | ⟨v, hv, hu⟩
    · rfl
    · exact h v hv u hu

theorem solid_object {entries : Entries Value} :
    (object entries).Solid ↔ ∀ entry ∈ entries, entry.2.Solid := by
  constructor
  · exact fun h entry hentry u hu => h u (within_object.mpr (.inr ⟨entry, hentry, hu⟩))
  · intro h u hu
    rcases within_object.mp hu with rfl | ⟨entry, hentry, hu⟩
    · rfl
    · exact h entry hentry u hu

end Value

/-! ## Reading -/

/-- A codec sees the canonical spelling of a value: what is read of the spelling is what is read of
the value. -/
def Codec.Sees {α : Type} (codec : Codec α) (form : Form) : Prop :=
  ∀ v, (codec.read (form.canonical v)).unplaced = (codec.read v).unplaced

/-- A description of fields sees the fields that are found, whatever the keys that they are found
under. -/
def Fields.Sees {ρ α : Type} (description : Fields ρ α) (fields : List FieldForm) : Prop :=
  ∀ entries entries' : Entries Value,
    (∀ field ∈ fields, field.slot.find? entries' =
      (field.slot.find? entries).map fun found => (field.slot.key, field.form.canonical found.2)) →
    (description.read entries').unplaced = (description.read entries).unplaced

namespace Codec

variable {α β : Type} {form : Form}

theorem sees_scalar (codec : Codec α) : codec.Sees .scalar := fun v => by
  rw [Form.canonical_scalar]

theorem unplaced_readItems {codec : Codec α} (h : codec.Sees form) :
    ∀ (position : Nat) (items : List Value),
      (readItems codec.read position (items.map form.canonical)).unplaced =
        (readItems codec.read position items).unplaced
  | _, [] => rfl
  | position, v :: rest => by
    rw [List.map_cons, readItems, readItems, Reading.unplaced_both, Reading.unplaced_both,
      Reading.unplaced_within, Reading.unplaced_within, h v, unplaced_readItems h]

theorem Sees.listOf {codec : Codec α} (h : codec.Sees form) : codec.listOf.Sees (.list form) := by
  intro v
  cases v with
  | list items =>
    rw [Form.canonical_list]
    exact unplaced_readItems h 0 items
  | object entries =>
    obtain ⟨entries', hcanonical⟩ := Form.exists_canonical_object (.list form) entries
    rw [hcanonical]
    rfl
  | _ => rw [Form.canonical_leaf _ rfl]

theorem unplaced_readEntries {codec : Codec α} (h : codec.Sees form) :
    ∀ entries : Entries Value,
      (readEntries codec.read (Entries.mapValues form.canonical entries)).unplaced =
        (readEntries codec.read entries).unplaced
  | [] => rfl
  | (key, v) :: rest => by
    have hcons : Entries.mapValues form.canonical ((key, v) :: rest) =
        (key, form.canonical v) :: Entries.mapValues form.canonical rest := rfl
    rw [hcons, readEntries, readEntries, Reading.unplaced_both, Reading.unplaced_both,
      Reading.unplaced_within, Reading.unplaced_within, h v, unplaced_readEntries h]

theorem Sees.tableOf {codec : Codec α} (h : codec.Sees form) :
    codec.tableOf.Sees (.table form) := by
  intro v
  cases v with
  | list items =>
    rw [Form.canonical_list]
    rfl
  | object entries =>
    rw [Form.canonical_table]
    show ((readEntries codec.read (Entries.mapValues form.canonical entries)).map _).unplaced =
      ((readEntries codec.read entries).map _).unplaced
    rw [Reading.unplaced_map, Reading.unplaced_map, unplaced_readEntries h]
  | _ => rw [Form.canonical_leaf _ rfl]

theorem Sees.optional {codec : Codec α} (h : codec.Sees form) : codec.optional.Sees form := by
  intro v
  cases hnull : v.isNull with
  | true =>
    have hv : v = .null := by
      cases v with
      | null => rfl
      | _ => nomatch hnull
    rw [hv, Form.canonical_leaf form rfl]
  | false =>
    have hcanonical : (form.canonical v).isNull = false :=
      (Form.isNull_canonical form v).trans hnull
    rw [read_optional_of_solid hcanonical, read_optional_of_solid hnull, Reading.unplaced_map,
      Reading.unplaced_map, h v]

theorem Sees.bare {field : Codec β} (h : field.Sees form) (name : String) (make : β → α)
    (get : α → β) : (Codec.bare name field make get).Sees form := by
  intro v
  show (((field.read (form.canonical v)).within _).map make).unplaced =
    (((field.read v).within _).map make).unplaced
  rw [Reading.unplaced_map, Reading.unplaced_map, Reading.unplaced_within, Reading.unplaced_within,
    h v]

theorem Sees.restricted {codec : Codec β} (h : codec.Sees form) (make : β → Except String α)
    (get : α → β) : (Codec.restricted codec make get).Sees form := by
  intro v
  simp only [Codec.restricted, Reading.unplaced_check, h v]
  congr 1
  funext b
  cases make b with
  | ok a => rfl
  | error reason => exact Reading.unplaced_fail_congr _ (Form.typeName_canonical form v)

end Codec

namespace Fields

variable {ρ α β : Type} {fields fields' : List FieldForm}

theorem sees_start (a : α) (fields : List FieldForm) : (start a : Fields ρ α).Sees fields :=
  fun _ _ _ => rfl

theorem sees_one (field : FieldForm) {codec : Codec α} (h : codec.Sees field.form)
    (default? : Option α) (get : ρ → α) : (one field.slot codec default? get).Sees [field] := by
  intro entries entries' hfields
  simp only [one, hfields field List.mem_cons_self]
  cases field.slot.find? entries with
  | some found =>
    rw [Option.map_some]
    simp only [Reading.unplaced_within]
    exact h found.2
  | none => cases default? <;> rfl

theorem Sees.and {description : Fields ρ (α → β)} {field : Fields ρ α}
    (hd : description.Sees fields) (hf : field.Sees fields') :
    (description.and field).Sees (fields ++ fields') := by
  intro entries entries' hfields
  obtain ⟨hfront, hback⟩ := List.forall_mem_append.mp hfields
  show (Reading.both _ (description.read entries') (field.read entries')).unplaced =
    (Reading.both _ (description.read entries) (field.read entries)).unplaced
  rw [Reading.unplaced_both, Reading.unplaced_both, hd entries entries' hfront,
    hf entries entries' hback]

theorem Sees.mono {description : Fields ρ α} (h : description.Sees fields)
    (hsub : ∀ field ∈ fields, field ∈ fields') : description.Sees fields' :=
  fun entries entries' hfields => h entries entries' fun field hfield =>
    hfields field (hsub field hfield)

/-- A record sees its canonical spelling when its description sees its fields. -/
theorem Sees.codec {description : Fields ρ ρ} {type : RecordType}
    (h : description.Sees type.fields) (name : String) :
    (Fields.codec name description).Sees (.record type) := by
  intro v
  cases v with
  | list items =>
    rw [Form.canonical_list]
    rfl
  | object entries =>
    rw [Form.canonical_record]
    refine h entries _ fun field hfield => ?_
    rw [find?_entriesOf type.distinct_fields hfield, Option.map_map]
    rfl
  | _ => rw [Form.canonical_leaf _ rfl]

end Fields

/-! ## Writing -/

/-- What is written for a value of all fields is the trimmed value, which is its own canonical
spelling, and has no null in it. -/
structure Form.Matches (form : Form) (v w : Value) : Prop where
  /-- It is the trimmed value. -/
  trim : form.trim v = w
  /-- It is spelled canonically. -/
  canonical : form.canonical w = w
  /-- It has no null in it. -/
  solid : w.Solid

/-- What is written for a field with a value, if anything is. -/
inductive FieldForm.Matches (field : FieldForm) (v : Value) : Option Value → Prop where
  /-- The field is written. -/
  | kept {w : Value} (h : field.form.Matches v w) (hkept : Form.leavesOut field w = false) :
    Matches field v (some w)
  /-- The field is left out. -/
  | left (h : Form.leavesOut field (field.form.trim v) = true) : Matches field v none

/-- What is written for the fields of a record, field by field. -/
inductive FieldsMatch : List FieldForm → Entries Value → Entries Value → Prop where
  | nil : FieldsMatch [] [] []
  | cons {field : FieldForm} {fields : List FieldForm} {v : Value} {w? : Option Value}
    {vs ws : Entries Value} (hfield : field.Matches v w?) (hrest : FieldsMatch fields vs ws) :
    FieldsMatch (field :: fields) ((field.slot.name, v) :: vs)
      ((w?.map fun w => (field.slot.key, w)).toList ++ ws)

namespace Form

variable {form : Form}

theorem matches_scalar {v : Value} (h : v.Solid) : Form.scalar.Matches v v :=
  ⟨trim_scalar v, canonical_scalar v, h⟩

theorem Matches.isNull {v w : Value} (h : form.Matches v w) : w.isNull = false := h.solid.isNull

theorem matches_list {α : Type} {f g : α → Value} {as : List α}
    (h : ∀ a ∈ as, form.Matches (f a) (g a)) :
    (Form.list form).Matches (.list (as.map f)) (.list (as.map g)) where
  trim := by
    rw [trim_list, List.map_map]
    exact congrArg Value.list (List.map_congr_left fun a ha => (h a ha).trim)
  canonical := by
    rw [canonical_list, List.map_map]
    exact congrArg Value.list (List.map_congr_left fun a ha => (h a ha).canonical)
  solid := by
    refine Value.solid_list.mpr fun w hw => ?_
    obtain ⟨a, ha, rfl⟩ := List.mem_map.mp hw
    exact (h a ha).solid

/-- A table is written in ascending order of its keys. -/
theorem matches_table {α : Type} {f g : α → Value} (h : ∀ a, form.Matches (f a) (g a))
    (entries : Entries α) :
    (Form.table form).Matches (.object (Entries.mapValues f entries))
      (.object (Entries.mapValues g (Entries.sorted entries))) where
  trim := by
    rw [trim_table, Entries.sorted_mapValues, Entries.sorted_mapValues, Entries.mapValues,
      Entries.mapValues, List.map_map]
    refine congrArg Value.object (List.map_congr_left fun entry _ => ?_)
    exact congrArg (Prod.mk entry.1) (h entry.2).trim
  canonical := by
    rw [canonical_table, Entries.mapValues, Entries.mapValues, List.map_map]
    refine congrArg Value.object (List.map_congr_left fun entry _ => ?_)
    exact congrArg (Prod.mk entry.1) (h entry.2).canonical
  solid := by
    refine Value.solid_object.mpr fun entry hentry => ?_
    obtain ⟨entry, -, rfl⟩ := List.mem_map.mp hentry
    exact (h entry.2).solid

end Form

namespace FieldForm.Matches

variable {field : FieldForm} {v : Value} {w? : Option Value}

theorem filter_trim (h : field.Matches v w?) :
    (some (field.form.trim v)).filter (fun w => !Form.leavesOut field w) = w? := by
  cases h with
  | kept h hkept => rw [h.trim, Option.filter_some, hkept]; rfl
  | left h => rw [Option.filter_some, h]; rfl

theorem map_canonical (h : field.Matches v w?) : w?.map field.form.canonical = w? := by
  cases h with
  | kept h _ => exact congrArg some h.canonical
  | left _ => rfl

end FieldForm.Matches

namespace FieldsMatch

variable {fields fields' : List FieldForm} {vs ws vs' ws' : Entries Value}

theorem append (h : FieldsMatch fields vs ws) (h' : FieldsMatch fields' vs' ws') :
    FieldsMatch (fields ++ fields') (vs ++ vs') (ws ++ ws') := by
  induction h with
  | nil => exact h'
  | cons hfield _ ih =>
    rw [List.append_assoc]
    exact .cons hfield ih

theorem one {field : FieldForm} {v : Value} {w? : Option Value} (h : field.Matches v w?) :
    FieldsMatch [field] [(field.slot.name, v)]
      (w?.map fun w => (field.slot.key, w)).toList := by
  have hone := cons h .nil
  rwa [List.append_nil] at hone

/-- Whatever is written is written for a field. -/
theorem exists_of_mem (h : FieldsMatch fields vs ws) {entry : String × Value}
    (hentry : entry ∈ ws) :
    ∃ field ∈ fields, entry.1 = field.slot.key ∧ ∃ v, field.form.Matches v entry.2 := by
  induction h with
  | nil => nomatch hentry
  | @cons first fields v w? vs ws hfirst _ ih =>
    rcases List.mem_append.mp hentry with hhead | hrest
    · obtain ⟨w, rfl, rfl⟩ := Option.map_eq_some_iff.mp (Option.mem_toList.mp hhead)
      cases hfirst with
      | kept hform _ => exact ⟨first, List.mem_cons_self, rfl, v, hform⟩
    · obtain ⟨field, hfield, hmatches⟩ := ih hrest
      exact ⟨field, List.mem_cons_of_mem _ hfield, hmatches⟩

/-- What is written is written for fields that differ in their keys, so it can be told by field. -/
theorem exists_value (h : FieldsMatch fields vs ws) (hdistinct : DistinctFields fields) :
    ∃ value? : FieldForm → Option Value, ws = entriesOf fields value? ∧
      ∀ field ∈ fields, ∃ v, Entries.get? vs field.slot.name = some v ∧
        field.Matches v (value? field) := by
  induction h with
  | nil => exact ⟨fun _ => none, rfl, fun _ hmem => absurd hmem List.not_mem_nil⟩
  | @cons first fields v w? vs ws hfirst hrest ih =>
    obtain ⟨hothers, hdistinct⟩ := List.pairwise_cons.mp hdistinct
    obtain ⟨value?, hws, hvalue⟩ := ih hdistinct
    -- The fields behind the first one have other keys and other names.
    have hkey : ∀ field ∈ fields, field.slot.key ≠ first.slot.key := fun field hfield heq =>
      hothers field hfield field.slot.key (by simp [Slot.keys, heq]) (by simp [Slot.keys])
    have hname : ∀ field ∈ fields, first.slot.name ≠ field.slot.name := fun field hfield heq =>
      hothers field hfield first.slot.name (by simp [Slot.keys]) (by simp [Slot.keys, heq])
    refine ⟨fun field => if field.slot.key = first.slot.key then w? else value? field, ?_, ?_⟩
    · rw [entriesOf_cons, if_pos rfl, hws]
      refine congrArg _ (entriesOf_congr fun field hfield => ?_)
      rw [if_neg (hkey field hfield)]
    · intro field hfield
      rcases List.mem_cons.mp hfield with rfl | hmem
      · refine ⟨v, if_pos rfl, ?_⟩
        show field.Matches v (if field.slot.key = field.slot.key then w? else value? field)
        rwa [if_pos rfl]
      · obtain ⟨u, hu, hmatches⟩ := hvalue field hmem
        refine ⟨u, ?_, ?_⟩
        · rw [Entries.get?_cons, if_neg (hname field hmem), hu]
        · show field.Matches u (if field.slot.key = first.slot.key then w? else value? field)
          rwa [if_neg (hkey field hmem)]

/-- **What is written for a record** is the trimmed record when each field is written as its form
says.  The fields may stand in another order in the value of all fields. -/
theorem record (type : RecordType) (h : FieldsMatch type.fields vs ws)
    (hvs : ∀ field ∈ type.fields,
      Entries.get? vs' field.slot.name = Entries.get? vs field.slot.name) :
    (Form.record type).Matches (.object vs') (.object ws) := by
  obtain ⟨value?, hws, hvalue⟩ := h.exists_value type.distinct_fields
  refine ⟨?_, ?_, ?_⟩
  · rw [Form.trim_record, hws]
    refine congrArg Value.object (entriesOf_congr fun field hfield => ?_)
    obtain ⟨v, hv, hmatches⟩ := hvalue field hfield
    rw [hvs field hfield, hv]
    exact hmatches.filter_trim
  · rw [Form.canonical_record, hws]
    refine congrArg Value.object (entriesOf_congr fun field hfield => ?_)
    obtain ⟨v, -, hmatches⟩ := hvalue field hfield
    rw [find?_entriesOf type.distinct_fields hfield, Option.map_map]
    exact hmatches.map_canonical
  · refine Value.solid_object.mpr fun entry hentry => ?_
    obtain ⟨field, -, -, v, hform⟩ := h.exists_of_mem hentry
    exact hform.solid

end FieldsMatch

/-! ## Codecs that fit their forms -/

/-- A codec fits a form: it reads what the canonical spelling says, and writes what all fields
say. -/
structure Codec.Fits {α : Type} (codec : Codec α) (form : Form) : Prop where
  /-- The canonical spelling is read as the value is. -/
  sees : codec.Sees form
  /-- All fields are written, trimmed. -/
  writes : ∀ a, form.Matches (codec.fields a) (codec.wire a)

/-- A description of fields fits the forms of fields. -/
structure Fields.Fits {ρ α : Type} (description : Fields ρ α) (fields : List FieldForm) :
    Prop where
  /-- The fields are read by what is found. -/
  sees : description.Sees fields
  /-- The fields are written, unless they are left out. -/
  writes : ∀ r, FieldsMatch fields (description.fields r) (description.wire r)

namespace Codec

variable {α β : Type} {form : Form}

/-- A codec that writes leaves without nulls, and the same in both ways, fits a scalar. -/
theorem fits_scalar {read : Value → Reading α} {write : α → Value}
    (hleaf : ∀ a, (write a).isLeaf = true) (hsolid : ∀ a, (write a).isNull = false) :
    (scalar read write).Fits .scalar where
  sees := sees_scalar _
  writes a := Form.matches_scalar (Value.solid_of_isLeaf (hleaf a) (hsolid a))

theorem fits_text : text.Fits .scalar := fits_scalar (fun _ => rfl) fun _ => rfl

theorem fits_integer : integer.Fits .scalar := fits_scalar (fun _ => rfl) fun _ => rfl

theorem fits_flag : flag.Fits .scalar := fits_scalar (fun _ => rfl) fun _ => rfl

theorem fits_strictFlag : strictFlag.Fits .scalar := fits_scalar (fun _ => rfl) fun _ => rfl

theorem fits_choice (all : List α) (name : α → String) : (choice all name).Fits .scalar :=
  fits_scalar (fun _ => rfl) fun _ => rfl

theorem Fits.listOf {codec : Codec α} (h : codec.Fits form) : codec.listOf.Fits (.list form) where
  sees := h.sees.listOf
  writes _ := Form.matches_list fun a _ => h.writes a

theorem Fits.restricted {codec : Codec β} (h : codec.Fits form) (make : β → Except String α)
    (get : α → β) : (Codec.restricted codec make get).Fits form where
  sees := h.sees.restricted make get
  writes a := h.writes (get a)

end Codec

namespace Fields

variable {ρ α β : Type} {fields fields' : List FieldForm} {slot : Slot} {form : Form}

theorem matches_written {v w : Value} (slot : Slot) (h : form.Matches v w) :
    FieldsMatch [.kept slot form] [(slot.name, v)] (written slot w) := by
  rw [written_of_solid slot h.isNull]
  have hkept : Form.leavesOut (.kept slot form) w = false := by
    rw [Form.leavesOut, h.isNull]
    rfl
  exact FieldsMatch.one (.kept h hkept)

theorem matches_absent (slot : Slot) (form : Form) :
    FieldsMatch [.kept slot form] [(slot.name, .null)] (written slot .null) := by
  have hleft : Form.leavesOut (.kept slot form) (form.trim .null) = true := by
    rw [Form.trim_leaf form rfl]
    rfl
  exact FieldsMatch.one (FieldForm.Matches.left hleft)

theorem matches_optional {codec : Codec α} (slot : Slot) (a? : Option α)
    (h : ∀ a, a? = some a → form.Matches (codec.fields a) (codec.wire a)) :
    FieldsMatch [.kept slot form] [(slot.name, codec.optional.fields a?)]
      (written slot (codec.optional.wire a?)) := by
  cases a? with
  | none => exact matches_absent slot form
  | some a => exact matches_written slot (h a rfl)

/-- A list that is left out when it is empty. -/
theorem matches_thinList (name : String) {f g : α → Value} (h : ∀ a, form.Matches (f a) (g a))
    (as : List α) :
    FieldsMatch [.thin name (.list form)] [(name, .list (as.map f))]
      (if as.isEmpty then [] else written (.same name) (.list (as.map g))) := by
  cases as with
  | nil =>
    have hleft : Form.leavesOut (.thin name (.list form)) ((Form.list form).trim (.list [])) =
        true := by
      rw [Form.trim_list]
      rfl
    exact FieldsMatch.one (FieldForm.Matches.left hleft)
  | cons a as =>
    exact FieldsMatch.one (.kept (Form.matches_list fun a _ => h a) rfl)

/-- A table that is left out when it is empty. -/
theorem matches_thinTable (name : String) {f g : α → Value} (h : ∀ a, form.Matches (f a) (g a))
    (entries : Entries α) :
    FieldsMatch [.thin name (.table form)] [(name, .object (Entries.mapValues f entries))]
      (if entries.isEmpty then []
        else [(name, .object (Entries.mapValues g (Entries.sorted entries)))]) := by
  cases entries with
  | nil =>
    have hleft : Form.leavesOut (.thin name (.table form))
        ((Form.table form).trim (.object (Entries.mapValues f []))) = true := by
      rw [Form.trim_table]
      rfl
    exact FieldsMatch.one (FieldForm.Matches.left hleft)
  | cons entry rest =>
    have hkept : Form.leavesOut (.thin name (.table form))
        (.object (Entries.mapValues g (Entries.sorted (entry :: rest)))) = false := by
      have hlength := (Entries.sorted_perm (entry :: rest)).length_eq
      cases hsorted : Entries.sorted (entry :: rest) with
      | nil =>
        rw [hsorted] at hlength
        exact absurd hlength (by simp)
      | cons => rfl
    exact FieldsMatch.one (.kept (Form.matches_table h (entry :: rest)) hkept)

theorem fits_start (a : α) : (start a : Fields ρ α).Fits [] where
  sees := sees_start a []
  writes _ := .nil

theorem Fits.and {description : Fields ρ (α → β)} {field : Fields ρ α}
    (hd : description.Fits fields) (hf : field.Fits fields') :
    (description.and field).Fits (fields ++ fields') where
  sees := hd.sees.and hf.sees
  writes r := (hd.writes r).append (hf.writes r)

section Behind

variable {description : Fields ρ (α → β)} {codec : Codec α}

theorem Fits.required (hd : description.Fits fields) (h : codec.Fits form) {get : ρ → α} :
    (description.required slot codec get).Fits (fields ++ [.kept slot form]) :=
  hd.and ⟨sees_one (.kept slot form) h.sees none get,
    fun r => matches_written slot (h.writes (get r))⟩

theorem Fits.defaulted (hd : description.Fits fields) (h : codec.Fits form) {a : α}
    {get : ρ → α} : (description.defaulted slot codec a get).Fits (fields ++ [.kept slot form]) :=
  hd.and ⟨sees_one (.kept slot form) h.sees (some a) get,
    fun r => matches_written slot (h.writes (get r))⟩

end Behind

theorem Fits.optional {description : Fields ρ (Option α → β)} {codec : Codec α}
    (hd : description.Fits fields) (h : codec.Fits form) {get : ρ → Option α} :
    (description.optional slot codec get).Fits (fields ++ [.kept slot form]) :=
  hd.and ⟨sees_one (.kept slot form) h.sees.optional (some none) get,
    fun r => matches_optional slot (get r) fun a _ => h.writes a⟩

theorem Fits.list {description : Fields ρ (List α → β)} {codec : Codec α} {name : String}
    (hd : description.Fits fields) (h : codec.Fits form) {get : ρ → List α} :
    (description.list (.same name) codec get).Fits (fields ++ [.thin name (.list form)]) :=
  hd.and ⟨sees_one (.thin name (.list form)) h.sees.listOf (some []) get,
    fun r => matches_thinList name h.writes (get r)⟩

/-- **A record fits its form** when its description has its fields, in the same order. -/
theorem Fits.codec {description : Fields ρ ρ} {type : RecordType}
    (h : description.Fits type.fields) (name : String) :
    (Fields.codec name description).Fits (.record type) where
  sees := h.sees.codec name
  writes r := (h.writes r).record type fun _ _ => rfl

end Fields

/-! ## The records of the format -/

open Fields

theorem Identifier.fits : codec.Fits (.record .identifier) :=
  (fits_start mk |>.required Codec.fits_text |>.optional Codec.fits_text).codec "Identifier"

theorem KindIdentifier.fits : codec.Fits .scalar :=
  Codec.fits_scalar (fun _ => rfl) fun _ => rfl

theorem Kind.fits : codec.Fits (.record .kind) :=
  (fits_start mk |>.required KindIdentifier.fits |>.defaulted Codec.fits_text).codec "Kind"

theorem DeclarationFragment.fits : codec.Fits (.record .fragment) :=
  (fits_start mk
    |>.required Codec.fits_text
    |>.required Codec.fits_text
    |>.optional Codec.fits_text).codec "DeclarationFragment"

theorem Names.fits : codec.Fits (.record .names) :=
  (fits_start mk
    |>.required Codec.fits_text
    |>.optional DeclarationFragment.fits.listOf
    |>.optional DeclarationFragment.fits.listOf
    |>.optional Codec.fits_text).codec "Names"

theorem Position.fits : codec.Fits (.record .position) :=
  (fits_start mk |>.required Codec.fits_integer |>.required Codec.fits_integer).codec "Position"

theorem SourceRange.fits : codec.Fits (.record .range) :=
  (fits_start mk |>.required Position.fits |>.required Position.fits).codec "SourceRange"

theorem Line.fits : codec.Fits (.record .line) :=
  (fits_start mk |>.required Codec.fits_text |>.optional SourceRange.fits).codec "Line"

theorem Comment.fits : codec.Fits (.record .comment) :=
  (fits_start mk
    |>.defaulted Line.fits.listOf
    |>.optional Codec.fits_text
    |>.optional Codec.fits_text).codec "LineList"

theorem SemanticVersion.fits : codec.Fits (.record .version) :=
  (fits_start mk
    |>.required Codec.fits_integer
    |>.optional Codec.fits_integer
    |>.optional Codec.fits_integer).codec "SemanticVersion"

theorem AvailabilityItem.fits : codec.Fits (.record .availabilityItem) :=
  (fits_start mk
    |>.optional Codec.fits_text
    |>.optional SemanticVersion.fits
    |>.optional SemanticVersion.fits
    |>.optional SemanticVersion.fits
    |>.optional Codec.fits_text
    |>.optional Codec.fits_text
    |>.optional Codec.fits_flag
    |>.optional Codec.fits_flag
    |>.optional Codec.fits_flag).codec "AvailabilityItem"

theorem GenericConstraint.fits : codec.Fits (.record .constraint) :=
  (fits_start mk
    |>.required (Codec.fits_choice ConstraintKind.all ConstraintKind.word)
    |>.required Codec.fits_text
    |>.required Codec.fits_text).codec "GenericConstraint"

theorem GenericParameter.fits : codec.Fits (.record .genericParameter) :=
  (fits_start mk
    |>.required Codec.fits_text
    |>.required Codec.fits_integer
    |>.required Codec.fits_integer).codec "GenericParameter"

theorem SwiftExtension.fits : codec.Fits (.record .swiftExtension) :=
  (fits_start mk
    |>.required Codec.fits_text
    |>.optional Codec.fits_text
    |>.list GenericConstraint.fits).codec "SwiftExtension"

theorem SwiftGenerics.fits : codec.Fits (.record .swiftGenerics) :=
  (fits_start mk |>.list GenericParameter.fits |>.list GenericConstraint.fits).codec
    "SwiftGenerics"

theorem Location.fits : codec.Fits (.record .location) :=
  (fits_start mk |>.required Codec.fits_text |>.required Position.fits).codec "Location"

namespace FunctionParameter

theorem fieldsOfAll_eq_map (ps : List FunctionParameter) : fieldsOfAll ps = ps.map fields := by
  induction ps with
  | nil => rfl
  | cons p ps ih => rw [fieldsOfAll, ih, List.map_cons]

mutual

/-- What is written for a parameter, by induction on its tree. -/
theorem matches_wire : ∀ p : FunctionParameter, (Form.record .parameter).Matches p.fields p.wire
  | ⟨name, internalName, fragments, children⟩ => by
    have hname := matches_written (.same "name") (Codec.fits_text.writes name)
    have hinternal := matches_optional internalNameSlot internalName fun a _ =>
      Codec.fits_text.writes a
    have hfragments := matches_optional fragmentsSlot fragments fun as _ =>
      DeclarationFragment.fits.listOf.writes as
    have htext : Value.ofText? internalName = Codec.text.optional.fields internalName := by
      cases internalName <;> rfl
    rw [fields, wire, htext]
    exact (((hname.append hinternal).append hfragments).append
      (matches_wireChildren children)).record .parameter fun _ _ => rfl

theorem matches_wireChildren : ∀ children : Option (List FunctionParameter),
    FieldsMatch [.kept (.same "children") (.list (.record .parameter))]
      [("children", fieldsOfChildren children)]
      (written (.same "children") (wireChildren children))
  | none => matches_absent (.same "children") (.list (.record .parameter))
  | some ps => by
    have hlist := Form.matches_list (matches_of_mem ps)
    rw [← fieldsOfAll_eq_map, ← wireAll_eq_map] at hlist
    exact matches_written (.same "children") hlist

theorem matches_of_mem : ∀ (ps : List FunctionParameter), ∀ p ∈ ps,
    (Form.record .parameter).Matches p.fields p.wire
  | [], _, hmem => nomatch hmem
  | p :: ps, q, hmem => by
    rcases List.mem_cons.mp hmem with heq | hrest
    · rw [heq]
      exact matches_wire p
    · exact matches_of_mem ps q hrest

end

theorem fits_description {child : Codec FunctionParameter} (h : child.Fits (.record .parameter)) :
    ((description child).codec "FunctionParameter").Fits (.record .parameter) := by
  unfold description
  exact (fits_start FunctionParameter.mk
    |>.required Codec.fits_text
    |>.optional Codec.fits_text
    |>.optional DeclarationFragment.fits.listOf
    |>.optional h.listOf).codec "FunctionParameter"

/-- Parameters fit their form up to every limit, since a tree that is too high is refused for what
it is, and not for how it is spelled. -/
theorem fits_codecWithin : ∀ limit : Nat, (codecWithin limit).Fits (.record .parameter)
  | 0 => ⟨fun v => Reading.unplaced_fail_congr .depth (Form.typeName_canonical _ v), matches_wire⟩
  | limit + 1 => ⟨(fits_description (fits_codecWithin limit)).sees, matches_wire⟩

end FunctionParameter

theorem FunctionSignature.fits : codec.Fits (.record .signature) :=
  (fits_start mk
    |>.list (FunctionParameter.fits_codecWithin _)
    |>.list DeclarationFragment.fits).codec "FunctionSignature"

theorem SliceRange.fits : codec.Fits (.record .slice) :=
  ((fits_start Prod.mk
    |>.required Codec.fits_integer
    |>.required Codec.fits_integer).codec "SliceRange").restricted _ _

namespace Snippet

/-- A snippet is read in another order than it is written in. -/
theorem sees_description : description.Sees (RecordType.fields .snippet) := by
  have hhead : head.Fits [.kept languageSlot .scalar, .kept linesSlot (.list .scalar)] :=
    fits_start mk |>.optional Codec.fits_text |>.required Codec.fits_text.listOf
  have hslices : slicesField.Sees [.thin "slices" (.table (.record .slice))] :=
    sees_one (.thin "slices" (.table (.record .slice))) SliceRange.fits.sees.tableOf _ _
  exact (hhead.sees.and hslices).mono fun field => (List.Perm.swap _ _ _).mem_iff.mp

theorem fits : codec.Fits (.record .snippet) where
  sees := sees_description.codec "Snippet"
  writes snippet := by
    have hlines := matches_written linesSlot (Codec.fits_text.listOf.writes snippet.lines)
    have hlanguage := matches_optional languageSlot snippet.language fun a _ =>
      Codec.fits_text.writes a
    have hslices := matches_thinTable "slices" SliceRange.fits.writes snippet.slices.entries
    refine ((hlines.append hlanguage).append hslices).record .snippet fun field hfield => ?_
    have hfields : field = .kept linesSlot (.list .scalar) ∨ field = .kept languageSlot .scalar ∨
        field = .thin "slices" (.table (.record .slice)) := by
      simpa [RecordType.fields] using hfield
    rcases hfields with rfl | rfl | rfl <;> rfl

end Snippet

/-! ## Core fields -/

namespace Core

/-- The core fields in the order in which they are written. -/
def forms : List FieldForm :=
  [.kept (.same "identifier") (.record .identifier), .kept (.same "kind") (.record .kind),
    .kept (.same "pathComponents") (.list .scalar), .kept (.same "names") (.record .names),
    .kept (.same "accessLevel") .scalar, .kept (.same "type") .scalar,
    .kept (.same "docComment") (.record .comment)]

/-- What stands in the core fields, with absent values as nulls. -/
def content (core : Core) : Entries Value :=
  [("identifier", Identifier.codec.fields core.identifier), ("kind", Kind.codec.fields core.kind),
    ("pathComponents", Codec.text.listOf.fields core.pathComponents),
    ("names", Names.codec.fields core.names), ("accessLevel", .text core.accessLevel),
    ("type", Codec.text.optional.fields core.type),
    ("docComment", Comment.codec.optional.fields core.docComment)]

theorem distinct_forms : DistinctFields forms := by decide

theorem form_eq_ofKey : ∀ field ∈ forms, field.form = Form.ofKey field.slot.key := by decide

/-- **The core fields are written** as their forms say. -/
theorem matches_wire (core : Core) : FieldsMatch forms core.content core.wire := by
  have hidentifier := matches_written (.same "identifier")
    (Identifier.fits.writes core.identifier)
  have hkind := matches_written (.same "kind") (Kind.fits.writes core.kind)
  have hpath := matches_written (.same "pathComponents")
    (Codec.fits_text.listOf.writes core.pathComponents)
  have hnames := matches_written (.same "names") (Names.fits.writes core.names)
  have haccess := matches_written (.same "accessLevel") (Codec.fits_text.writes core.accessLevel)
  have htype := matches_optional (.same "type") core.type fun a _ => Codec.fits_text.writes a
  have hcomment := matches_optional (.same "docComment") core.docComment fun a _ =>
    Comment.fits.writes a
  exact (((((hidentifier.append hkind).append hpath).append hnames).append haccess).append
    htype).append hcomment

end Core

/-! ## Mixins -/

namespace Mixin

/-- What the payload of a mixin shows: the value of its only field if the payload is nothing but
that, and all fields otherwise. -/
def content : Mixin → Value
  | .availability m => AvailabilityItem.codec.listOf.fields m.items
  | .declarationFragments m => DeclarationFragment.codec.listOf.fields m.fragments
  | .mutability m => .bool m.isReadOnly
  | .spi m => .bool m.isSpi
  | m => m.fields

/-- **The payload of a mixin of a built-in type** is its content, trimmed in the form that belongs
to the key of the type. -/
theorem matches_payload {m : Mixin} (hbuiltin : m.builtinType?.isSome) {key : String}
    (hkey : m.key? = some key) : (Form.ofKey key).Matches m.content m.payload := by
  cases m with
  | availability m =>
    obtain rfl := Option.some_inj.mp hkey
    exact AvailabilityItem.fits.listOf.writes m.items
  | declarationFragments m =>
    obtain rfl := Option.some_inj.mp hkey
    exact DeclarationFragment.fits.listOf.writes m.fragments
  | mutability m =>
    obtain rfl := Option.some_inj.mp hkey
    exact Codec.fits_strictFlag.writes m.isReadOnly
  | swiftExtension m =>
    obtain rfl := Option.some_inj.mp hkey
    exact SwiftExtension.fits.writes m
  | swiftGenerics m =>
    obtain rfl := Option.some_inj.mp hkey
    exact SwiftGenerics.fits.writes m
  | location m =>
    obtain rfl := Option.some_inj.mp hkey
    exact Location.fits.writes m
  | functionSignature m =>
    obtain rfl := Option.some_inj.mp hkey
    exact FunctionSignature.fits.writes m
  | spi m =>
    obtain rfl := Option.some_inj.mp hkey
    exact Codec.fits_strictFlag.writes m.isSpi
  | snippet m =>
    obtain rfl := Option.some_inj.mp hkey
    exact Snippet.fits.writes m
  | extension => nomatch hbuiltin

end Mixin

end SymbolRecord
