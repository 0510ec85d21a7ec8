import Mathlib.Data.List.Basic
import SymbolRecord.Mixin.Basic
import SymbolRecord.Proofs.Codec
/-!
# The form of a value

The records of the format are read and written by many codecs, and what a codec reads can only be
seen from the codec.  For statements about all records at once, their shape is put down here as
data: which fields a record has, under which key and by which name of its own each field goes, and
what stands in it.  A record that contains others of its own type, as a parameter does, refers to
its type by name.

A form can be followed through a value, and two things are done on the way.  The *canonical
spelling* of a value has every field under its key, and no key that is none of a field.  The
*trimmed* value is made from one in which every field stands under its own name, present or absent:
it has the fields under their keys, without those that are absent or left out when empty.

* `RecordType`, `RecordType.fields`, `Form`, `Form.ofKey`: the records of the format.
* `Form.canonical`, `Form.canonical_record`: the canonical spelling.
* `Form.trim`, `Form.trim_record`: the trimmed value.
* `RecordType.distinct_fields`: no key or name of a field is that of another field.
-/

namespace SymbolRecord

/-- The records that stand within the record of a symbol. -/
inductive RecordType where
  | identifier | kind | names | fragment | comment | line | range | position | version
  | availabilityItem | constraint | genericParameter | swiftExtension | swiftGenerics | location
  | parameter | signature | slice | snippet
  deriving DecidableEq

/-- What a value is made of. -/
inductive Form where
  /-- It has no parts that matter. -/
  | scalar
  /-- Items of one form. -/
  | list (item : Form)
  /-- Values of one form under any keys. -/
  | table (item : Form)
  /-- The fields of a record. -/
  | record (type : RecordType)
  deriving DecidableEq

/-- A field of a record. -/
structure FieldForm where
  /-- The key of the field, and its own name. -/
  slot : Slot
  /-- What stands in it. -/
  form : Form
  /-- Whether the field is left out when it is empty. -/
  sparse : Bool

namespace FieldForm

/-- A field that is written even if it is empty. -/
def kept (slot : Slot) (form : Form) : FieldForm := ⟨slot, form, false⟩

/-- A field that is left out when it is empty. -/
def thin (name : String) (form : Form) : FieldForm := ⟨.same name, form, true⟩

end FieldForm

namespace RecordType

open FieldForm

/-- The fields of a record, in the order in which they are written. -/
def fields : RecordType → List FieldForm
  | .identifier =>
    [kept (.same "precise") .scalar, kept ⟨"interfaceLanguage", "interface_language"⟩ .scalar]
  | .kind => [kept (.same "identifier") .scalar, kept ⟨"displayName", "display_name"⟩ .scalar]
  | .names =>
    [kept (.same "title") .scalar, kept (.same "navigator") (.list (.record .fragment)),
      kept ⟨"subHeading", "sub_heading"⟩ (.list (.record .fragment)), kept (.same "prose") .scalar]
  | .fragment =>
    [kept (.same "kind") .scalar, kept (.same "spelling") .scalar,
      kept ⟨"preciseIdentifier", "precise_identifier"⟩ .scalar]
  | .comment =>
    [kept (.same "lines") (.list (.record .line)), kept (.same "uri") .scalar,
      kept ⟨"module", "module_name"⟩ .scalar]
  | .line => [kept (.same "text") .scalar, kept (.same "range") (.record .range)]
  | .range => [kept (.same "start") (.record .position), kept (.same "end") (.record .position)]
  | .position => [kept (.same "line") .scalar, kept (.same "character") .scalar]
  | .version =>
    [kept (.same "major") .scalar, kept (.same "minor") .scalar, kept (.same "patch") .scalar]
  | .availabilityItem =>
    [kept (.same "domain") .scalar, kept (.same "introduced") (.record .version),
      kept (.same "deprecated") (.record .version), kept (.same "obsoleted") (.record .version),
      kept (.same "message") .scalar, kept (.same "renamed") .scalar,
      kept ⟨"isUnconditionallyDeprecated", "is_unconditionally_deprecated"⟩ .scalar,
      kept ⟨"isUnconditionallyUnavailable", "is_unconditionally_unavailable"⟩ .scalar,
      kept ⟨"willEventuallyBeDeprecated", "will_eventually_be_deprecated"⟩ .scalar]
  | .constraint =>
    [kept (.same "kind") .scalar, kept (.same "lhs") .scalar, kept (.same "rhs") .scalar]
  | .genericParameter =>
    [kept (.same "name") .scalar, kept (.same "index") .scalar, kept (.same "depth") .scalar]
  | .swiftExtension =>
    [kept ⟨"extendedModule", "extended_module"⟩ .scalar, kept ⟨"typeKind", "type_kind"⟩ .scalar,
      thin "constraints" (.list (.record .constraint))]
  | .swiftGenerics =>
    [thin "parameters" (.list (.record .genericParameter)),
      thin "constraints" (.list (.record .constraint))]
  | .location => [kept (.same "uri") .scalar, kept (.same "position") (.record .position)]
  | .parameter =>
    [kept (.same "name") .scalar, kept FunctionParameter.internalNameSlot .scalar,
      kept FunctionParameter.fragmentsSlot (.list (.record .fragment)),
      kept (.same "children") (.list (.record .parameter))]
  | .signature =>
    [thin "parameters" (.list (.record .parameter)), thin "returns" (.list (.record .fragment))]
  | .slice => [kept (.same "start") .scalar, kept (.same "end") .scalar]
  | .snippet =>
    [kept Snippet.linesSlot (.list .scalar), kept Snippet.languageSlot .scalar,
      thin "slices" (.table (.record .slice))]

end RecordType

namespace Form

/-- The forms of what the record of a symbol has under its keys. -/
def byKey : Entries Form :=
  [("identifier", .record .identifier), ("kind", .record .kind), ("pathComponents", .list .scalar),
    ("names", .record .names), ("docComment", .record .comment),
    ("availability", .list (.record .availabilityItem)),
    ("declarationFragments", .list (.record .fragment)),
    ("swiftExtension", .record .swiftExtension), ("swiftGenerics", .record .swiftGenerics),
    ("location", .record .location), ("functionSignature", .record .signature),
    ("snippet", .record .snippet)]

/-- The form of what the record of a symbol has under a key. -/
def ofKey (key : String) : Form := (Entries.get? byKey key).getD .scalar

end Form

/-! ## Fields by their keys -/

/-- No key or name of a field is that of another one. -/
def DistinctFields (fields : List FieldForm) : Prop :=
  fields.Pairwise fun a b => ∀ key ∈ a.slot.keys, key ∉ b.slot.keys

instance (fields : List FieldForm) : Decidable (DistinctFields fields) :=
  inferInstanceAs (Decidable
    (fields.Pairwise fun a b => ∀ key ∈ a.slot.keys, key ∉ b.slot.keys))

theorem RecordType.distinct_fields (type : RecordType) : DistinctFields type.fields := by
  cases type <;> decide

/-- The field that goes by a key. -/
def fieldAt? (fields : List FieldForm) (key : String) : Option FieldForm :=
  fields.find? fun field => key ∈ field.slot.keys

section Distinct

variable {fields : List FieldForm} {field : FieldForm}

theorem fieldAt?_of_mem (hdistinct : DistinctFields fields) (hfield : field ∈ fields)
    {key : String} (hkey : key ∈ field.slot.keys) : fieldAt? fields key = some field := by
  induction fields with
  | nil => exact absurd hfield List.not_mem_nil
  | cons first rest ih =>
    obtain ⟨hfirst, hrest⟩ := List.pairwise_cons.mp hdistinct
    rcases List.mem_cons.mp hfield with rfl | hmem
    · exact List.find?_cons_of_pos (by simpa using hkey)
    · have hother : key ∉ first.slot.keys := fun h => hfirst field hmem key h hkey
      have hskip := List.find?_cons_of_neg (l := rest)
        (p := fun field : FieldForm => decide (key ∈ field.slot.keys)) (by simpa using hother)
      exact hskip.trans (ih hrest hmem)

/-- The entries of fields that have a value, under their keys. -/
def entriesOf (fields : List FieldForm) (value? : FieldForm → Option Value) : Entries Value :=
  fields.filterMap fun field => (value? field).map fun v => (field.slot.key, v)

variable {value? : FieldForm → Option Value}

theorem entriesOf_congr {value?' : FieldForm → Option Value}
    (h : ∀ field ∈ fields, value? field = value?' field) :
    entriesOf fields value? = entriesOf fields value?' :=
  List.filterMap_congr fun field hfield => by rw [h field hfield]

theorem mem_keys_entriesOf {key : String} (h : key ∈ Entries.keys (entriesOf fields value?)) :
    ∃ field ∈ fields, field.slot.key = key := by
  obtain ⟨v, hmem⟩ := Entries.mem_keys.mp h
  obtain ⟨field, hfield, hentry⟩ := List.mem_filterMap.mp hmem
  obtain ⟨w, -, heq⟩ := Option.map_eq_some_iff.mp hentry
  exact ⟨field, hfield, congrArg Prod.fst heq⟩

theorem entriesOf_cons (field : FieldForm) (fields : List FieldForm)
    (value? : FieldForm → Option Value) :
    entriesOf (field :: fields) value? =
      ((value? field).map fun v => (field.slot.key, v)).toList ++ entriesOf fields value? := by
  rw [entriesOf, List.filterMap_cons]
  cases value? field <;> rfl

theorem get?_entriesOf (hdistinct : DistinctFields fields) (hfield : field ∈ fields) :
    Entries.get? (entriesOf fields value?) field.slot.key = value? field := by
  induction fields with
  | nil => exact absurd hfield List.not_mem_nil
  | cons first rest ih =>
    obtain ⟨hfirst, hrest⟩ := List.pairwise_cons.mp hdistinct
    rw [entriesOf_cons, Entries.get?_append]
    rcases List.mem_cons.mp hfield with rfl | hmem
    · have hnone : Entries.get? (entriesOf rest value?) field.slot.key = none := by
        rw [Entries.get?_eq_none_iff]
        intro hkey
        obtain ⟨other, hother, heq⟩ := mem_keys_entriesOf hkey
        exact hfirst other hother field.slot.key (by simp [Slot.keys]) (by simp [Slot.keys, heq])
      rw [hnone, Option.or_none]
      cases value? field with
      | none => rfl
      | some v => exact if_pos rfl
    · have hne : first.slot.key ≠ field.slot.key := by
        intro heq
        exact hfirst field hmem first.slot.key (by simp [Slot.keys]) (by simp [Slot.keys, heq])
      rw [← ih hrest hmem]
      cases value? first with
      | none => rfl
      | some v =>
        have hskip : Entries.get? [(first.slot.key, v)] field.slot.key = none := if_neg hne
        exact (congrArg (Option.or · _) hskip).trans Option.none_or

/-- What is sought among such entries is found under the key of its field. -/
theorem find?_entriesOf (hdistinct : DistinctFields fields) (hfield : field ∈ fields) :
    field.slot.find? (entriesOf fields value?) =
      (value? field).map fun v => (field.slot.key, v) := by
  rw [Slot.find?, get?_entriesOf hdistinct hfield]
  cases hvalue : value? field with
  | some v => rfl
  | none =>
    have hname : Entries.get? (entriesOf fields value?) field.slot.name = none := by
      by_cases hsame : field.slot.name = field.slot.key
      · rw [hsame, get?_entriesOf hdistinct hfield, hvalue]
      · rw [Entries.get?_eq_none_iff]
        intro hkey
        -- The name would be the key of a field, and so of this one.
        obtain ⟨other, hother, heq⟩ := mem_keys_entriesOf hkey
        have hself : fieldAt? fields field.slot.name = some field :=
          fieldAt?_of_mem hdistinct hfield (by simp [Slot.keys])
        have hthat : fieldAt? fields field.slot.name = some other :=
          fieldAt?_of_mem hdistinct hother (by simp [Slot.keys, heq])
        obtain rfl := Option.some_inj.mp (hself.symm.trans hthat)
        exact hsame heq.symm
    rw [hname]
    rfl

end Distinct

/-! ## Following a form -/

namespace Form

/-- The form of the items of a list. -/
def item : Form → Form
  | .list item => item
  | _ => .scalar

/-- The form of what stands under a key of an object. -/
def member : Form → String → Form
  | .table item, _ => item
  | .record type, key => ((fieldAt? type.fields key).map FieldForm.form).getD .scalar
  | _, _ => .scalar

section Reshape

variable (arrange : Form → Entries Value → Entries Value)

mutual

/-- Follows a form through a value; objects are arranged when their values are done. -/
def reshape : Form → Value → Value
  | form, .list items => .list (reshapeItems form.item items)
  | form, .object entries => .object (arrange form (reshapeEntries form entries))
  | _, v => v

/-- Follows a form through each item of a list. -/
def reshapeItems : Form → List Value → List Value
  | _, [] => []
  | form, v :: rest => reshape form v :: reshapeItems form rest

/-- Follows a form through each value of an object. -/
def reshapeEntries : Form → List (String × Value) → List (String × Value)
  | _, [] => []
  | form, (key, v) :: rest => (key, reshape (form.member key) v) :: reshapeEntries form rest

end

variable {arrange}

theorem reshape_leaf (form : Form) {v : Value} (hv : v.isLeaf = true) :
    reshape arrange form v = v := by
  cases v with
  | list => exact absurd hv (by simp [Value.isLeaf])
  | object => exact absurd hv (by simp [Value.isLeaf])
  | _ => simp only [reshape]

theorem reshape_list (form : Form) (items : List Value) :
    reshape arrange form (.list items) = .list (items.map (reshape arrange form.item)) := by
  have hitems : ∀ vs, reshapeItems arrange form.item vs = vs.map (reshape arrange form.item) := by
    intro vs
    induction vs with
    | nil => simp only [reshapeItems, List.map_nil]
    | cons v vs ih => simp only [reshapeItems, ih, List.map_cons]
  rw [reshape, hitems]

theorem reshape_object (form : Form) (entries : Entries Value) :
    reshape arrange form (.object entries) =
      .object (arrange form
        (entries.map fun entry => (entry.1, reshape arrange (form.member entry.1) entry.2))) := by
  have hentries : ∀ es : Entries Value, reshapeEntries arrange form es =
      es.map fun entry => (entry.1, reshape arrange (form.member entry.1) entry.2) := by
    intro es
    induction es with
    | nil => simp only [reshapeEntries, List.map_nil]
    | cons entry es ih =>
      obtain ⟨key, v⟩ := entry
      simp only [reshapeEntries, ih, List.map_cons]
  rw [reshape, hentries]

/-- An object stays an object. -/
theorem exists_reshape_object (form : Form) (entries : Entries Value) :
    ∃ entries', reshape arrange form (.object entries) = .object entries' :=
  ⟨_, reshape_object form entries⟩

theorem typeName_reshape (form : Form) (v : Value) :
    (reshape arrange form v).typeName = v.typeName := by
  cases v with
  | list items => rw [reshape_list]; rfl
  | object entries => rw [reshape_object]; rfl
  | _ => rw [reshape_leaf form rfl]

theorem isNull_reshape (form : Form) (v : Value) :
    (reshape arrange form v).isNull = v.isNull := by
  cases v with
  | list items => rw [reshape_list]; rfl
  | object entries => rw [reshape_object]; rfl
  | _ => rw [reshape_leaf form rfl]

/-- Where nothing has parts, nothing changes. -/
theorem reshape_scalar (harrange : ∀ entries, arrange .scalar entries = entries) (v : Value) :
    reshape arrange .scalar v = v := by
  induction v using Value.ind with
  | leaf v hv => exact reshape_leaf .scalar hv
  | list items ih =>
    have hitems : items.map (reshape arrange .scalar) = items.map id :=
      List.map_congr_left fun v hv => ih v hv
    rw [reshape_list, show Form.scalar.item = .scalar from rfl, hitems, List.map_id]
  | object entries ih =>
    have hentries : (entries.map fun entry =>
        (entry.1, reshape arrange (Form.scalar.member entry.1) entry.2)) = entries.map id :=
      List.map_congr_left fun entry hentry => by
        rw [show Form.scalar.member entry.1 = .scalar from rfl, ih entry hentry]
        rfl
    rw [reshape_object, hentries, List.map_id, harrange]

/-- Looking up a key, and then following its form. -/
theorem get?_reshaped (form : Form) (entries : Entries Value) (key : String) :
    Entries.get? (entries.map fun entry =>
        (entry.1, reshape arrange (form.member entry.1) entry.2)) key =
      (Entries.get? entries key).map (reshape arrange (form.member key)) := by
  induction entries with
  | nil => rfl
  | cons entry entries ih =>
    rw [List.map_cons, Entries.get?_cons, ih, Entries.get?]
    split
    · next heq => rw [heq]; rfl
    · rfl

end Reshape

theorem member_record (type : RecordType) {field : FieldForm} (hfield : field ∈ type.fields)
    (key : String) (hkey : key ∈ field.slot.keys) :
    (Form.record type).member key = field.form := by
  rw [member, fieldAt?_of_mem type.distinct_fields hfield hkey]
  rfl

/-! ## The canonical spelling -/

/-- Every field of a record under its key: what is found under the key if there is such a key, and
else what is found under the name.  Other keys are left out. -/
def select : Form → Entries Value → Entries Value
  | .record type, entries =>
    entriesOf type.fields fun field => (field.slot.find? entries).map Prod.snd
  | _, entries => entries

/-- The canonical spelling of a value: all records in it have their fields under their keys only. -/
def canonical : Form → Value → Value := reshape select

theorem canonical_leaf (form : Form) {v : Value} (hv : v.isLeaf = true) : form.canonical v = v :=
  reshape_leaf form hv

theorem canonical_scalar (v : Value) : Form.scalar.canonical v = v :=
  reshape_scalar (fun _ => rfl) v

theorem canonical_list (form : Form) (items : List Value) :
    form.canonical (.list items) = .list (items.map form.item.canonical) :=
  reshape_list form items

theorem canonical_table (item : Form) (entries : Entries Value) :
    (Form.table item).canonical (.object entries) =
      .object (Entries.mapValues item.canonical entries) :=
  reshape_object (.table item) entries

/-- **A record in its canonical spelling** has each field that is found in it, under its key and
itself in its canonical spelling, and nothing else. -/
theorem canonical_record (type : RecordType) (entries : Entries Value) :
    (Form.record type).canonical (.object entries) =
      .object (entriesOf type.fields fun field =>
        (field.slot.find? entries).map fun found => field.form.canonical found.2) := by
  refine (reshape_object _ entries).trans (congrArg Value.object (entriesOf_congr ?_))
  intro field hfield
  have hkey := member_record type hfield field.slot.key (by simp [Slot.keys])
  have hname := member_record type hfield field.slot.name (by simp [Slot.keys])
  rw [Slot.find?, get?_reshaped, get?_reshaped, hkey, hname, Slot.find?]
  cases Entries.get? entries field.slot.key with
  | some v => rfl
  | none => cases Entries.get? entries field.slot.name <;> rfl

/-- A name in place of a key, and a key that is none of a field. -/
example :
    (Form.record .kind).canonical (.object
      [("display_name", .text "F"), ("identifier", .text "func"), ("note", .null)]) =
      .object [("identifier", .text "func"), ("displayName", .text "F")] := by
  decide +kernel

theorem exists_canonical_object (form : Form) (entries : Entries Value) :
    ∃ entries', form.canonical (.object entries) = .object entries' :=
  exists_reshape_object form entries

theorem typeName_canonical (form : Form) (v : Value) :
    (form.canonical v).typeName = v.typeName :=
  typeName_reshape form v

theorem isNull_canonical (form : Form) (v : Value) : (form.canonical v).isNull = v.isNull :=
  isNull_reshape form v

/-! ## Trimming -/

/-- Whether a value is a list or an object with nothing in it. -/
def isHollow : Value → Bool
  | .list [] => true
  | .object [] => true
  | _ => false

/-- Whether a field with a value is left out: an absent one is, and an empty one if the field is not
written when it is empty. -/
def leavesOut (field : FieldForm) (v : Value) : Bool := v.isNull || (field.sparse && isHollow v)

/-- The fields of a record, which stand under their names, under their keys instead, without those
that are left out; and the values of a table in ascending order of their keys. -/
def prune : Form → Entries Value → Entries Value
  | .record type, entries =>
    entriesOf type.fields fun field =>
      (Entries.get? entries field.slot.name).filter fun v => !leavesOut field v
  | .table _, entries => Entries.sorted entries
  | _, entries => entries

/-- The trimmed value: all records in it have their fields under their keys, without those that are
left out. -/
def trim : Form → Value → Value := reshape prune

theorem trim_leaf (form : Form) {v : Value} (hv : v.isLeaf = true) : form.trim v = v :=
  reshape_leaf form hv

theorem isNull_trim (form : Form) (v : Value) : (form.trim v).isNull = v.isNull :=
  isNull_reshape form v

theorem trim_scalar (v : Value) : Form.scalar.trim v = v := reshape_scalar (fun _ => rfl) v

theorem trim_list (form : Form) (items : List Value) :
    form.trim (.list items) = .list (items.map form.item.trim) :=
  reshape_list form items

theorem trim_table (item : Form) (entries : Entries Value) :
    (Form.table item).trim (.object entries) =
      .object (Entries.sorted (Entries.mapValues item.trim entries)) :=
  reshape_object (.table item) entries

/-- **A trimmed record** has each field that stands in it under its name, under its key instead and
itself trimmed, unless it is left out. -/
theorem trim_record (type : RecordType) (entries : Entries Value) :
    (Form.record type).trim (.object entries) =
      .object (entriesOf type.fields fun field =>
        ((Entries.get? entries field.slot.name).map field.form.trim).filter fun v =>
          !leavesOut field v) := by
  refine (reshape_object _ entries).trans (congrArg Value.object (entriesOf_congr ?_))
  intro field hfield
  have hname := member_record type hfield field.slot.name (by simp [Slot.keys])
  rw [get?_reshaped, hname]
  rfl

/-- An absent value is left out, an empty text is not, and an empty list is if its field is. -/
example :
    (Form.record .swiftExtension).trim (.object
      [("extended_module", .text ""), ("type_kind", .null), ("constraints", .list [])]) =
      .object [("extendedModule", .text "")] := by
  decide +kernel

end Form

end SymbolRecord
