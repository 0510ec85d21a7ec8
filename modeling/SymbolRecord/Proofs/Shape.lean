import SymbolRecord.Proofs.Dispatch
import SymbolRecord.Proofs.Fitting
/-!
# The shape of an encoded symbol

The object of a symbol has the core fields that are present, and behind them one value for each
mixin that is written.  Mixins are written into the object that holds the core fields already, and
under keys that callers choose.  Still none of them changes a core field or the payload of another
one, since the keys of the core fields are never written to, and no key is written twice.

Absent values are left out wherever they are, and empty ones are not, except for six fields of
mixins.  The codecs of nested records and those of mixins leave values out in ways of their own.
Trimming the value of all fields does the same in one go, so what is written is described by it.

* `RecordType.thinFields`, `RecordType.sparse_iff`: the fields that are left out when they are
  empty.
* `Symbol.writtenKeys`, `Symbol.keys_appended`: the mixins that are written.
* `Symbol.Shape`: the keys of an encoded symbol, and what each value depends on.
* `Symbol.Slim`: what is left out, and what is not.
* `Symbol.exists_shape_of_encode`: every symbol is encoded in this shape.
-/

namespace SymbolRecord

/-! ## Fields that are left out when they are empty -/

namespace RecordType

/-- The fields that are left out when they are empty, by their records and their keys. -/
def thinFields : List (RecordType × String) :=
  [(.swiftExtension, "constraints"), (.swiftGenerics, "parameters"),
    (.swiftGenerics, "constraints"), (.signature, "parameters"), (.signature, "returns"),
    (.snippet, "slices")]

theorem sparse_iff (type : RecordType) :
    ∀ field ∈ type.fields, field.sparse = true ↔ (type, field.slot.key) ∈ thinFields := by
  cases type <;> decide

end RecordType

/-- The types of the records that a value of a form is made of. -/
def Form.types : Form → List RecordType
  | .scalar => []
  | .list item => item.types
  | .table item => item.types
  | .record type => [type]

/-- A record with such a field is never a part of another record. -/
theorem RecordType.sparse_of_types (type : RecordType) :
    ∀ field ∈ type.fields, ∀ inner ∈ field.form.types, ∀ part ∈ inner.fields,
      part.sparse = false := by
  cases type <;> decide

/-! ## Keys -/

/-- The keys of the core fields that are present. -/
def Core.presentKeys (core : Core) : List String :=
  requiredKeys ++ (if core.type.isSome then ["type"] else [])
    ++ (if core.docComment.isSome then ["docComment"] else [])

theorem Core.keys_wire (core : Core) : Entries.keys core.wire = core.presentKeys := by
  have htype : Entries.keys (Fields.written (.same "type") (Codec.text.optional.wire core.type)) =
      if core.type.isSome then ["type"] else [] := by
    cases core.type <;> rfl
  have hcomment : Entries.keys
      (Fields.written (.same "docComment") (Comment.codec.optional.wire core.docComment)) =
        if core.docComment.isSome then ["docComment"] else [] := by
    cases core.docComment <;> rfl
  rw [wire, Entries.keys_append, Entries.keys_append, htype, hcomment]
  rfl

namespace Symbol

variable {registry : Registry}

/-- The keys of the mixins that are written, in ascending order: those that have an encoder and do
not stand in the place of a core field. -/
def writtenKeys (registry : Registry) (mixins : Table Mixin) : List String :=
  mixins.entries.sortedKeys.filter fun key =>
    !Core.isKey key && (registry.encoder? key).isSome

/-- What is written under a key is the payload of the mixin that stands under it. -/
theorem written?_eq (registry : Registry) (mixins : Table Mixin) (key : String) :
    written? registry mixins key =
      if !Core.isKey key && (registry.encoder? key).isSome then
        (mixins.get? key).map Mixin.payload
      else none := by
  rw [written?, mixinEncoder?]
  cases Core.isKey key with
  | true => rfl
  | false => cases registry.encoder? key <;> rfl

theorem keys_appended (registry : Registry) (mixins : Table Mixin) :
    Entries.keys (appended registry mixins) = writtenKeys registry mixins := by
  rw [appended, Entries.keys_filterMap, writtenKeys]
  refine List.filter_congr fun key hkey => ?_
  have hsome : (mixins.get? key).isSome = true :=
    Entries.isSome_get?_iff.mpr ((Entries.mem_sortedKeys _ key).mp hkey)
  rw [written?_eq]
  cases (!Core.isKey key && (registry.encoder? key).isSome) with
  | false => rfl
  | true => rw [if_pos rfl, Option.isSome_map, hsome]

theorem written?_of_mem {mixins : Table Mixin} {key : String} {m : Mixin}
    (hkey : key ∈ writtenKeys registry mixins) (hm : mixins.get? key = some m) :
    written? registry mixins key = some m.payload := by
  rw [written?_eq, if_pos (List.mem_filter.mp hkey).2, hm]
  rfl

/-! ## The shape -/

/-- The shape of the object of a symbol. -/
structure Shape (registry : Registry) (symbol : Symbol) (container : Entries Value) : Prop where
  /-- The keys are those of the core fields that are present, and of the mixins that are written. -/
  keys : Entries.keys container = symbol.presentKeys ++ writtenKeys registry symbol.mixins
  /-- The core fields are those of the symbol without mixins. -/
  core : ∃ bare, (encode registry { symbol with mixins := .empty }).outcome = .ok bare ∧
    ∀ key, Core.isKey key = true → Entries.get? container key = Entries.get? bare key
  /-- What stands under the key of a mixin is the payload of that mixin. -/
  mixin : ∀ key ∈ writtenKeys registry symbol.mixins, ∀ m, symbol.mixins.get? key = some m →
    Entries.get? container key = some m.payload

/-- No mixin is written in the place of a core field. -/
theorem get?_core (registry : Registry) (symbol : Symbol) {key : String}
    (hkey : Core.isKey key = true) :
    Entries.get? (symbol.toCore.wire ++ appended registry symbol.mixins) key =
      Entries.get? symbol.toCore.wire key := by
  have hnone : Entries.get? (appended registry symbol.mixins) key = none := by
    rw [Entries.get?_eq_none_iff, keys_appended]
    intro hmem
    have hwritten := (List.mem_filter.mp hmem).2
    rw [hkey] at hwritten
    nomatch hwritten
  rw [Entries.get?_append, hnone, Option.or_none]

theorem get?_mixin {symbol : Symbol} {key : String} {m : Mixin}
    (hkey : key ∈ writtenKeys registry symbol.mixins) (hm : symbol.mixins.get? key = some m) :
    Entries.get? (symbol.toCore.wire ++ appended registry symbol.mixins) key = some m.payload := by
  have hwritten := written?_of_mem hkey hm
  have hcore : Core.isKey key = false := isKey_of_written? (by rw [hwritten]; rfl)
  have hmem : (key, m.payload) ∈ appended registry symbol.mixins :=
    List.mem_filterMap.mpr ⟨key, (List.mem_filter.mp hkey).1, by rw [hwritten]; rfl⟩
  have hnodup : (Entries.keys (appended registry symbol.mixins)).Nodup := by
    rw [keys_appended]
    exact (Entries.nodup_sortedKeys _).filter _
  rw [Entries.get?_append, symbol.get?_wire_of_not_isKey hcore, Option.none_or]
  exact (Entries.get?_eq_some_iff hnodup).mpr hmem

theorem shape_of_encode (h : registry.Standard) (symbol : Symbol) :
    symbol.Shape registry (symbol.toCore.wire ++ appended registry symbol.mixins) where
  keys := by rw [Entries.keys_append, Core.keys_wire, keys_appended]
  core := ⟨_, outcome_encode h.writesPlainly, fun _ hkey =>
    (get?_core registry symbol hkey).trans
      (get?_core registry { symbol with mixins := .empty } hkey).symm⟩
  mixin _ hkey _ hm := get?_mixin hkey hm

/-! ## What is left out -/

/-- What stands in the object of a symbol is what stands in the symbol, without what is left out. -/
structure Slim (registry : Registry) (symbol : Symbol) (container : Entries Value) : Prop where
  /-- No null is left anywhere. -/
  solid : (Value.object container).Solid
  /-- Each core field is trimmed, and left out if it is absent. -/
  core : ∀ key v, Entries.get? symbol.toCore.content key = some v →
    Entries.get? container key = if v.isNull then none else some ((Form.ofKey key).trim v)
  /-- Each mixin is trimmed in the form of its type. -/
  mixin : ∀ key ∈ writtenKeys registry symbol.mixins, ∀ m, symbol.mixins.get? key = some m →
    ∃ own, m.key? = some own ∧
      Entries.get? container key = some ((Form.ofKey own).trim m.content)

theorem exists_form_of_content {core : Core} {key : String} {v : Value}
    (hv : Entries.get? core.content key = some v) :
    ∃ field ∈ Core.forms, field.slot.key = key := by
  have hkeys : Entries.keys core.content = Core.forms.map fun field => field.slot.key := rfl
  refine List.mem_map.mp ?_
  rw [← hkeys, ← Entries.isSome_get?_iff, hv]
  rfl

theorem get?_wire_of_content (core : Core) {key : String} {v : Value}
    (hv : Entries.get? core.content key = some v) :
    Entries.get? core.wire key = if v.isNull then none else some ((Form.ofKey key).trim v) := by
  obtain ⟨value?, hwire, hvalue⟩ := core.matches_wire.exists_value Core.distinct_forms
  obtain ⟨field, hfield, rfl⟩ := exists_form_of_content hv
  obtain ⟨u, hu, hmatches⟩ := hvalue field hfield
  obtain ⟨hname, hsparse⟩ : field.slot.name = field.slot.key ∧ field.sparse = false :=
    (by decide : ∀ field ∈ Core.forms, field.slot.name = field.slot.key ∧ field.sparse = false)
      field hfield
  rw [hname, hv] at hu
  obtain rfl := Option.some_inj.mp hu
  rw [hwire, get?_entriesOf Core.distinct_forms hfield, ← hmatches.filter_trim, Option.filter_some,
    Form.leavesOut, Form.isNull_trim, hsparse, ← Core.form_eq_ofKey field hfield]
  cases v.isNull <;> rfl

/-- The types that are built in have keys. -/
theorem exists_key_of_builtin {m : Mixin} (h : m.builtinType?.isSome) :
    ∃ own, m.key? = some own := by
  cases m with
  | extension => nomatch h
  | _ => exact ⟨_, rfl⟩

theorem solid_of_written? {mixins : Table Mixin}
    (hbuiltin : ∀ key m, mixins.get? key = some m → m.builtinType?.isSome) {key : String}
    {v : Value} (hwritten : written? registry mixins key = some v) : v.Solid := by
  obtain ⟨encoder, -, hpayload⟩ := Option.bind_eq_some_iff.mp hwritten
  obtain ⟨m, hm, rfl⟩ := Option.map_eq_some_iff.mp hpayload
  obtain ⟨own, hown⟩ := exists_key_of_builtin (hbuiltin key m hm)
  exact (Mixin.matches_payload (hbuiltin key m hm) hown).solid

theorem slim_of_encode (registry : Registry) {symbol : Symbol}
    (hbuiltin : ∀ key m, symbol.mixins.get? key = some m → m.builtinType?.isSome) :
    symbol.Slim registry (symbol.toCore.wire ++ appended registry symbol.mixins) where
  solid := by
    refine Value.solid_object.mpr fun entry hentry => ?_
    rcases List.mem_append.mp hentry with hcore | hmixin
    · obtain ⟨field, -, -, v, hmatches⟩ := symbol.matches_wire.exists_of_mem hcore
      exact hmatches.solid
    · obtain ⟨key, -, hsome⟩ := List.mem_filterMap.mp hmixin
      obtain ⟨v, hwritten, rfl⟩ := Option.map_eq_some_iff.mp hsome
      exact solid_of_written? hbuiltin hwritten
  core key v hv := by
    obtain ⟨field, hfield, rfl⟩ := exists_form_of_content hv
    have hcore : Core.isKey field.slot.key = true :=
      (by decide : ∀ field ∈ Core.forms, Core.isKey field.slot.key = true) field hfield
    rw [get?_core registry symbol hcore, get?_wire_of_content symbol.toCore hv]
  mixin key hkey m hm := by
    obtain ⟨own, hown⟩ := exists_key_of_builtin (hbuiltin key m hm)
    refine ⟨own, hown, ?_⟩
    rw [get?_mixin hkey hm, (Mixin.matches_payload (hbuiltin key m hm) hown).trim]

/-- **Every symbol is encoded in one shape**, whatever the keys of its mixins are.  With mixins of
built-in types alone, what is written is what stands in the symbol, without nulls and without the
empty values of six fields, which are those of a payload itself and never of a record inside it. -/
theorem exists_shape_of_encode (registry : Registry) (hregistry : registry.Standard)
    (symbol : Symbol) :
    ∃ container, (symbol.encode registry).outcome = .ok container ∧
      symbol.Shape registry container ∧
      ((∀ key m, symbol.mixins.get? key = some m → m.builtinType?.isSome) →
        symbol.Slim registry container) ∧
      ∀ type : RecordType, ∀ field ∈ type.fields,
        (field.sparse = true ↔ (type, field.slot.key) ∈ RecordType.thinFields) ∧
        ∀ inner ∈ field.form.types, ∀ part ∈ inner.fields, part.sparse = false := by
  have hencode := @outcome_encode registry symbol hregistry.writesPlainly
  refine ⟨_, hencode, shape_of_encode hregistry symbol, fun hbuiltin => ?_, ?_⟩
  · exact slim_of_encode registry hbuiltin
  · intro type field hfield
    exact ⟨type.sparse_iff field hfield, type.sparse_of_types field hfield⟩

/-- A symbol with a mixin in the place of a core field, with one that is not written, and with empty
texts and lists. -/
def crowded : Symbol where
  identifier := ⟨"", none⟩
  kind := ⟨⟨"func"⟩, ""⟩
  pathComponents := []
  type := none
  names := ⟨"", some [], none, none⟩
  docComment := some ⟨[], some "", none⟩
  accessLevel := ""
  mixins := ⟨[("swiftExtension", .swiftExtension ⟨"", none, []⟩), ("spare", .spi ⟨true⟩),
    ("names", .mutability ⟨true⟩), ("draft", .spi ⟨false⟩),
    ("functionSignature", .functionSignature ⟨[⟨"", none, some [], none⟩], []⟩)], by decide⟩

/-- Its names stay, the empty constraints and returns are left out, and everything else that is
empty is kept. -/
theorem shape_of_crowded :
    ∃ container, (crowded.encode notes).outcome = .ok container ∧
      Entries.keys container = ["identifier", "kind", "pathComponents", "names", "accessLevel",
        "docComment", "draft", "functionSignature", "swiftExtension"] ∧
      (Value.object container).Solid ∧
      Entries.get? container "names" =
        some (.object [("title", .text ""), ("navigator", .list [])]) ∧
      Entries.get? container "functionSignature" = some (.object [("parameters",
        .list [.object [("name", .text ""), ("declarationFragments", .list [])]])]) ∧
      Entries.get? container "swiftExtension" = some (.object [("extendedModule", .text "")]) := by
  obtain ⟨container, houtcome, hshape, hslim, -⟩ :=
    exists_shape_of_encode notes standard_notes crowded
  have hbuiltin : ∀ key m, crowded.mixins.get? key = some m → m.builtinType?.isSome := by
    intro key m hm
    have hall : ∀ entry ∈ crowded.mixins.entries, entry.2.builtinType?.isSome := by
      decide
    exact hall _ (Entries.mem_of_get?_eq_some hm)
  refine ⟨container, houtcome, hshape.keys.trans (by decide +kernel), (hslim hbuiltin).solid, ?_,
    ?_, ?_⟩
  · exact ((hslim hbuiltin).core "names" _ rfl).trans (by decide +kernel)
  · exact (hshape.mixin "functionSignature" (by decide +kernel) _ rfl).trans (by decide +kernel)
  · exact (hshape.mixin "swiftExtension" (by decide +kernel) _ rfl).trans (by decide +kernel)

end Symbol

end SymbolRecord
