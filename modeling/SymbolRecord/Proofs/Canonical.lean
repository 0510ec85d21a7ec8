import SymbolRecord.Proofs.Dispatch
import SymbolRecord.Proofs.Fitting
/-!
# Records in canonical spelling

The fields of nested records may go by their keys or by their own names, and there may be other keys
beside them.  In the canonical spelling of a record every nested field goes by its key, and nothing
else is there.  Decoding sees a record through its canonical spelling: it comes to the same symbol,
or fails for the same reason at the same field or key.  Only the places of issues inside a refused
payload differ, as they name the keys that were found.  What encoding yields is canonical already.

The keys of the record itself are left as they are: core fields are sought under their keys only,
and every other key is read by a type of its own, or not at all.

* `Symbol.canonicalRecord`: the canonical spelling of a record.
* `Failure.unplaced`: a failure without the places of issues.
* `MixinType.sees_of_builtin`: the built-in types see their payloads through the canonical spelling.
* `Symbol.outcome_decode_canonicalRecord`: decoding does.
* `Symbol.canonicalRecord_of_encode`: encoding spells canonically.
-/

namespace SymbolRecord

/-! ## Failures without the places of issues -/

/-- The report, wherever its issues are. -/
def Report.unplaced (report : Report) : Report :=
  ⟨report.model, report.first.unplaced, report.others.map Issue.unplaced⟩

/-- The error, wherever the issues of a payload are. -/
def DecodeError.unplaced : DecodeError → DecodeError
  | .payload key report => .payload key report.unplaced
  | error => error

/-- The failure, wherever the issues of a payload are. -/
def Failure.unplaced : Failure → Failure
  | .decode error => .decode error.unplaced
  | failure => failure

/-- What is read of a payload, wherever its issues are. -/
def Intake.unplaced : Intake → Intake
  | .refused report => .refused report.unplaced
  | intake => intake

theorem Report.count_unplaced (report : Report) : report.unplaced.count = report.count := by
  rw [count, unplaced, List.length_map]
  rfl

@[simp] theorem DecodeError.key?_unplaced (error : DecodeError) :
    error.unplaced.key? = error.key? := by
  cases error <;> rfl

/-- A failure without places is that of a record when the failure itself is. -/
theorem Failure.exists_of_unplaced_eq {failure : Failure} {error : DecodeError}
    (h : failure.unplaced = (Failure.decode error).unplaced) :
    ∃ error', failure = .decode error' ∧ error'.unplaced = error.unplaced := by
  cases failure with
  | decode error' => exact ⟨error', rfl, Failure.decode.inj h⟩
  | _ => nomatch h

namespace Reading

variable {α : Type}

theorem fault?_unplaced (r : Reading α) : r.unplaced.fault? = r.fault? := by
  cases r <;> rfl

variable {r s : Reading α}

/-- Readings that agree up to the places of issues have the same first fault. -/
theorem fault?_congr (h : r.unplaced = s.unplaced) : r.fault? = s.fault? := by
  rw [← r.fault?_unplaced, h, s.fault?_unplaced]

/-- Readings that agree up to the places of issues accept the same. -/
theorem accepted_congr (h : r.unplaced = s.unplaced) {a : α} :
    r = .accepted a ↔ s = .accepted a := by
  rw [← unplaced_eq_accepted_iff, h, unplaced_eq_accepted_iff]

end Reading

/-! ## Outcomes up to a change of errors -/

section Outcomes

variable {ε ε' α β : Type} {g : ε → ε'} {x y : Except ε α}

theorem mapError_eq_ok_iff {a : α} : x.mapError g = .ok a ↔ x = .ok a := by
  cases x with
  | error e => exact iff_of_false (fun h => nomatch h) (fun h => nomatch h)
  | ok b => exact ⟨fun h => congrArg Except.ok (Except.ok.inj h), fun h => congrArg _ h⟩

/-- Runs of two steps agree when their steps do. -/
theorem mapError_bind_congr {f f' : α → Except ε β} (hx : x.mapError g = y.mapError g)
    (hf : ∀ a, (f a).mapError g = (f' a).mapError g) :
    (x.bind f).mapError g = (y.bind f').mapError g := by
  cases x with
  | error e =>
    cases y with
    | error e' => exact congrArg Except.error (Except.error.inj hx)
    | ok b => nomatch hx
  | ok a =>
    cases y with
    | error e' => nomatch hx
    | ok b =>
      obtain rfl := Except.ok.inj hx
      exact hf a

theorem mapError_map_congr (f : α → β) (hx : x.mapError g = y.mapError g) :
    (x.map f).mapError g = (y.map f).mapError g := by
  have hmap : ∀ z : Except ε α, z.map f = z.bind fun a => .ok (f a) := fun z => by
    cases z <;> rfl
  rw [hmap, hmap]
  exact mapError_bind_congr hx fun _ => rfl

end Outcomes

/-! ## Mixin types -/

namespace MixinType

variable {α : Type} {form : Form}

/-- A type sees the canonical spelling of a payload: it makes the same of both. -/
def Sees (type : MixinType) (form : Form) : Prop :=
  ∀ v, (type.read (form.canonical v)).unplaced = (type.read v).unplaced

theorem sees_scalar (type : MixinType) : type.Sees .scalar := fun v => by
  rw [Form.canonical_scalar]

theorem sees_ofCodec {codec : Codec α} (h : codec.Sees form) (tag : TypeTag) (wrap : α → Mixin) :
    (ofCodec tag codec wrap).Sees form := by
  intro v
  have hread := h v
  simp only [ofCodec]
  cases hcanonical : codec.read (form.canonical v) with
  | accepted a =>
    rw [hcanonical] at hread
    rw [Reading.unplaced_eq_accepted_iff.mp hread.symm]
  | rejected first others =>
    rw [hcanonical] at hread
    cases hvalue : codec.read v with
    | accepted a =>
      rw [hvalue] at hread
      exact absurd hread (by simp [Reading.unplaced])
    | rejected first' others' =>
      rw [hvalue] at hread
      obtain ⟨hfirst, hothers⟩ := Reading.rejected.inj hread
      show Intake.refused ⟨tag.name, first.unplaced, others.map Issue.unplaced⟩ = _
      rw [hfirst, hothers]
      rfl

theorem Sees.lenient {type : MixinType} (h : type.Sees form) : type.lenient.Sees form := by
  intro v
  have hread : ∀ w, (type.lenient.read w).unplaced =
      match (type.read w).unplaced with
      | .refused report => .dropped report.count
      | intake => intake := by
    intro w
    simp only [MixinType.lenient]
    cases type.read w with
    | refused report => exact congrArg Intake.dropped report.count_unplaced.symm
    | _ => rfl
  rw [hread, hread, h v]

/-- **The built-in types see their payloads** through the canonical spelling of the form that
belongs to their key. -/
theorem sees_of_builtin {type : MixinType} (htype : type ∈ builtin) {key : String}
    (hkey : type.key? = some key) : type.Sees (Form.ofKey key) := by
  simp only [builtin, List.mem_cons, List.not_mem_nil, or_false] at htype
  rcases htype with rfl | rfl | rfl | rfl | rfl | rfl | rfl | rfl | rfl <;>
    obtain rfl := Option.some_inj.mp hkey
  · exact sees_ofCodec (AvailabilityItem.fits.sees.listOf.bare _ _ _) _ _
  · exact sees_ofCodec (DeclarationFragment.fits.sees.listOf.bare _ _ _) _ _
  · exact sees_scalar _
  · exact sees_ofCodec SwiftExtension.fits.sees _ _
  · exact sees_ofCodec SwiftGenerics.fits.sees _ _
  · exact (sees_ofCodec Location.fits.sees _ _).lenient
  · exact sees_ofCodec FunctionSignature.fits.sees _ _
  · exact sees_scalar _
  · exact sees_ofCodec Snippet.fits.sees _ _

end MixinType

/-- What stands under keys that are neither core keys nor built in has no form of its own. -/
theorem Form.ofKey_eq_scalar {key : String} (hcore : Core.isKey key = false)
    (hbuiltin : Registry.builtins.get? key = none) : ofKey key = .scalar := by
  have hkeys : ∀ key ∈ Entries.keys byKey,
      Core.isKey key = true ∨ (Registry.builtins.get? key).isSome = true := by decide
  have hnone : Entries.get? byKey key = none := by
    rw [Entries.get?_eq_none_iff]
    intro hmem
    rcases hkeys key hmem with h | h
    · rw [hcore] at h
      nomatch h
    · rw [hbuiltin] at h
      nomatch h
  rw [ofKey, hnone]
  rfl

/-- A key beside those of the core fields is read by a type that sees what stands under it. -/
theorem Registry.Standard.exists_sees {registry : Registry} (h : registry.Standard) {key : String}
    (hcore : Core.isKey key = false) {decoder : Decoder}
    (hdecoder : registry.decoder? key = some decoder) :
    ∃ type : MixinType, decoder = type.decode ∧ type.Sees (Form.ofKey key) := by
  cases hbuiltin : builtins.get? key with
  | some descriptor =>
    obtain ⟨type, htype, hkey, rfl⟩ := exists_type_of_builtin hbuiltin
    rw [decoder?, resolve?, hbuiltin] at hdecoder
    exact ⟨type, (Option.some_inj.mp hdecoder).symm, MixinType.sees_of_builtin htype hkey⟩
  | none =>
    obtain ⟨type, rfl⟩ := h.decoder hdecoder
    rw [Form.ofKey_eq_scalar hcore hbuiltin]
    exact ⟨type, rfl, type.sees_scalar⟩

/-! ## Core fields -/

namespace Core

variable {α : Type} {form : Form}

theorem unplaced_readRequired {codec : Codec α} (h : codec.Sees form) (v? : Option Value) :
    (readRequired codec (v?.map form.canonical)).unplaced = (readRequired codec v?).unplaced := by
  cases v? with
  | none => rfl
  | some v => exact h v

theorem readOptional_some (codec : Codec α) (v : Value) :
    readOptional codec (some v) = codec.optional.read v := by
  cases v <;> rfl

theorem unplaced_readOptional {codec : Codec α} (h : codec.Sees form) (v? : Option Value) :
    (readOptional codec (v?.map form.canonical)).unplaced = (readOptional codec v?).unplaced := by
  cases v? with
  | none => rfl
  | some v =>
    rw [Option.map_some, readOptional_some, readOptional_some]
    exact h.optional v

end Core

namespace Symbol

variable {registry : Registry}

/-- The canonical spelling of a record: what stands under each key, spelled in the form that belongs
to the key. -/
def canonicalRecord (record : Entries Value) : Entries Value :=
  record.map fun entry => (entry.1, (Form.ofKey entry.1).canonical entry.2)

@[simp] theorem keys_canonicalRecord (record : Entries Value) :
    Entries.keys (canonicalRecord record) = Entries.keys record :=
  List.map_map

theorem otherKeys_canonicalRecord (record : Entries Value) :
    otherKeys (canonicalRecord record) = otherKeys record := by
  rw [otherKeys, Entries.sortedKeys, keys_canonicalRecord]
  rfl

theorem get?_canonicalRecord (record : Entries Value) (key : String) :
    Entries.get? (canonicalRecord record) key =
      (record.get? key).map (Form.ofKey key).canonical := by
  induction record with
  | nil => rfl
  | cons entry rest ih =>
    rw [canonicalRecord, List.map_cons, Entries.get?_cons, Entries.get?]
    by_cases hkey : entry.1 = key
    · rw [if_pos hkey, if_pos hkey, hkey]
      rfl
    · rw [if_neg hkey, if_neg hkey]
      exact ih

/-- **The core fields are read of the canonical spelling as of the record**, and are at fault in the
same way. -/
theorem readCore_canonicalRecord (record : Entries Value) :
    readCore (canonicalRecord record) = readCore record := by
  have hget := get?_canonicalRecord record
  have hidentifier := Core.unplaced_readRequired Identifier.fits.sees (record.get? "identifier")
  have hkind := Core.unplaced_readRequired Kind.fits.sees (record.get? "kind")
  have hpath :=
    Core.unplaced_readRequired Codec.fits_text.sees.listOf (record.get? "pathComponents")
  have htype := Core.unplaced_readOptional Codec.fits_text.sees (record.get? "type")
  have hnames := Core.unplaced_readRequired Names.fits.sees (record.get? "names")
  have hcomment := Core.unplaced_readOptional Comment.fits.sees (record.get? "docComment")
  have haccess := Core.unplaced_readRequired Codec.fits_text.sees (record.get? "accessLevel")
  have hfaults : Core.faults (canonicalRecord record) = Core.faults record := by
    simp only [Core.faults, hget]
    rw [← Reading.fault?_congr hidentifier, ← Reading.fault?_congr hkind,
      ← Reading.fault?_congr hpath, ← Reading.fault?_congr htype, ← Reading.fault?_congr hnames,
      ← Reading.fault?_congr hcomment, ← Reading.fault?_congr haccess]
    rfl
  cases hread : readCore record with
  | error error =>
    rw [readCore_eq_error_iff, hfaults]
    exact readCore_eq_error_iff.mp hread
  | ok core =>
    obtain ⟨h₁, h₂, h₃, h₄, h₅, h₆, h₇⟩ := readCore_eq_ok_iff.mp hread
    refine readCore_eq_ok_iff.mpr ⟨?_, ?_, ?_, ?_, ?_, ?_, ?_⟩ <;> rw [hget]
    · exact (Reading.accepted_congr hidentifier).mpr h₁
    · exact (Reading.accepted_congr hkind).mpr h₂
    · exact (Reading.accepted_congr hpath).mpr h₃
    · exact (Reading.accepted_congr htype).mpr h₄
    · exact (Reading.accepted_congr hnames).mpr h₅
    · exact (Reading.accepted_congr hcomment).mpr h₆
    · exact (Reading.accepted_congr haccess).mpr h₇

/-! ## The loop over the keys -/

theorem mapError_settle (key : String) (intake : Intake) :
    (settle key intake).mapError Failure.unplaced = settle key intake.unplaced := by
  cases intake <;> rfl

/-- One key is read of the canonical spelling as of the record. -/
theorem readMixin_canonicalRecord (h : registry.Standard) (record : Entries Value) {key : String}
    (hcore : Core.isKey key = false) :
    (readMixin registry (canonicalRecord record) key).mapError Failure.unplaced =
      (readMixin registry record key).mapError Failure.unplaced := by
  cases hdecoder : registry.decoder? key with
  | none => rw [readMixin_of_decoder?_eq_none hdecoder, readMixin_of_decoder?_eq_none hdecoder]
  | some decoder =>
    obtain ⟨type, rfl, hsees⟩ := h.exists_sees hcore hdecoder
    rw [readMixin_of_decoder? hdecoder, readMixin_of_decoder? hdecoder, outcome_type_decode,
      outcome_type_decode, get?_canonicalRecord]
    cases record.get? key with
    | none => rfl
    | some v =>
      simp only [Option.map_some, Option.getD_some]
      rw [mapError_settle, mapError_settle, hsees v]

theorem readMixins_canonicalRecord (h : registry.Standard) (record : Entries Value) :
    ∀ {ks : List String} (mixins : Table Mixin), (∀ key ∈ ks, Core.isKey key = false) →
      (readMixins registry (canonicalRecord record) ks mixins).outcome.mapError Failure.unplaced =
        (readMixins registry record ks mixins).outcome.mapError Failure.unplaced
  | [], _, _ => rfl
  | key :: rest, mixins, hks => by
    obtain ⟨hkey, hrest⟩ := List.forall_mem_cons.mp hks
    rw [outcome_readMixins_cons, outcome_readMixins_cons]
    exact mapError_bind_congr (readMixin_canonicalRecord h record hkey) fun found =>
      readMixins_canonicalRecord h record (store key mixins found) hrest

/-- **Decoding sees a record through its canonical spelling**, up to the places of issues. -/
theorem outcome_decode_canonicalRecord (h : registry.Standard) (record : Entries Value) :
    (decode registry (.object (canonicalRecord record))).outcome.mapError Failure.unplaced =
      (decode registry (.object record)).outcome.mapError Failure.unplaced := by
  rw [outcome_decode_object, outcome_decode_object, readCore_canonicalRecord,
    otherKeys_canonicalRecord]
  cases readCore record with
  | error error => rfl
  | ok core =>
    refine mapError_map_congr _ (readMixins_canonicalRecord h record .empty fun key hkey => ?_)
    exact (mem_otherKeys.mp hkey).2

/-! ## What is written is spelled canonically -/

theorem canonical_of_mem_wire (core : Core) {entry : String × Value} (hentry : entry ∈ core.wire) :
    (Form.ofKey entry.1).canonical entry.2 = entry.2 := by
  obtain ⟨field, hfield, hkey, v, hmatches⟩ := core.matches_wire.exists_of_mem hentry
  rw [hkey, ← Core.form_eq_ofKey field hfield]
  exact hmatches.canonical

/-- A mixin under a built-in key is of the type of the key. -/
def KeepsBuiltins (symbol : Symbol) : Prop :=
  ∀ key m, symbol.mixins.get? key = some m → Registry.isBuiltin key = true →
    m.builtinType?.isSome ∧ m.key? = some key

theorem canonical_of_written? {symbol : Symbol} (hsymbol : symbol.KeepsBuiltins) {key : String}
    {v : Value} (hwritten : written? registry symbol.mixins key = some v) :
    (Form.ofKey key).canonical v = v := by
  have hcore : Core.isKey key = false := isKey_of_written? (by rw [hwritten]; rfl)
  obtain ⟨encoder, -, hpayload⟩ := Option.bind_eq_some_iff.mp hwritten
  obtain ⟨m, hm, rfl⟩ := Option.map_eq_some_iff.mp hpayload
  cases hbuiltin : Registry.builtins.get? key with
  | some descriptor =>
    have hisBuiltin : Registry.isBuiltin key = true := by
      rw [Registry.isBuiltin, Entries.has, hbuiltin]
      rfl
    obtain ⟨htype, hkey⟩ := hsymbol key m hm hisBuiltin
    exact (Mixin.matches_payload htype hkey).canonical
  | none => rw [Form.ofKey_eq_scalar hcore hbuiltin, Form.canonical_scalar]

/-- **What encoding yields is spelled canonically.** -/
theorem canonicalRecord_of_encode (h : registry.Standard) {symbol : Symbol}
    (hsymbol : symbol.KeepsBuiltins) {container : Entries Value}
    (hencode : (symbol.encode registry).outcome = .ok container) :
    canonicalRecord container = container := by
  have hcontainer := Except.ok.inj ((outcome_encode h.writesPlainly).symm.trans hencode)
  have hcanonical : ∀ entry ∈ container, (Form.ofKey entry.1).canonical entry.2 = entry.2 := by
    intro entry hentry
    rw [← hcontainer] at hentry
    rcases List.mem_append.mp hentry with hcore | hmixin
    · exact canonical_of_mem_wire symbol.toCore hcore
    · obtain ⟨key, -, hsome⟩ := List.mem_filterMap.mp hmixin
      obtain ⟨v, hwritten, rfl⟩ := Option.map_eq_some_iff.mp hsome
      exact canonical_of_written? hsymbol hwritten
  have hmap : canonicalRecord container = container.map id :=
    List.map_congr_left fun entry hentry => congrArg (Prod.mk entry.1) (hcanonical entry hentry)
  rw [hmap, List.map_id]

/-- **Decoding sees every nested record through its canonical spelling.**  A record and its
canonical spelling come to the same symbol.  If one is refused, so is the other, with an error of
the same kind about the same field or key, and the same issues up to their places.  Encoding spells
canonically. -/
theorem canonical_spelling_is_read_and_written (registry : Registry)
    (hregistry : registry.Standard) :
    (∀ record symbol, (decode registry (.object (canonicalRecord record))).outcome = .ok symbol ↔
      (decode registry (.object record)).outcome = .ok symbol) ∧
    (∀ record failure, (decode registry (.object record)).outcome = .error failure →
      ∃ error error', failure = .decode error ∧
        (decode registry (.object (canonicalRecord record))).outcome = .error (.decode error') ∧
        error'.key? = error.key? ∧ error'.unplaced = error.unplaced) ∧
    ∀ (symbol : Symbol) container, symbol.KeepsBuiltins →
      (symbol.encode registry).outcome = .ok container → canonicalRecord container = container := by
  refine ⟨fun record symbol => ?_, fun record failure hfailure => ?_,
    fun symbol container hsymbol hencode => canonicalRecord_of_encode hregistry hsymbol hencode⟩
  · rw [← @mapError_eq_ok_iff _ _ _ Failure.unplaced, outcome_decode_canonicalRecord hregistry,
      mapError_eq_ok_iff]
  · obtain ⟨error, rfl⟩ := failsBy_decode hregistry (.object record) failure hfailure
    have hsame := outcome_decode_canonicalRecord hregistry record
    rw [hfailure] at hsame
    cases hcanonical : (decode registry (.object (canonicalRecord record))).outcome with
    | ok symbol =>
      rw [hcanonical] at hsame
      nomatch hsame
    | error failure' =>
      rw [hcanonical] at hsame
      obtain ⟨error', rfl, hunplaced⟩ := Failure.exists_of_unplaced_eq (Except.error.inj hsame)
      refine ⟨error, error', rfl, rfl, ?_, hunplaced⟩
      rw [← error'.key?_unplaced, hunplaced, error.key?_unplaced]

/-- A record whose nested fields go by their own names, or by both, with keys that are none of a
field. -/
def sketch : Entries Value :=
  [("identifier", .object [("interface_language", .text "swift"), ("precise", .text "s:f")]),
    ("kind", .object [("identifier", .text "func"), ("displayName", .text "Function"),
      ("display_name", .int 3)]),
    ("pathComponents", .list [.text "f"]), ("names", .object [("title", .text "f")]),
    ("accessLevel", .text "public"),
    ("docComment", .object [("lines", .list []), ("module_name", .text "Kit"),
      ("language", .text "en")]),
    ("snippet", .object [("lines", .list []), ("slices", .object [("display_name",
      .object [("end", .int 2), ("start", .int 1)])])])]

/-- The symbol of that record. -/
def sketched : Symbol where
  identifier := ⟨"s:f", some "swift"⟩
  kind := ⟨⟨"func"⟩, "Function"⟩
  pathComponents := ["f"]
  type := none
  names := ⟨"f", none, none, none⟩
  docComment := some ⟨[], none, some "Kit"⟩
  accessLevel := "public"
  mixins := ⟨[("snippet", .snippet ⟨none, [], ⟨[("display_name", ⟨1, 2, by decide⟩)], by decide⟩⟩)],
    by decide⟩

/-- The same record with a parameter whose internal name is no text. -/
def sketchAtFault : Entries Value :=
  ("functionSignature", .object
    [("parameters", .list [.object [("name", .text "a"), ("internal_name", .int 3)]])]) :: sketch

/-- The canonical spelling of the record is read as the record is, and it is what is written for the
symbol; the record at fault is refused in both spellings. -/
theorem sketch_is_read_and_written :
    (decode .empty (.object (canonicalRecord sketch))).outcome = .ok sketched ∧
    (∃ error', (decode .empty (.object (canonicalRecord sketchAtFault))).outcome =
      .error (.decode error') ∧ error'.key? = some "functionSignature") ∧
    canonicalRecord (canonicalRecord sketch) = canonicalRecord sketch := by
  have hstandard : Registry.empty.Standard := Registry.standard_of_extensions fun _ _ h => nomatch h
  obtain ⟨hok, herror, hencode⟩ := canonical_spelling_is_read_and_written .empty hstandard
  have hfailure : (decode .empty (.object sketchAtFault)).outcome =
      .error (.decode (.payload "functionSignature" ⟨"FunctionSignature",
        ⟨[.key "parameters", .index 0, .key "internal_name"], .text, "int"⟩, []⟩)) := by
    decide +kernel
  refine ⟨(hok sketch sketched).mpr (by decide +kernel), ?_,
    hencode sketched _ (fun key m hm _ => ?_) (by decide +kernel)⟩
  · obtain ⟨error, error', heq, hrefused, hkey, -⟩ := herror _ _ hfailure
    rw [← Failure.decode.inj heq] at hkey
    exact ⟨error', hrefused, hkey⟩
  · obtain ⟨rfl, rfl⟩ := Prod.mk.inj (List.mem_singleton.mp (Entries.mem_of_get?_eq_some hm))
    exact ⟨rfl, rfl⟩

end Symbol

end SymbolRecord
