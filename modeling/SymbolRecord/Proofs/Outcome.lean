import SymbolRecord.Proofs.Core
import SymbolRecord.Proofs.Decoding
import SymbolRecord.Proofs.RoundTrip
import SymbolRecord.Proofs.Standard
import SymbolRecord.Proofs.Yield
/-!
# What decoding a value comes to

Many things can be wrong with a record at once, and decoding reports one of them.  Which one does
not depend on the order of the keys: the core fields come first, in an order of their own, and then
the least key whose payload is refused.  When nothing is wrong, the symbol holds what was read.

The rules are stated as a relation between a value and an outcome, which mentions neither the
collected issues of the core fields nor the loop over the keys, and decoding is proved to follow
them.

* `Reading.blame?`: the field that the first issue of a reading is about.
* `Core.faults`, `Core.ReadFrom`: what is wrong with each core field, and core fields as read.
* `Symbol.Takes`: what the type of a key makes of the payload under it.
* `Symbol.readMixins_otherKeys_eq_error_iff`, `Symbol.readMixins_otherKeys_eq_ok_iff`: the loop over
  the keys.
* `Symbol.DecodesTo`: the rules.
* `Symbol.outcome_decode_iff`: decoding follows the rules.
-/

namespace SymbolRecord

/-! ## The first issue -/

/-- The field of a record that an issue is about. -/
def Issue.field (issue : Issue) : String :=
  match issue.place with
  | step :: _ => step.text
  | [] => ""

namespace Reading

variable {α β γ : Type}

/-- What is wrong first. -/
def fault? (r : Reading α) : Option Fault := r.issues.head?.map Issue.fault

/-- The field that the first issue is about, and what is wrong with it. -/
def blame? (r : Reading α) : Option (String × Fault) :=
  r.issues.head?.map fun issue => (issue.field, issue.fault)

@[simp] theorem blame?_accepted (a : α) : (accepted a).blame? = none := rfl

/-- Of two parts, the first one that has an issue is to blame. -/
@[simp] theorem blame?_both (f : α → β → γ) (r : Reading α) (s : Reading β) :
    (both f r s).blame? = r.blame?.or s.blame? := by
  rw [blame?, issues_both, List.head?_append]
  cases r <;> rfl

theorem blame?_within {key : String} (hkey : '.' ∉ key.toList) (r : Reading α) :
    (r.within (.key key)).blame? = r.fault?.map fun fault => (key, fault) := by
  cases r with
  | accepted => rfl
  | rejected first others =>
    have htext : (Step.key key).text = key := if_neg hkey
    show some ((first.within (.key key)).field, first.fault) = some (key, first.fault)
    rw [Issue.field, Issue.within]
    exact congrArg (fun field => some (field, first.fault)) htext

end Reading

namespace Fields

variable {ρ α β : Type} {description : Fields ρ (α → β)} {field : Fields ρ α}
  {entries : Entries Value}

theorem blame?_and :
    ((description.and field).read entries).blame? =
      (description.read entries).blame?.or (field.read entries).blame? :=
  Reading.blame?_both _ _ _

theorem accepted_and {f : α → β} {a : α} (hdescription : description.read entries = .accepted f)
    (hfield : field.read entries = .accepted a) :
    (description.and field).read entries = .accepted (f a) :=
  read_and_eq_accepted_iff.mpr ⟨f, a, hdescription, hfield, rfl⟩

end Fields

/-! ## Core fields one by one -/

namespace Core

open Fields

variable {α : Type}

/-- Reads a field that must be there. -/
def readRequired (codec : Codec α) : Option Value → Reading α
  | none => .rejected ⟨[], .missing, (Value.object []).typeName⟩ []
  | some v => codec.read v

/-- Reads a field that may be absent.  A null stands for an absent value. -/
def readOptional (codec : Codec α) : Option Value → Reading (Option α)
  | none => .accepted none
  | some .null => .accepted none
  | some v => (codec.read v).map some

/-- What is wrong with each core field of a record, in the order in which they are checked. -/
def faults (record : Entries Value) : List (String × Option Fault) :=
  [("identifier", (readRequired Identifier.codec (record.get? "identifier")).fault?),
    ("kind", (readRequired Kind.codec (record.get? "kind")).fault?),
    ("pathComponents", (readRequired Codec.text.listOf (record.get? "pathComponents")).fault?),
    ("type", (readOptional Codec.text (record.get? "type")).fault?),
    ("names", (readRequired Names.codec (record.get? "names")).fault?),
    ("docComment", (readOptional Comment.codec (record.get? "docComment")).fault?),
    ("accessLevel", (readRequired Codec.text (record.get? "accessLevel")).fault?)]

/-- Core fields as they are read from a record, each from the value under its key alone. -/
structure ReadFrom (record : Entries Value) (core : Core) : Prop where
  /-- The identifier. -/
  identifier :
    readRequired Identifier.codec (record.get? "identifier") = .accepted core.identifier
  /-- The kind. -/
  kind : readRequired Kind.codec (record.get? "kind") = .accepted core.kind
  /-- The path. -/
  pathComponents :
    readRequired Codec.text.listOf (record.get? "pathComponents") = .accepted core.pathComponents
  /-- The symbol that declares the type. -/
  type : readOptional Codec.text (record.get? "type") = .accepted core.type
  /-- The names. -/
  names : readRequired Names.codec (record.get? "names") = .accepted core.names
  /-- The documentation comment. -/
  docComment : readOptional Comment.codec (record.get? "docComment") = .accepted core.docComment
  /-- The access level. -/
  accessLevel : readRequired Codec.text (record.get? "accessLevel") = .accepted core.accessLevel

/-- Core fields are sought under their wire keys only, because a field's own name, where it differs,
is no core key. -/
theorem find?_entries {slot : Slot} (hkey : isKey slot.key = true)
    (hname : slot.name = slot.key ∨ isKey slot.name = false) (record : Entries Value) :
    slot.find? (entries record) = (record.get? slot.key).map fun v => (slot.key, v) := by
  rw [Slot.find?, get?_entries, if_pos hkey]
  cases hget : record.get? slot.key with
  | some v => rfl
  | none =>
    rcases hname with hsame | hother
    · rw [hsame, get?_entries, if_pos hkey, hget]
    · rw [get?_entries, hother]
      rfl

variable {ρ : Type} {slot : Slot}

theorem read_required (hkey : isKey slot.key = true)
    (hname : slot.name = slot.key ∨ isKey slot.name = false) (codec : Codec α) (get : ρ → α)
    (record : Entries Value) :
    (one slot codec none get).read (entries record) =
      (readRequired codec (record.get? slot.key)).within (.key slot.key) := by
  simp only [one, find?_entries hkey hname]
  cases record.get? slot.key <;> rfl

theorem read_optional (hkey : isKey slot.key = true)
    (hname : slot.name = slot.key ∨ isKey slot.name = false) (codec : Codec α)
    (get : ρ → Option α) (record : Entries Value) :
    (one slot codec.optional (some none) get).read (entries record) =
      (readOptional codec (record.get? slot.key)).within (.key slot.key) := by
  simp only [one, find?_entries hkey hname]
  cases record.get? slot.key with
  | none => rfl
  | some v => cases v <;> rfl

/-- The first core field with a fault is to blame. -/
theorem blame?_codec_read (record : Entries Value) :
    (codec.read (.object (entries record))).blame? =
      (faults record).findSome? fun entry => entry.2.map fun fault => (entry.1, fault) := by
  show (description.read (entries record)).blame? = _
  simp only [description, Fields.required, Fields.optional, Fields.defaulted, blame?_and]
  rw [read_required rfl (.inl rfl), read_required rfl (.inl rfl), read_required rfl (.inr rfl),
    read_optional rfl (.inl rfl), read_required rfl (.inl rfl), read_optional rfl (.inr rfl),
    read_required rfl (.inr rfl)]
  have hcons : ∀ (entry : String × Option Fault) rest,
      (entry :: rest).findSome? (fun entry => entry.2.map fun fault => (entry.1, fault)) =
        (entry.2.map fun fault => (entry.1, fault)).or
          (rest.findSome? fun entry => entry.2.map fun fault => (entry.1, fault)) := by
    intro entry rest
    rw [List.findSome?_cons]
    cases entry.2 <;> rfl
  simp (disch := decide) only [Slot.same, Reading.blame?_within]
  simp only [faults, hcons, List.findSome?_nil, Option.or_none, Option.or_assoc]
  rfl

/-- **Core fields are accepted together when each is accepted on its own.** -/
theorem codec_read_eq_accepted_iff {record : Entries Value} {core : Core} :
    codec.read (.object (entries record)) = .accepted core ↔ ReadFrom record core := by
  show description.read (entries record) = .accepted core ↔ _
  constructor
  · intro h₇
    obtain ⟨_, accessLevel, h₆, haccess, rfl⟩ := read_and h₇
    obtain ⟨_, docComment, h₅, hcomment, rfl⟩ := read_and h₆
    obtain ⟨_, names, h₄, hnames, rfl⟩ := read_and h₅
    obtain ⟨_, type, h₃, htype, rfl⟩ := read_and h₄
    obtain ⟨_, path, h₂, hpath, rfl⟩ := read_and h₃
    obtain ⟨_, kind, h₁, hkind, rfl⟩ := read_and h₂
    obtain ⟨_, identifier, h₀, hidentifier, rfl⟩ := read_and h₁
    obtain rfl := Reading.accepted.inj h₀
    rw [read_required rfl (.inl rfl)] at hidentifier hkind hnames
    rw [read_required rfl (.inr rfl)] at hpath haccess
    rw [read_optional rfl (.inl rfl)] at htype
    rw [read_optional rfl (.inr rfl)] at hcomment
    exact ⟨Reading.within_eq_accepted hidentifier, Reading.within_eq_accepted hkind,
      Reading.within_eq_accepted hpath, Reading.within_eq_accepted htype,
      Reading.within_eq_accepted hnames, Reading.within_eq_accepted hcomment,
      Reading.within_eq_accepted haccess⟩
  · intro h
    refine accepted_and (accepted_and (accepted_and (accepted_and (accepted_and (accepted_and
      (accepted_and (f := mk) rfl ?_) ?_) ?_) ?_) ?_) ?_) ?_
    · rw [read_required rfl (.inl rfl), Slot.same, h.identifier]
      rfl
    · rw [read_required rfl (.inl rfl), Slot.same, h.kind]
      rfl
    · rw [read_required rfl (.inr rfl), h.pathComponents]
      rfl
    · rw [read_optional rfl (.inl rfl), Slot.same, h.type]
      rfl
    · rw [read_required rfl (.inl rfl), Slot.same, h.names]
      rfl
    · rw [read_optional rfl (.inr rfl), h.docComment]
      rfl
    · rw [read_required rfl (.inr rfl), h.accessLevel]
      rfl

end Core

namespace Symbol

variable {registry : Registry} {record : Entries Value}

theorem readCore_eq_ok_iff {core : Core} : readCore record = .ok core ↔ core.ReadFrom record := by
  rw [← Core.codec_read_eq_accepted_iff, readCore]
  cases Core.codec.read (.object (Core.entries record)) with
  | accepted a => simp
  | rejected first others => simp

theorem readCore_eq_error_iff {error : DecodeError} :
    readCore record = .error error ↔
      ∃ before field fault after, Core.faults record = before ++ (field, some fault) :: after ∧
        (∀ entry ∈ before, entry.2 = none) ∧ error = .coreField field fault := by
  have hblame : readCore record = .error error ↔
      ∃ field fault, (Core.codec.read (.object (Core.entries record))).blame? =
        some (field, fault) ∧ error = .coreField field fault := by
    rw [readCore]
    cases Core.codec.read (.object (Core.entries record)) with
    | accepted a => simp
    | rejected first others =>
      show Except.error (DecodeError.coreField first.field first.fault) = .error error ↔
        ∃ field fault, some (first.field, first.fault) = some (field, fault) ∧
          error = .coreField field fault
      simp [eq_comm]
  rw [hblame]
  constructor
  · rintro ⟨field, fault, hfirst, rfl⟩
    rw [Core.blame?_codec_read] at hfirst
    obtain ⟨before, ⟨key, fault?⟩, after, hsplit, hentry, hbefore⟩ :=
      List.findSome?_eq_some_iff.mp hfirst
    obtain ⟨_, rfl, heq⟩ := Option.map_eq_some_iff.mp hentry
    obtain ⟨rfl, rfl⟩ := Prod.mk.inj heq
    exact ⟨before, key, _, after, hsplit,
      fun entry hmem => Option.map_eq_none_iff.mp (hbefore entry hmem), rfl⟩
  · rintro ⟨before, field, fault, after, hsplit, hbefore, rfl⟩
    refine ⟨field, fault, ?_, rfl⟩
    rw [Core.blame?_codec_read]
    exact List.findSome?_eq_some_iff.mpr ⟨before, (field, some fault), after, hsplit, rfl,
      fun entry hmem => Option.map_eq_none_iff.mpr (hbefore entry hmem)⟩

/-! ## The loop over the keys -/

/-- The loop fails with what the first failing key fails with. -/
theorem readMixins_eq_error_iff {failure : Failure} :
    ∀ {ks : List String} {mixins : Table Mixin},
      (readMixins registry record ks mixins).outcome = .error failure ↔
        ∃ before key after, ks = before ++ key :: after ∧
          (∀ other ∈ before, ∃ found, readMixin registry record other = .ok found) ∧
          readMixin registry record key = .error failure
  | [], mixins => by
    refine iff_of_false (by simp [readMixins]) ?_
    rintro ⟨before, key, after, hsplit, -⟩
    exact absurd hsplit (by simp)
  | first :: rest, mixins => by
    rw [outcome_readMixins_cons]
    constructor
    · intro h
      cases hfirst : readMixin registry record first with
      | error failure' =>
        rw [hfirst] at h
        obtain rfl := Except.error.inj h
        exact ⟨[], first, rest, rfl, fun _ hmem => absurd hmem List.not_mem_nil, hfirst⟩
      | ok found =>
        rw [hfirst] at h
        obtain ⟨before, key, after, rfl, hbefore, hkey⟩ := readMixins_eq_error_iff.mp h
        exact ⟨first :: before, key, after, rfl,
          List.forall_mem_cons.mpr ⟨⟨found, hfirst⟩, hbefore⟩, hkey⟩
    · rintro ⟨before, key, after, hsplit, hbefore, hkey⟩
      cases before with
      | nil =>
        obtain ⟨rfl, rfl⟩ := List.cons.inj hsplit
        rw [hkey]
        rfl
      | cons other before =>
        obtain ⟨rfl, rfl⟩ := List.cons.inj hsplit
        obtain ⟨⟨found, hfound⟩, hothers⟩ := List.forall_mem_cons.mp hbefore
        rw [hfound]
        exact readMixins_eq_error_iff.mpr ⟨before, key, after, rfl, hothers, hkey⟩

/-- What was found is stored in the order of the keys. -/
theorem entries_of_readMixins :
    ∀ {ks : List String} {mixins mixins' : Table Mixin}, ks.Nodup →
      (∀ key ∈ ks, key ∉ mixins.keys) →
      (readMixins registry record ks mixins).outcome = .ok mixins' →
        mixins'.entries = mixins.entries ++
          ks.filterMap fun key => (found registry record key).map fun m => (key, m)
  | [], mixins, mixins', _, _, h => by
    rw [← Except.ok.inj h, List.filterMap_nil, List.append_nil]
  | key :: rest, mixins, mixins', hnodup, hfresh, h => by
    obtain ⟨hkey, hrest⟩ := List.nodup_cons.mp hnodup
    have hfound := readMixin_eq_found (exists_readMixin_of_readMixins h key List.mem_cons_self)
    rw [outcome_readMixins_cons, hfound] at h
    have hstep : (readMixins registry record rest
      (store key mixins (found registry record key))).outcome = .ok mixins' := h
    cases hm : found registry record key with
    | none =>
      rw [hm] at hstep
      rw [entries_of_readMixins hrest (fun k hk => hfresh k (List.mem_cons_of_mem key hk)) hstep,
        List.filterMap_cons, hm]
      rfl
    | some m =>
      rw [hm] at hstep
      have hnew : key ∉ Entries.keys mixins.entries := hfresh key List.mem_cons_self
      have hfresh' : ∀ k ∈ rest, k ∉ (mixins.put key m).keys := by
        intro k hk hmem
        rcases (Entries.mem_keys_put mixins.entries key m k).mp hmem with rfl | hold
        · exact hkey hk
        · exact hfresh k (List.mem_cons_of_mem key hk) hold
      rw [entries_of_readMixins hrest hfresh' hstep, List.filterMap_cons, hm]
      show Entries.put mixins.entries key m ++ _ = _
      rw [Entries.put_of_notMem hnew, List.append_assoc, List.singleton_append]
      rfl

theorem pairwise_otherKeys (record : Entries Value) : (otherKeys record).Pairwise (· < ·) :=
  (Entries.pairwise_ascending _).filter _

/-- The mixins of a decoded symbol stand in ascending order of their keys. -/
theorem pairwise_keys_of_readMixins {mixins : Table Mixin}
    (h : (readMixins registry record (otherKeys record) .empty).outcome = .ok mixins) :
    mixins.keys.Pairwise (· < ·) := by
  have hascending := pairwise_otherKeys record
  have hnodup : (otherKeys record).Nodup := Entries.nodup_of_pairwise_lt hascending
  have hentries : mixins.entries =
      (otherKeys record).filterMap fun key => (found registry record key).map fun m => (key, m) :=
    entries_of_readMixins hnodup (fun _ _ hmem => absurd hmem List.not_mem_nil) h
  rw [Table.keys, hentries, Entries.keys_filterMap]
  exact hascending.filter _

/-! ## What a type makes of a payload -/

/-- The payload that a record has under a key beside those of the core fields, and what the type
that reads the key makes of it. -/
def Takes (registry : Registry) (record : Entries Value) (key : String) (intake : Intake) : Prop :=
  Core.isKey key = false ∧ ∃ (type : MixinType) (v : Value),
    registry.decoder? key = some type.decode ∧ record.get? key = some v ∧ type.read v = intake

/-- What an intake means to the record that the payload stands in. -/
def settle (key : String) : Intake → Except Failure (Option Mixin)
  | .mixin m => .ok (some m)
  | .dropped _ => .ok none
  | .refused report => .error (.decode (.payload key report))

theorem settle_eq_some_iff {key : String} {intake : Intake} {m : Mixin} :
    settle key intake = .ok (some m) ↔ intake = .mixin m := by
  cases intake <;> simp [settle]

theorem settle_eq_none_iff {key : String} {intake : Intake} :
    settle key intake = .ok none ↔ ∃ issues, intake = .dropped issues := by
  cases intake <;> simp [settle]

theorem settle_eq_error_iff {key : String} {intake : Intake} {failure : Failure} :
    settle key intake = .error failure ↔
      ∃ report, intake = .refused report ∧ failure = .decode (.payload key report) := by
  cases intake <;> simp [settle, eq_comm]

/-- What a type finds under a key is what it makes of the payload there. -/
theorem outcome_type_decode (type : MixinType) (key : String) (record : Entries Value) :
    (type.decode key record).outcome =
      ((record.get? key).map fun v => settle key (type.read v)).getD (.ok none) := by
  rw [MixinType.decode]
  cases record.get? key with
  | none => rfl
  | some v =>
    simp only [MixinType.intake, Option.map_some, Option.getD_some]
    cases type.read v <;> rfl

theorem Takes.mem_otherKeys {key : String} {intake : Intake}
    (h : Takes registry record key intake) : key ∈ otherKeys record := by
  obtain ⟨hcore, type, v, -, hget, -⟩ := h
  refine Symbol.mem_otherKeys.mpr ⟨?_, hcore⟩
  rw [← Entries.isSome_get?_iff, hget]
  rfl

theorem Takes.readMixin_eq {key : String} {intake : Intake}
    (h : Takes registry record key intake) :
    readMixin registry record key = settle key intake := by
  obtain ⟨-, type, v, hdecoder, hget, rfl⟩ := h
  rw [readMixin, hdecoder]
  show (type.decode key record).outcome = settle key (type.read v)
  rw [outcome_type_decode, hget]
  rfl

/-- What is found under a key that is read comes from the type of the key. -/
theorem exists_takes (h : registry.Standard) {key : String} (hkey : key ∈ otherKeys record)
    (hdecoder : (registry.decoder? key).isSome) : ∃ intake, Takes registry record key intake := by
  obtain ⟨hmem, hcore⟩ := mem_otherKeys.mp hkey
  obtain ⟨decoder, hsome⟩ := Option.isSome_iff_exists.mp hdecoder
  obtain ⟨type, rfl⟩ := h.decoder hsome
  obtain ⟨v, hv⟩ := Option.isSome_iff_exists.mp (Entries.isSome_get?_iff.mpr hmem)
  exact ⟨type.read v, hcore, type, v, hsome, hv, rfl⟩

/-- Where nothing reads a key, nothing is found under it. -/
theorem isSome_decoder?_of_readMixin {key : String}
    (hread : readMixin registry record key ≠ .ok none) : (registry.decoder? key).isSome := by
  rw [readMixin] at hread
  cases hdecoder : registry.decoder? key with
  | none =>
    rw [hdecoder] at hread
    exact absurd rfl hread
  | some decoder => rfl

theorem readMixin_eq_error_iff (h : registry.Standard) {key : String}
    (hkey : key ∈ otherKeys record) {failure : Failure} :
    readMixin registry record key = .error failure ↔
      ∃ report, failure = .decode (.payload key report) ∧
        Takes registry record key (.refused report) := by
  constructor
  · intro hread
    obtain ⟨intake, htakes⟩ :=
      exists_takes h hkey (isSome_decoder?_of_readMixin fun hnone => nomatch hread.symm.trans hnone)
    rw [htakes.readMixin_eq] at hread
    obtain ⟨report, rfl, rfl⟩ := settle_eq_error_iff.mp hread
    exact ⟨report, rfl, htakes⟩
  · rintro ⟨report, rfl, htakes⟩
    exact htakes.readMixin_eq

theorem readMixin_eq_some_iff (h : registry.Standard) {key : String}
    (hkey : key ∈ otherKeys record) {m : Mixin} :
    readMixin registry record key = .ok (some m) ↔ Takes registry record key (.mixin m) := by
  constructor
  · intro hread
    obtain ⟨intake, htakes⟩ :=
      exists_takes h hkey (isSome_decoder?_of_readMixin fun hnone => nomatch hread.symm.trans hnone)
    rw [htakes.readMixin_eq] at hread
    obtain rfl := settle_eq_some_iff.mp hread
    exact htakes
  · exact fun htakes => htakes.readMixin_eq

/-! ## The loop over all keys -/

/-- Nothing fails below the least key that is refused. -/
theorem exists_readMixin_of_lt (h : registry.Standard) {key other : String}
    (hleast : ∀ other report', Takes registry record other (.refused report') → key ≤ other)
    (hother : other ∈ otherKeys record) (hlt : other < key) :
    ∃ found, readMixin registry record other = .ok found := by
  cases hread : readMixin registry record other with
  | ok found => exact ⟨found, rfl⟩
  | error failure =>
    obtain ⟨report, -, htakes⟩ := (readMixin_eq_error_iff h hother).mp hread
    exact absurd hlt (String.not_lt.mpr (hleast other report htakes))

/-- Of the keys around one in ascending order, those in front are less and the others are not. -/
theorem lt_and_le_of_otherKeys {before after : List String} {key : String}
    (hsplit : otherKeys record = before ++ key :: after) :
    (∀ other ∈ before, other < key) ∧ ∀ other ∈ key :: after, key ≤ other := by
  have hascending := pairwise_otherKeys record
  rw [hsplit, List.pairwise_append] at hascending
  obtain ⟨-, hback, hbefore⟩ := hascending
  refine ⟨fun other hother => hbefore other hother key List.mem_cons_self, fun other hother => ?_⟩
  rcases List.mem_cons.mp hother with rfl | hother
  · exact String.le_refl _
  · exact String.not_lt.mp (String.lt_asymm ((List.pairwise_cons.mp hback).1 other hother))

/-- **The loop fails at the least key that is refused**, if there is one. -/
theorem readMixins_otherKeys_eq_error_iff (h : registry.Standard) {failure : Failure} :
    (readMixins registry record (otherKeys record) .empty).outcome = .error failure ↔
      ∃ key report, failure = .decode (.payload key report) ∧
        Takes registry record key (.refused report) ∧
        ∀ other report', Takes registry record other (.refused report') → key ≤ other := by
  rw [readMixins_eq_error_iff]
  constructor
  · rintro ⟨before, key, after, hsplit, hbefore, hkey⟩
    have hmem : key ∈ otherKeys record := by
      rw [hsplit]
      exact List.mem_append_right _ List.mem_cons_self
    obtain ⟨report, rfl, htakes⟩ := (readMixin_eq_error_iff h hmem).mp hkey
    refine ⟨key, report, rfl, htakes, fun other report' hother => ?_⟩
    have hmem' := hother.mem_otherKeys
    rw [hsplit] at hmem'
    rcases List.mem_append.mp hmem' with hfront | hback
    · obtain ⟨found, hfound⟩ := hbefore other hfront
      exact absurd (hother.readMixin_eq.symm.trans hfound) (by simp [settle])
    · exact (lt_and_le_of_otherKeys hsplit).2 other hback
  · rintro ⟨key, report, rfl, htakes, hleast⟩
    obtain ⟨before, after, hsplit⟩ := List.append_of_mem htakes.mem_otherKeys
    refine ⟨before, key, after, hsplit, fun other hother => ?_, htakes.readMixin_eq⟩
    have hmem : other ∈ otherKeys record := by
      rw [hsplit]
      exact List.mem_append_left _ hother
    exact exists_readMixin_of_lt h hleast hmem ((lt_and_le_of_otherKeys hsplit).1 other hother)

/-- What a loop that succeeds has stored is what the types made of payloads. -/
theorem get?_eq_some_iff_takes (h : registry.Standard) {mixins : Table Mixin}
    (hloop : (readMixins registry record (otherKeys record) .empty).outcome = .ok mixins)
    (key : String) (m : Mixin) :
    mixins.get? key = some m ↔ Takes registry record key (.mixin m) := by
  obtain ⟨hin, hout⟩ := @readMixin_of_readMixins _ _ _ _ hloop key
  by_cases hkey : key ∈ otherKeys record
  · rw [← readMixin_eq_some_iff h hkey, hin hkey, Except.ok.injEq]
  · rw [hout hkey]
    exact iff_of_false (by simp) fun htakes => hkey htakes.mem_otherKeys

/-- **The loop succeeds when nothing is refused**, with what the types made of payloads. -/
theorem readMixins_otherKeys_eq_ok_iff (h : registry.Standard) {mixins : Table Mixin} :
    (readMixins registry record (otherKeys record) .empty).outcome = .ok mixins ↔
      (∀ key report, ¬ Takes registry record key (.refused report)) ∧
        (∀ key m, mixins.get? key = some m ↔ Takes registry record key (.mixin m)) ∧
        mixins.keys.Pairwise (· < ·) := by
  constructor
  · intro hloop
    refine ⟨fun key report htakes => ?_, get?_eq_some_iff_takes h hloop,
      pairwise_keys_of_readMixins hloop⟩
    obtain ⟨found, hfound⟩ := exists_readMixin_of_readMixins hloop key htakes.mem_otherKeys
    exact absurd (htakes.readMixin_eq.symm.trans hfound) (by simp [settle])
  · rintro ⟨hrefused, hmixins, hascending⟩
    cases hloop : (readMixins registry record (otherKeys record) .empty).outcome with
    | error failure =>
      obtain ⟨key, report, -, htakes, -⟩ := (readMixins_otherKeys_eq_error_iff h).mp hloop
      exact absurd htakes (hrefused key report)
    | ok stored =>
      have hsame : stored = mixins := by
        refine Table.eq_of_get?_eq (pairwise_keys_of_readMixins hloop) hascending fun key => ?_
        ext m
        rw [get?_eq_some_iff_takes h hloop, hmixins]
      rw [hsame]

/-! ## The rules -/

/-- What decoding a value comes to. -/
inductive DecodesTo (registry : Registry) : Value → Except Failure Symbol → Prop where
  /-- A value that is no object is refused, and no field is to blame. -/
  | notObject {v : Value} (hobject : ∀ record, v ≠ .object record) :
    DecodesTo registry v (.error (.decode (.notObject v.typeName)))
  /-- The earliest core field that is absent or malformed is to blame, whatever else is wrong. -/
  | coreField {record : Entries Value} {before after : List (String × Option Fault)}
    {field : String} {fault : Fault}
    (hfaults : Core.faults record = before ++ (field, some fault) :: after)
    (hbefore : ∀ entry ∈ before, entry.2 = none) :
    DecodesTo registry (.object record) (.error (.decode (.coreField field fault)))
  /-- With all core fields in order, the least key whose payload is refused is to blame. -/
  | payload {record : Entries Value} {core : Core} {key : String} {report : Report}
    (hcore : core.ReadFrom record) (hkey : Takes registry record key (.refused report))
    (hleast : ∀ other report', Takes registry record other (.refused report') → key ≤ other) :
    DecodesTo registry (.object record) (.error (.decode (.payload key report)))
  /-- With nothing refused, the symbol has the core fields as they are read and exactly the mixins
  that are made of payloads, in ascending order of their keys. -/
  | symbol {record : Entries Value} {symbol : Symbol} (hcore : symbol.toCore.ReadFrom record)
    (hrefused : ∀ key report, ¬ Takes registry record key (.refused report))
    (hmixins : ∀ key m,
      symbol.mixins.get? key = some m ↔ Takes registry record key (.mixin m))
    (hascending : symbol.mixins.keys.Pairwise (· < ·)) :
    DecodesTo registry (.object record) (.ok symbol)

/-- Decoding follows the rules. -/
theorem decodesTo_outcome (h : registry.Standard) (v : Value) :
    DecodesTo registry v (decode registry v).outcome := by
  cases v with
  | object record =>
    rw [outcome_decode_object]
    cases hcore : readCore record with
    | error error =>
      obtain ⟨before, field, fault, after, hfaults, hbefore, rfl⟩ :=
        readCore_eq_error_iff.mp hcore
      exact .coreField hfaults hbefore
    | ok core =>
      have hread := readCore_eq_ok_iff.mp hcore
      cases hloop : (readMixins registry record (otherKeys record) .empty).outcome with
      | error failure =>
        obtain ⟨key, report, rfl, hkey, hleast⟩ := (readMixins_otherKeys_eq_error_iff h).mp hloop
        exact .payload hread hkey hleast
      | ok mixins =>
        obtain ⟨hrefused, hmixins, hascending⟩ := (readMixins_otherKeys_eq_ok_iff h).mp hloop
        exact @DecodesTo.symbol registry record { core with mixins := mixins } hread hrefused
          hmixins hascending
  | _ => exact .notObject fun _ heq => nomatch heq

/-- The rules leave no choice. -/
theorem DecodesTo.outcome_eq (h : registry.Standard) {v : Value}
    {outcome : Except Failure Symbol} (hrules : DecodesTo registry v outcome) :
    (decode registry v).outcome = outcome := by
  cases hrules with
  | notObject hobject =>
    cases v with
    | object record => exact absurd rfl (hobject record)
    | _ => rfl
  | coreField hfaults hbefore =>
    rw [outcome_decode_object, readCore_eq_error_iff.mpr ⟨_, _, _, _, hfaults, hbefore, rfl⟩]
  | payload hcore hkey hleast =>
    rw [outcome_decode_object, readCore_eq_ok_iff.mpr hcore]
    simp only [(readMixins_otherKeys_eq_error_iff h).mpr ⟨_, _, rfl, hkey, hleast⟩, Except.map]
  | symbol hcore hrefused hmixins hascending =>
    rw [outcome_decode_object, readCore_eq_ok_iff.mpr hcore]
    simp only [(readMixins_otherKeys_eq_ok_iff h).mpr ⟨hrefused, hmixins, hascending⟩, Except.map]

/-- **What decoding a value comes to.**  Every value has exactly one outcome: it is no object, or
the earliest core field at fault is reported, or the least key whose payload is refused, or the
symbol has the core fields and the mixins that were read. -/
theorem outcome_decode_iff (registry : Registry) (hregistry : registry.Standard) (v : Value)
    (outcome : Except Failure Symbol) :
    (decode registry v).outcome = outcome ↔ DecodesTo registry v outcome := by
  constructor
  · rintro rfl
    exact decodesTo_outcome hregistry v
  · exact fun hrules => hrules.outcome_eq hregistry

theorem standard_notes : notes.Standard := by
  refine Registry.standard_of_extensions fun key descriptor hget => ?_
  have hmem := Entries.mem_of_get?_eq_some hget
  obtain ⟨rfl, rfl⟩ | ⟨rfl, rfl⟩ | ⟨rfl, rfl⟩ : (key = "note" ∧
      descriptor = (noteType "note").descriptor "note") ∨ (key = "names" ∧
      descriptor = (noteType "names").descriptor "names") ∨ (key = "draft" ∧
      descriptor = { (noteType "draft").descriptor "draft" with decoder? := none }) := by
    simpa [notes, Registry.ofDescriptors, Table.ofPairs, Table.put, Table.empty, Entries.put,
      MixinType.descriptor] using hmem
  · exact ⟨_, MixinType.isOf_descriptor _ _⟩
  · exact ⟨_, MixinType.isOf_descriptor _ _⟩
  · exact ⟨noteType "draft", rfl, .inr rfl, .inl rfl⟩

/-- A record with core fields in order, two payloads that are refused, one that is given up, one
that is not read, and a null. -/
def faulty : Entries Value :=
  [("note", .int 3), ("location", .int 3), ("draft", .int 3), ("availability", .int 3),
    ("type", .null), ("pathComponents", .list []),
    ("kind", .object [("identifier", .text "swift.func"), ("displayName", .text "F")]),
    ("names", .object [("title", .text "f")]), ("accessLevel", .text "public"),
    ("identifier", .object [("precise", .text "s:f")])]

/-- Of the two payloads that are refused, the one under the least key is reported; of two core
fields at fault, the one that is checked first, before any payload. -/
theorem decodesTo_of_faulty :
    DecodesTo notes (.object faulty)
        (.error (.decode (.payload "availability" ⟨"Availability", ⟨[.key "items"], .list, "int"⟩,
          []⟩))) ∧
      DecodesTo notes (.object (("docComment", .int 3) :: faulty.dropLast))
        (.error (.decode (.coreField "identifier" .missing))) :=
  ⟨(outcome_decode_iff notes standard_notes _ _).mp (by decide +kernel),
    (outcome_decode_iff notes standard_notes _ _).mp (by decide +kernel)⟩

end Symbol

end SymbolRecord
