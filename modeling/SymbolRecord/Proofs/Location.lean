import SymbolRecord.Proofs.Dispatch
import SymbolRecord.Proofs.Parts
/-!
# Records without one of their keys

A key under which nothing is ever refused can be taken out of a record without a trace: the record
fails as before or, when it is decoded, its symbol is the same but for what was stored under the
key.  This is so wherever the key stands among the others, because the loop over the keys fails at
the least key that is refused, whatever is found below it.  When the key is one that decoding reads,
it is not among those that are reported as left out either, and the verdict on the record is the
same as well.

Locations are under such a key.  Their type gives up what it would refuse, and since it is built in
no registration can put a stricter one in its place.

* `Symbol.takes_erase_iff`: what is taken from a record without one of its keys.
* `Symbol.outcome_decode_erase`, `Verdict.judge_erase`: decoding and judging such a record.
* `Location.Describes`, `Location.read_eq_accepted_iff`: the values that describe a location.
* `Symbol.SameButLocation`, `Symbol.location_neither_fails_nor_alters`: records with a location and
  without it.
-/

namespace SymbolRecord

namespace Symbol

variable {registry : Registry} {record : Entries Value} {key : String}

/-! ## A key that is never refused -/

/-- Without a key, a record has the other payloads, and each is taken as before. -/
theorem takes_erase_iff {other : String} {intake : Intake} :
    Takes registry (record.erase key) other intake ↔
      other ≠ key ∧ Takes registry record other intake := by
  constructor
  · rintro ⟨hcore, type, v, hdecoder, hget, hread⟩
    rw [Entries.get?_erase] at hget
    split at hget
    · nomatch hget
    · next hne => exact ⟨fun heq => hne heq.symm, hcore, type, v, hdecoder, hget, hread⟩
  · rintro ⟨hne, hcore, type, v, hdecoder, hget, hread⟩
    refine ⟨hcore, type, v, hdecoder, ?_, hread⟩
    rw [Entries.get?_erase, if_neg hne.symm, hget]

theorem readCore_erase (hkey : Core.isKey key = false) :
    readCore (record.erase key) = readCore record := by
  refine readCore_congr fun other hother => ?_
  rw [Entries.get?_erase, if_neg]
  rintro rfl
  rw [hkey] at hother
  nomatch hother

/-- **The loop without a key that is never refused** comes to the same, less what is stored under
that key. -/
theorem outcome_readMixins_erase (h : registry.Standard)
    (hnever : ∀ report, ¬ Takes registry record key (.refused report)) :
    (readMixins registry (record.erase key) (otherKeys (record.erase key)) .empty).outcome =
      (readMixins registry record (otherKeys record) .empty).outcome.map
        fun mixins => mixins.erase key := by
  cases hloop : (readMixins registry record (otherKeys record) .empty).outcome with
  | error failure =>
    obtain ⟨least, report, hfailure, htakes, hleast⟩ :=
      (readMixins_otherKeys_eq_error_iff h).mp hloop
    have hne : least ≠ key := by
      rintro rfl
      exact hnever report htakes
    exact (readMixins_otherKeys_eq_error_iff h).mpr
      ⟨least, report, hfailure, takes_erase_iff.mpr ⟨hne, htakes⟩,
        fun other report' hother => hleast other report' (takes_erase_iff.mp hother).2⟩
  | ok mixins =>
    obtain ⟨hrefused, hmixins, hascending⟩ := (readMixins_otherKeys_eq_ok_iff h).mp hloop
    refine (readMixins_otherKeys_eq_ok_iff h).mpr
      ⟨fun other report hother => hrefused other report (takes_erase_iff.mp hother).2,
        fun other m => ?_, ?_⟩
    · rw [Table.get?_erase, takes_erase_iff, ← hmixins]
      split
      · next heq => exact iff_of_false (by simp) fun hother => hother.1 heq.symm
      · next hne => exact (and_iff_right fun heq => hne heq.symm).symm
    · show (Entries.keys (mixins.entries.erase key)).Pairwise (· < ·)
      rw [Entries.keys_erase]
      exact hascending.filter _

/-- **A record without a key that is never refused** fails as before, or has the same symbol less
what is stored under that key. -/
theorem outcome_decode_erase (h : registry.Standard) (hkey : Core.isKey key = false)
    (hnever : ∀ report, ¬ Takes registry record key (.refused report)) :
    (decode registry (.object (record.erase key))).outcome =
      (decode registry (.object record)).outcome.map
        fun symbol => { symbol with mixins := symbol.mixins.erase key } := by
  rw [outcome_decode_object, outcome_decode_object, readCore_erase hkey]
  cases readCore record with
  | error error => rfl
  | ok core =>
    simp only [outcome_readMixins_erase h hnever]
    cases (readMixins registry record (otherKeys record) .empty).outcome with
    | error failure => rfl
    | ok mixins => rfl

/-- A key that is decoded is not reported, so without it the same keys are. -/
theorem unrecognizedKeys_erase (hdecoder : (registry.decoder? key).isSome) :
    unrecognizedKeys registry (record.erase key) = unrecognizedKeys registry record := by
  refine Entries.eq_of_pairwise_lt (pairwise_unrecognizedKeys _ _) (pairwise_unrecognizedKeys _ _)
    fun other => ?_
  rw [mem_unrecognizedKeys, mem_unrecognizedKeys, Entries.keys_erase, List.mem_filter]
  constructor
  · rintro ⟨⟨hmem, -⟩, hcore, hnone⟩
    exact ⟨hmem, hcore, hnone⟩
  · rintro ⟨hmem, hcore, hnone⟩
    have hne : other ≠ key := by
      rintro rfl
      rw [hnone] at hdecoder
      nomatch hdecoder
    exact ⟨⟨hmem, decide_eq_true hne⟩, hcore, hnone⟩

end Symbol

namespace Verdict

/-- **The verdict on a record without a key that is decoded and never refused** is the same. -/
theorem judge_erase {registry : Registry} {record : Entries Value} {key : String}
    (h : registry.Standard) (hkey : Core.isKey key = false)
    (hdecoder : (registry.decoder? key).isSome)
    (hnever : ∀ report, ¬ Symbol.Takes registry record key (.refused report)) (strict : Bool)
    (place : RecordPlace) :
    judge registry strict place (.object (record.erase key)) =
      judge registry strict place (.object record) := by
  have hleft : leftOut registry (.object (record.erase key)) = leftOut registry (.object record) :=
    Symbol.unrecognizedKeys_erase hdecoder
  rw [judge, judge, hleft, Symbol.outcome_decode_erase h hkey hnever]
  -- the verdict does not look at the symbol
  cases (Symbol.decode registry (.object record)).outcome with
  | error failure => rfl
  | ok symbol => rfl

end Verdict

/-! ## Values that describe a location -/

/-- A value describes a position: it is an object with a line and a character that are accepted as
integers. -/
inductive Position.Describes : Value → Position → Prop where
  /-- The object with both. -/
  | object {entries : Entries Value} {v w : Value} {line character : Int}
    (hv : entries.get? "line" = some v) (hline : Codec.integer.read v = .accepted line)
    (hw : entries.get? "character" = some w)
    (hcharacter : Codec.integer.read w = .accepted character) :
    Describes (.object entries) ⟨line, character⟩

/-- A value describes a location: it is an object with a text as its URI and an object that
describes a position. -/
inductive Location.Describes : Value → Location → Prop where
  /-- The object with both. -/
  | object {entries : Entries Value} {v : Value} {uri : String} {position : Position}
    (huri : entries.get? "uri" = some (.text uri)) (hv : entries.get? "position" = some v)
    (hposition : Position.Describes v position) : Describes (.object entries) ⟨uri, position⟩

theorem Position.read_eq_accepted_iff {v : Value} {position : Position} :
    codec.read v = .accepted position ↔ Describes v position := by
  cases v with
  | object entries =>
    show ((Fields.start Position.mk
      |>.required (.same "line") Codec.integer line
      |>.required (.same "character") Codec.integer character).read entries) = _ ↔ _
    simp only [Fields.read_required_eq_accepted_iff, Slot.value?_same]
    constructor
    · rintro ⟨_, w, character, ⟨_, v, line, hstart, hv, hline, rfl⟩, hw, hcharacter, rfl⟩
      obtain rfl := Reading.accepted.inj hstart
      exact .object hv hline hw hcharacter
    · rintro ⟨hv, hline, hw, hcharacter⟩
      exact ⟨_, _, _, ⟨_, _, _, rfl, hv, hline, rfl⟩, hw, hcharacter, rfl⟩
  | _ => exact iff_of_false (by simp [codec, Fields.codec, Reading.fail]) (by rintro ⟨⟩)

theorem Location.read_eq_accepted_iff {v : Value} {location : Location} :
    codec.read v = .accepted location ↔ Describes v location := by
  cases v with
  | object entries =>
    show ((Fields.start mk
      |>.required (.same "uri") Codec.text uri
      |>.required (.same "position") Position.codec position).read entries) = _ ↔ _
    simp only [Fields.read_required_eq_accepted_iff, Slot.value?_same,
      Codec.read_text_eq_accepted_iff, Position.read_eq_accepted_iff]
    constructor
    · rintro ⟨_, w, position, ⟨_, v, uri, hstart, huri, rfl, rfl⟩, hw, hposition, rfl⟩
      obtain rfl := Reading.accepted.inj hstart
      exact .object huri hw hposition
    · rintro ⟨huri, hv, hposition⟩
      exact ⟨_, _, _, ⟨_, _, _, rfl, huri, rfl, rfl⟩, hv, hposition, rfl⟩
  | _ => exact iff_of_false (by simp [codec, Fields.codec, Reading.fail]) (by rintro ⟨⟩)

/-! ## The type of locations -/

namespace MixinType

/-- A type that gives up what it would refuse does not refuse anything. -/
theorem read_lenient_ne_refused (type : MixinType) (v : Value) (report : Report) :
    type.lenient.read v ≠ .refused report := by
  intro hread
  simp only [lenient] at hread
  cases hintake : type.read v with
  | refused report' =>
    rw [hintake] at hread
    cases hread
  | mixin m =>
    rw [hintake] at hread
    cases hread
  | dropped issues =>
    rw [hintake] at hread
    cases hread

theorem read_location_eq_mixin_iff {v : Value} {m : Mixin} :
    location.read v = .mixin m ↔
      ∃ location, m = .location location ∧ Location.Describes v location := by
  simp only [location, lenient, ofCodec]
  cases hread : Location.codec.read v with
  | accepted found =>
    have hfound := Location.read_eq_accepted_iff.mp hread
    constructor
    · intro heq
      exact ⟨found, (Intake.mixin.inj heq).symm, hfound⟩
    · rintro ⟨location, rfl, hlocation⟩
      rw [Reading.accepted.inj (hread.symm.trans (Location.read_eq_accepted_iff.mpr hlocation))]
  | rejected first others =>
    refine iff_of_false (by rintro ⟨⟩) ?_
    rintro ⟨location, -, hlocation⟩
    rw [Location.read_eq_accepted_iff.mpr hlocation] at hread
    cases hread

end MixinType

/-- Whatever is registered, locations are read by their own type. -/
theorem Registry.decoder?_location (registry : Registry) :
    registry.decoder? "location" = some MixinType.location.decode := by
  rw [decoder?, resolve?_builtin registry .empty (by decide)]
  rfl

namespace Symbol

variable {registry : Registry} {record : Entries Value}

/-- What is taken under a key counts for as much as what the type that reads the key makes of the
payload. -/
theorem Takes.exists_settle_eq {key : String} {type : MixinType} {intake : Intake}
    (htakes : Takes registry record key intake)
    (hdecoder : registry.decoder? key = some type.decode) :
    ∃ v, record.get? key = some v ∧ settle key intake = settle key (type.read v) := by
  obtain ⟨hcore, _, v, -, hget, -⟩ := id htakes
  have hread : Takes registry record key (type.read v) := ⟨hcore, type, v, hdecoder, hget, rfl⟩
  exact ⟨v, hget, htakes.readMixin_eq.symm.trans hread.readMixin_eq⟩

/-- **No location is refused.** -/
theorem not_takes_location_refused (report : Report) :
    ¬ Takes registry record "location" (.refused report) := by
  intro htakes
  obtain ⟨v, -, heq⟩ := htakes.exists_settle_eq (Registry.decoder?_location registry)
  obtain ⟨report', hread, -⟩ := settle_eq_error_iff.mp heq.symm
  exact MixinType.read_lenient_ne_refused _ v report' hread

/-- A record has a location when its payload describes one. -/
theorem takes_location_mixin_iff {payload : Value}
    (hpayload : record.get? "location" = some payload) {m : Mixin} :
    Takes registry record "location" (.mixin m) ↔
      ∃ location, m = .location location ∧ Location.Describes payload location := by
  rw [← MixinType.read_location_eq_mixin_iff]
  constructor
  · intro htakes
    obtain ⟨v, hget, heq⟩ := htakes.exists_settle_eq (Registry.decoder?_location registry)
    obtain rfl := Option.some_inj.mp (hpayload.symm.trans hget)
    exact settle_eq_some_iff.mp heq.symm
  · exact fun hread =>
      ⟨rfl, MixinType.location, payload, Registry.decoder?_location registry, hpayload, hread⟩

/-! ## Records with a location and without it -/

/-- What decoding comes to with a payload of a location and what it comes to without are the same
but for the location. -/
inductive SameButLocation (payload : Value) :
    Except Failure Symbol → Except Failure Symbol → Prop where
  /-- Both fail, with one error. -/
  | failure (error : DecodeError) :
    SameButLocation payload (.error (.decode error)) (.error (.decode error))
  /-- Both succeed, with the same core fields and the same other mixins.  The first symbol has the
  location that the payload describes, if it describes one, and the second has none. -/
  | symbols {symbol bare : Symbol} (hcore : bare.toCore = symbol.toCore)
    (hothers : ∀ key, key ≠ "location" → bare.mixins.get? key = symbol.mixins.get? key)
    (hlocation : ∀ m, symbol.mixins.get? "location" = some m ↔
      ∃ location, m = .location location ∧ Location.Describes payload location)
    (hnone : bare.mixins.get? "location" = none) :
    SameButLocation payload (.ok symbol) (.ok bare)

/-- A record is decoded the same without its location. -/
theorem sameButLocation_decode (h : registry.Standard) {payload : Value}
    (hpayload : record.get? "location" = some payload) :
    SameButLocation payload (decode registry (.object record)).outcome
      (decode registry (.object (record.erase "location"))).outcome := by
  have hkey : Core.isKey "location" = false := rfl
  rw [outcome_decode_erase h hkey not_takes_location_refused]
  cases hdecode : (decode registry (.object record)).outcome with
  | error failure =>
    obtain ⟨error, rfl⟩ := failsBy_decode h _ failure hdecode
    exact .failure error
  | ok symbol =>
    refine .symbols rfl (fun key hne => ?_) (fun m => ?_) ?_
    · exact (Table.get?_erase _ _ _).trans (if_neg hne.symm)
    · rw [get?_eq_some_iff_takes h (decode_object_ok_iff.mp hdecode).2,
        takes_location_mixin_iff hpayload]
    · exact (Table.get?_erase _ _ _).trans (if_pos rfl)

end Symbol

namespace Verdict

variable {registry : Registry} {record : Entries Value}

theorem judge_location (h : registry.Standard) (strict : Bool) (place : RecordPlace) :
    judge registry strict place (.object (record.erase "location")) =
      judge registry strict place (.object record) := by
  refine judge_erase h rfl ?_ Symbol.not_takes_location_refused strict place
  rw [Registry.decoder?_location]
  rfl

/-- Contents that differ in the location of one record have the same verdict. -/
theorem outcome_ofContent_location [Wording] (h : registry.Standard) (strict : Bool) {path : Path}
    {content content' : Bytes} {place : RecordPlace} {before after : List Part}
    (hparts : parts path content = before ++ ⟨place, .ok (.object record)⟩ :: after)
    (hparts' : parts path content' =
      before ++ ⟨place, .ok (.object (record.erase "location"))⟩ :: after) :
    (ofContent registry strict path content').outcome =
      (ofContent registry strict path content).outcome := by
  rw [outcome_ofContent h, outcome_ofContent h, hparts, hparts', List.map_append, List.map_append,
    List.map_cons, List.map_cons]
  simp only [Part.judge, judge_location h]

end Verdict

namespace Symbol

/-- **A location neither fails nor alters a record.**  With and without its location, a record fails
for the same reason or is decoded with the same core fields and the same other mixins, and the first
symbol has a location just when the payload is an object with a text as its URI and a position
whose line and character are accepted as integers.  This is so whatever the payload is, whatever
else is wrong with the record, and whatever mixin types are registered.  The verdict on the record
is the same, strict or not, and so is the verdict on a file in which the one stands in the place of
the other. -/
theorem location_neither_fails_nor_alters [Wording] (registry : Registry)
    (hregistry : registry.Standard) (record : Entries Value) (payload : Value)
    (hpayload : record.get? "location" = some payload) :
    SameButLocation payload (decode registry (.object record)).outcome
      (decode registry (.object (record.erase "location"))).outcome ∧
    (∀ (strict : Bool) (place : RecordPlace), ∃ verdict,
      (Verdict.ofRecord registry strict place (.object record)).outcome = .ok verdict ∧
      (Verdict.ofRecord registry strict place (.object (record.erase "location"))).outcome =
        .ok verdict) ∧
    ∀ (strict : Bool) (path : Path) (content content' : Bytes) (place : RecordPlace)
      (before after : List Verdict.Part),
      Verdict.parts path content = before ++ ⟨place, .ok (.object record)⟩ :: after →
      Verdict.parts path content' =
        before ++ ⟨place, .ok (.object (record.erase "location"))⟩ :: after →
      ∃ verdict,
        (Verdict.ofFile registry strict path (some (.file content))).outcome = .ok verdict ∧
        (Verdict.ofFile registry strict path (some (.file content'))).outcome = .ok verdict := by
  refine ⟨sameButLocation_decode hregistry hpayload, fun strict place => ?_,
    fun strict path content content' place before after hparts hparts' => ?_⟩
  · refine ⟨_, Verdict.outcome_ofRecord hregistry strict place _, ?_⟩
    rw [Verdict.outcome_ofRecord hregistry, Verdict.judge_location hregistry]
  · have hcontent := Verdict.outcome_ofContent hregistry strict path content
    exact ⟨_, hcontent,
      (Verdict.outcome_ofContent_location hregistry strict hparts hparts').trans hcontent⟩

attribute [local instance] Wording.plain

deriving instance DecidableEq for RecordPlace
deriving instance DecidableEq for Verdict.Part

/-- A record with a note and with a location, of which the integers are not written as such. -/
def located : Entries Value :=
  plainRecord.put "location"
    (.object [("uri", .text "file:///f"),
      ("position", .object [("line", .text "3"), ("character", .bool true)])])

/-- A content that is a list of a record and a number. -/
def listing (record : Entries Value) : Bytes :=
  Utf8.encode (Json.write .compact 0 (.list [.object record, .int 3]))

/-- The record is decoded with its location and without, and a file with the record in a list is
judged the same without the location. -/
theorem located_without_location :
    (∃ symbol bare, (decode notes (.object located)).outcome = .ok symbol ∧
      (decode notes (.object (located.erase "location"))).outcome = .ok bare ∧
      bare.toCore = symbol.toCore ∧
      bare.mixins.get? "note" = symbol.mixins.get? "note" ∧
      symbol.mixins.get? "location" = some (.location ⟨"file:///f", ⟨3, 1⟩⟩) ∧
      bare.mixins.get? "location" = none) ∧
    ∃ verdict,
      (Verdict.ofFile notes true (Path.ofText "kit.json")
        (some (.file (listing located)))).outcome = .ok verdict ∧
      (Verdict.ofFile notes true (Path.ofText "kit.json")
        (some (.file (listing (located.erase "location"))))).outcome = .ok verdict := by
  obtain ⟨hsame, -, hfiles⟩ :=
    location_neither_fails_nor_alters notes standard_notes located _ rfl
  refine ⟨?_, hfiles true (Path.ofText "kit.json") (listing located)
    (listing (located.erase "location")) ⟨"kit.json", none, some 0⟩ []
    [⟨⟨"kit.json", none, some 1⟩, .ok (.int 3)⟩] (by decide +kernel) (by decide +kernel)⟩
  have hdecodes : (decode notes (.object located)).outcome.isOk = true := by decide +kernel
  generalize (decode notes (.object located)).outcome = first at hsame hdecodes ⊢
  generalize (decode notes (.object (located.erase "location"))).outcome = second at hsame ⊢
  cases hsame with
  | failure error => nomatch hdecodes
  | symbols hcore hothers hlocation hnone =>
    exact ⟨_, _, rfl, rfl, hcore, hothers "note" (by decide),
      (hlocation _).mpr ⟨_, rfl, .object rfl rfl (.object rfl rfl rfl rfl)⟩, hnone⟩

end Symbol

end SymbolRecord
