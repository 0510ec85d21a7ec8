import SymbolRecord.Proofs.Lines
import SymbolRecord.Proofs.Yield
/-!
# Which kind a token names

A token may name a well-known kind with a language in front, and some tokens have a full stop of
their own.  So taking a token for what it is comes before taking its first part away, and the two
overlap: `method` behind the word `type` is not a method of a language `type` but the kind
`type.method`.  This module says of every text which kind it names, without the two look-ups: the
kind whose token it is, or else the one whose token follows its first full stop.

The words in front of a full stop that are no language are few, because only five tokens have a full
stop, and what follows it is a token of its own in three of them.

* `KindIdentifier.Names`: a text names a well-known kind.
* `KindIdentifier.parse_eq_ofKnown_iff`, `KindIdentifier.parse_cases`: what a text is parsed as.
* `KindIdentifier.parse_language`: a token behind a language.
* `Kind.Shows`, `Kind.read_object_eq_accepted_iff`: kinds as they are read from objects.
* `KindIdentifier.which_kind_a_token_names`: all of this, for every text.
-/

namespace SymbolRecord

/-! ## Tokens with a full stop -/

/-- What stands behind the first full stop of a token is a token in three cases. -/
theorem KnownKind.bind_remainder?_token (kind : KnownKind) :
    (KindIdentifier.remainder? kind.token).bind ofToken? =
      match kind with
      | .typeMethod => some .method
      | .typeProperty => some .property
      | .typeSubscript => some .subscript
      | _ => none := by
  cases kind <;> decide

namespace KindIdentifier

/-- A text names a well-known kind: it is the token of the kind, or it is no token and the token of
the kind stands behind its first full stop. -/
inductive Names (raw : String) (kind : KnownKind) : Prop where
  /-- The text is the token. -/
  | token (htoken : raw = kind.token)
  /-- The token stands behind a language. -/
  | behind (hother : ∀ other : KnownKind, raw ≠ other.token) (language : String)
    (hlanguage : '.' ∉ language.toList) (hraw : raw = language ++ "." ++ kind.token)

variable {raw rest language : String} {kind : KnownKind}

/-- What a text leaves behind its first full stop. -/
theorem remainder?_eq_some_iff :
    remainder? raw = some rest ↔
      ∃ language : String, '.' ∉ language.toList ∧ raw = language ++ "." ++ rest := by
  have hcut : remainder? raw = some rest ↔ raw.toList.dropWhile (· ≠ '.') = '.' :: rest.toList := by
    rw [remainder?]
    cases hdrop : raw.toList.dropWhile (· ≠ '.') with
    | nil => simp
    | cons c after =>
      obtain ⟨rfl, -⟩ := dropWhile_ne_eq_cons_iff.mp hdrop
      simp only [Option.some.injEq, List.cons.injEq, true_and]
      exact ⟨fun heq => by rw [← heq, String.toList_ofList], fun heq => by
        rw [heq, String.ofList_toList]⟩
  rw [hcut, dropWhile_ne_eq_cons_iff]
  constructor
  · rintro ⟨-, before, hbefore, hraw⟩
    refine ⟨String.ofList before, by rwa [String.toList_ofList], String.toList_inj.mp ?_⟩
    rw [hraw, String.toList_append, String.toList_append, String.toList_ofList, List.append_assoc]
    rfl
  · rintro ⟨language, hlanguage, rfl⟩
    refine ⟨rfl, language.toList, hlanguage, ?_⟩
    rw [String.toList_append, String.toList_append, List.append_assoc]
    rfl

theorem ofToken?_eq_none_iff :
    KnownKind.ofToken? raw = none ↔ ∀ other : KnownKind, raw ≠ other.token := by
  constructor
  · rintro hnone other rfl
    rw [KnownKind.ofToken?_token] at hnone
    nomatch hnone
  · intro hother
    cases hraw : KnownKind.ofToken? raw with
    | none => rfl
    | some other => exact absurd (KnownKind.ofToken?_eq_some_iff.mp hraw) (hother other)

/-- **Looking a text up finds the kind that it names**, and nothing else. -/
theorem known?_eq_some_iff : known? raw = some kind ↔ Names raw kind := by
  rw [known?]
  cases hraw : KnownKind.ofToken? raw with
  | some other =>
    obtain rfl := KnownKind.ofToken?_eq_some_iff.mp hraw
    simp only [Option.some.injEq]
    constructor
    · rintro rfl
      exact .token rfl
    · rintro (htoken | ⟨hother, -⟩)
      · exact KnownKind.token_injective htoken
      · exact absurd rfl (hother other)
  | none =>
    have hother := ofToken?_eq_none_iff.mp hraw
    simp only [Option.bind_eq_some_iff, remainder?_eq_some_iff, KnownKind.ofToken?_eq_some_iff]
    constructor
    · rintro ⟨rest, ⟨language, hlanguage, hsplit⟩, rfl⟩
      exact .behind hother language hlanguage hsplit
    · rintro (htoken | ⟨-, language, hlanguage, hsplit⟩)
      · exact absurd htoken (hother kind)
      · exact ⟨kind.token, ⟨language, hlanguage, hsplit⟩, rfl⟩

/-! ## Parsing -/

/-- **A text is parsed as a well-known kind when it names it.** -/
theorem parse_eq_ofKnown_iff : parse raw = ofKnown kind ↔ Names raw kind := by
  rw [← known?_eq_some_iff, parse]
  cases hraw : known? raw with
  | some other =>
    simp only [ofKnown, mk.injEq, Option.some.injEq]
    exact ⟨KnownKind.token_injective, congrArg KnownKind.token⟩
  | none =>
    -- a custom kind has the text itself as its token, which would be known
    refine iff_of_false (fun heq => ?_) (Option.some_ne_none kind).symm
    obtain rfl : raw = kind.token := congrArg KindIdentifier.token heq
    rw [known?, KnownKind.ofToken?_token] at hraw
    exact Option.some_ne_none kind hraw

theorem isCustom_ofKnown (kind : KnownKind) : (ofKnown kind).isCustom = false := by
  rw [isCustom, ofKnown, KnownKind.ofToken?_token]
  rfl

/-- A text is parsed as the kind that it names, or else kept as it is, as a kind of its own. -/
theorem parse_cases (raw : String) :
    (∃ kind, Names raw kind ∧ parse raw = ofKnown kind ∧ isKnown raw = true) ∨
      (∀ kind, ¬ Names raw kind) ∧ parse raw = ⟨raw⟩ ∧ (parse raw).isCustom = true ∧
        isKnown raw = false := by
  cases hraw : known? raw with
  | some kind =>
    have hnames := known?_eq_some_iff.mp hraw
    exact .inl ⟨kind, hnames, parse_eq_ofKnown_iff.mpr hnames, by rw [isKnown, hraw]; rfl⟩
  | none =>
    have hnames : ∀ kind, ¬ Names raw kind := by
      intro kind hkind
      rw [known?_eq_some_iff.mpr hkind] at hraw
      nomatch hraw
    have hparse : parse raw = ⟨raw⟩ := by rw [parse, hraw]
    have htoken : KnownKind.ofToken? raw = none :=
      ofToken?_eq_none_iff.mpr fun other heq => hnames other (.token heq)
    refine .inr ⟨hnames, hparse, ?_, by rw [isKnown, hraw]; rfl⟩
    rw [hparse, isCustom, htoken]
    rfl

theorem isKnown_eq_not_isCustom (raw : String) : isKnown raw = !(parse raw).isCustom := by
  rcases parse_cases raw with ⟨kind, -, hparse, hknown⟩ | ⟨-, -, hcustom, hknown⟩
  · rw [hknown, hparse, isCustom_ofKnown]
    rfl
  · rw [hknown, hcustom]
    rfl

/-! ## Tokens behind a language -/

theorem remainder?_language (hlanguage : '.' ∉ language.toList) (rest : String) :
    remainder? (language ++ "." ++ rest) = some rest :=
  remainder?_eq_some_iff.mpr ⟨language, hlanguage, rfl⟩

/-- **A token behind a language names the same kind, unless the whole is a token.** -/
theorem parse_language (hlanguage : '.' ∉ language.toList) (kind : KnownKind) :
    parse (language ++ "." ++ kind.token) = parse kind.token ↔
      ∀ other : KnownKind, language ++ "." ++ kind.token ≠ other.token := by
  rw [parse_eq_ofKnown_iff.mpr (.token rfl : Names kind.token kind), parse_eq_ofKnown_iff]
  constructor
  · rintro (htoken | ⟨hother, -⟩)
    · -- a token is not its own part behind a full stop
      have hlength := congrArg (fun s => s.toList.length) htoken
      simp only [String.toList_append, List.length_append] at hlength
      have hstop : ".".toList.length = 1 := rfl
      omega
    · exact hother
  · exact fun hother => .behind hother language hlanguage rfl

/-- **The words that are no language** in front of a token: `type` before three of them. -/
theorem exists_token_eq_iff (hlanguage : '.' ∉ language.toList) (kind : KnownKind) :
    (∃ other : KnownKind, language ++ "." ++ kind.token = other.token) ↔
      language = "type" ∧ kind ∈ [.method, .property, .subscript] := by
  constructor
  · rintro ⟨other, heq⟩
    have hrest := KnownKind.bind_remainder?_token other
    rw [← heq, remainder?_language hlanguage, Option.bind_some, KnownKind.ofToken?_token] at hrest
    have hcancel : ∀ word : String, language ++ "." ++ kind.token = word ++ "." ++ kind.token →
        language = word := by
      intro word hword
      rw [String.append_assoc, String.append_assoc] at hword
      exact (String.append_left_inj _).mp hword
    cases other with
    | typeMethod =>
      obtain rfl := Option.some_inj.mp hrest
      exact ⟨hcancel "type" heq, by decide⟩
    | typeProperty =>
      obtain rfl := Option.some_inj.mp hrest
      exact ⟨hcancel "type" heq, by decide⟩
    | typeSubscript =>
      obtain rfl := Option.some_inj.mp hrest
      exact ⟨hcancel "type" heq, by decide⟩
    | _ => nomatch hrest
  · rintro ⟨rfl, hkind⟩
    simp only [List.mem_cons, List.not_mem_nil, or_false] at hkind
    rcases hkind with rfl | rfl | rfl
    · exact ⟨.typeMethod, rfl⟩
    · exact ⟨.typeProperty, rfl⟩
    · exact ⟨.typeSubscript, rfl⟩

end KindIdentifier

/-! ## Kinds in records -/

namespace Kind

/-- The display name of an object that describes a kind; without one it is empty. -/
def Shows (entries : Entries Value) (shown : String) : Prop :=
  Slot.value? ⟨"displayName", "display_name"⟩ entries = some (.text shown) ∨
    Slot.value? ⟨"displayName", "display_name"⟩ entries = none ∧ shown = ""

/-- **A kind is read from an object** that has a token and, if any, a display name that is a text.
The token is parsed. -/
theorem read_object_eq_accepted_iff {entries : Entries Value} {raw : String} {kind : Kind}
    (hraw : entries.get? "identifier" = some (.text raw)) :
    codec.read (.object entries) = .accepted kind ↔
      kind.identifier = KindIdentifier.parse raw ∧ Shows entries kind.displayName := by
  show ((Fields.start mk
    |>.required (.same "identifier") KindIdentifier.codec identifier
    |>.defaulted ⟨"displayName", "display_name"⟩ Codec.text "" displayName).read entries) = _ ↔ _
  simp only [Fields.defaulted, Fields.read_and_eq_accepted_iff,
    Fields.read_required_eq_accepted_iff, Fields.read_one_eq_accepted_iff, Slot.value?_same, hraw,
    Codec.read_text_eq_accepted_iff]
  constructor
  · rintro ⟨_, shown, ⟨_, v, identifier, hstart, hv, hread, rfl⟩, hshown, rfl⟩
    obtain rfl := Reading.accepted.inj hstart
    obtain rfl := Option.some_inj.mp hv
    refine ⟨(Reading.accepted.inj hread).symm, hshown.imp ?_ ?_⟩
    · rintro ⟨v, hv, rfl⟩
      exact hv
    · rintro ⟨hnone, hempty⟩
      exact ⟨hnone, (Option.some_inj.mp hempty).symm⟩
  · rintro ⟨hidentifier, hshown⟩
    refine ⟨mk (KindIdentifier.parse raw), kind.displayName,
      ⟨mk, .text raw, KindIdentifier.parse raw, rfl, rfl, rfl, rfl⟩, hshown.imp ?_ ?_, ?_⟩
    · exact fun hsome => ⟨_, hsome, rfl⟩
    · rintro ⟨hnone, hempty⟩
      exact ⟨hnone, congrArg some hempty.symm⟩
    · rw [← hidentifier]

end Kind

namespace KindIdentifier

/-- **Which kind a token names.**  A text is parsed as a well-known kind just when it is the token
of that kind, or is no token and has that token behind its first full stop; every other text is kept
as it is, as a kind of its own.  So parsing once is parsing for good, and a text is known just when
the kind that it is parsed as is not a kind of its own.  A token behind a language is the same kind
as without, except where the two together are a token, which is when `type` stands before `method`,
`property` or `subscript`.  A kind that is read from an object with the text, whatever else is in
the object, is written with the token of the kind that the text is parsed as. -/
theorem which_kind_a_token_names (raw : String) :
    (∀ kind, parse raw = ofKnown kind ↔ Names raw kind) ∧
    ((∀ kind, ¬ Names raw kind) → parse raw = ⟨raw⟩ ∧ (parse raw).isCustom = true) ∧
    parse (parse raw).token = parse raw ∧
    isKnown raw = !(parse raw).isCustom ∧
    (∀ (language : String) (kind : KnownKind), '.' ∉ language.toList →
      (parse (language ++ "." ++ kind.token) = parse kind.token ↔
        ∀ other : KnownKind, language ++ "." ++ kind.token ≠ other.token) ∧
      ((∃ other : KnownKind, language ++ "." ++ kind.token = other.token) ↔
        language = "type" ∧ kind ∈ [.method, .property, .subscript])) ∧
    ∀ entries : Entries Value, entries.get? "identifier" = some (.text raw) →
      (∀ shown, Kind.Shows entries shown →
        Kind.codec.read (.object entries) = .accepted ⟨parse raw, shown⟩) ∧
      ∀ kind, Kind.codec.read (.object entries) = .accepted kind →
        Kind.Shows entries kind.displayName ∧
        Kind.codec.wire kind = .object [("identifier", .text (parse raw).token),
          ("displayName", .text kind.displayName)] := by
  refine ⟨fun kind => parse_eq_ofKnown_iff, fun hnames => ?_, parse_parse raw,
    isKnown_eq_not_isCustom raw, fun language kind hlanguage =>
      ⟨parse_language hlanguage kind, exists_token_eq_iff hlanguage kind⟩,
    fun entries hraw => ⟨fun shown hshown => ?_, fun kind hread => ?_⟩⟩
  · rcases parse_cases raw with ⟨kind, hkind, -⟩ | ⟨-, hparse, hcustom, -⟩
    · exact absurd hkind (hnames kind)
    · exact ⟨hparse, hcustom⟩
  · exact (Kind.read_object_eq_accepted_iff hraw).mpr ⟨rfl, hshown⟩
  · obtain ⟨hidentifier, hshown⟩ := (Kind.read_object_eq_accepted_iff hraw).mp hread
    refine ⟨hshown, ?_⟩
    rw [← hidentifier]
    rfl

/-- A method of Objective-C is a method, and a method of a type is not; what is read from an object
with the first is written without its language. -/
theorem method_behind_languages :
    parse "objc.method" = ofKnown .method ∧
      parse ("type" ++ "." ++ KnownKind.method.token) ≠ parse KnownKind.method.token ∧
      ∃ kind, Kind.codec.read (.object [("display_name", .text "Method"),
          ("identifier", .text "objc.method")]) = .accepted kind ∧
        Kind.codec.wire kind =
          .object [("identifier", .text "method"), ("displayName", .text "Method")] := by
  obtain ⟨hnames, -, -, -, hlanguage, hread⟩ := which_kind_a_token_names "objc.method"
  have hmethod : parse "objc.method" = ofKnown .method :=
    (hnames .method).mpr (.behind (fun other => by cases other <;> decide) "objc" (by decide) rfl)
  obtain ⟨hsame, hwhole⟩ := hlanguage "type" .method (by decide)
  obtain ⟨haccepted, hwritten⟩ := hread [("display_name", .text "Method"),
    ("identifier", .text "objc.method")] rfl
  refine ⟨hmethod, fun heq => ?_, _, haccepted "Method" (.inl rfl), ?_⟩
  · obtain ⟨other, hother⟩ := hwhole.mpr ⟨rfl, by decide⟩
    exact hsame.mp heq other hother
  · have hwire := (hwritten _ (haccepted "Method" (.inl rfl))).2
    rwa [hmethod] at hwire

end KindIdentifier

end SymbolRecord
