import SymbolRecord.Proofs.Core
import SymbolRecord.Proofs.Mixin
/-!
# What codecs can yield

Reading is lenient about what is written, but not every record can come out of it: kinds are
parsed, and trees of parameters have a limited height.  What holds of the parts that were read holds
of the record, so each fact is proved by taking the reading of a record apart.

* `Reading.both_eq_accepted`, `Fields.read_and`, `Fields.read_list`: parts of what was read.
* `Fields.read_one_eq_accepted_iff`, `Fields.read_required_eq_accepted_iff`: what a field yields,
  from its value.
* `KindIdentifier.parse_parse`: parsing a kind once is parsing it for good.
* `FunctionParameter.height_le_of_read`: no tree is higher than what is read.
* `Symbol.parse_kind_of_readCore`: the kind of a record that was read stays as it is.
* `MixinType.builtinType?_of_read`: what built-in types yield.
-/

namespace SymbolRecord

/-! ## Taking a reading apart -/

namespace Reading

variable {α β γ : Type}

theorem both_eq_accepted {f : α → β → γ} {r : Reading α} {s : Reading β} {c : γ}
    (h : both f r s = .accepted c) : ∃ a b, r = .accepted a ∧ s = .accepted b ∧ f a b = c := by
  cases r with
  | rejected => exact absurd h (by simp [both])
  | accepted a =>
    cases s with
    | rejected => exact absurd h (by simp [both])
    | accepted b => exact ⟨a, b, rfl, rfl, accepted.inj h⟩

theorem map_eq_accepted {f : α → β} {r : Reading α} {b : β} (h : r.map f = .accepted b) :
    ∃ a, r = .accepted a ∧ f a = b := by
  cases r with
  | rejected => exact absurd h (by simp [map])
  | accepted a => exact ⟨a, rfl, accepted.inj h⟩

theorem within_eq_accepted {step : Step} {r : Reading α} {a : α}
    (h : r.within step = .accepted a) : r = .accepted a := by
  cases r with
  | rejected => exact absurd h (by simp [within])
  | accepted => exact h

end Reading

/-- The value of a field, under its key or else under its name. -/
def Slot.value? (slot : Slot) (entries : Entries Value) : Option Value :=
  (entries.get? slot.key).or (entries.get? slot.name)

theorem Slot.value?_eq_map (slot : Slot) (entries : Entries Value) :
    slot.value? entries = (slot.find? entries).map Prod.snd := by
  rw [value?, find?]
  cases entries.get? slot.key with
  | some v => rfl
  | none => cases entries.get? slot.name <;> rfl

theorem Slot.value?_same (name : String) (entries : Entries Value) :
    (same name).value? entries = entries.get? name :=
  Option.or_self

namespace Fields

variable {ρ α β : Type}

theorem read_and_eq_accepted_iff {description : Fields ρ (α → β)} {field : Fields ρ α}
    {entries : Entries Value} {b : β} :
    (description.and field).read entries = .accepted b ↔
      ∃ f a, description.read entries = .accepted f ∧ field.read entries = .accepted a ∧
        f a = b := by
  constructor
  · exact Reading.both_eq_accepted
  · rintro ⟨f, a, hdescription, hfield, rfl⟩
    simp only [and, hdescription, hfield, Reading.both]

theorem read_and {description : Fields ρ (α → β)} {field : Fields ρ α} {entries : Entries Value}
    {b : β} (h : (description.and field).read entries = .accepted b) :
    ∃ f a, description.read entries = .accepted f ∧ field.read entries = .accepted a ∧ f a = b :=
  read_and_eq_accepted_iff.mp h

/-- A field yields what its codec reads from its value, or its default where it has no value. -/
theorem read_one_eq_accepted_iff {slot : Slot} {codec : Codec α} {default? : Option α}
    {get : ρ → α} {entries : Entries Value} {a : α} :
    (one slot codec default? get).read entries = .accepted a ↔
      (∃ v, slot.value? entries = some v ∧ codec.read v = .accepted a) ∨
        slot.value? entries = none ∧ default? = some a := by
  simp only [one, Slot.value?_eq_map]
  cases slot.find? entries with
  | some found =>
    simp only [Option.map_some, Option.some.injEq, exists_eq_left', reduceCtorEq, false_and,
      or_false]
    exact ⟨Reading.within_eq_accepted, fun hread => by rw [hread]; rfl⟩
  | none => cases default? <;> simp

/-- A field without a default must have a value. -/
theorem read_required_eq_accepted_iff {description : Fields ρ (α → β)} {slot : Slot}
    {codec : Codec α} {get : ρ → α} {entries : Entries Value} {b : β} :
    (description.required slot codec get).read entries = .accepted b ↔
      ∃ f v a, description.read entries = .accepted f ∧ slot.value? entries = some v ∧
        codec.read v = .accepted a ∧ f a = b := by
  rw [required, read_and_eq_accepted_iff]
  constructor
  · rintro ⟨f, a, hdescription, hfield, rfl⟩
    rcases read_one_eq_accepted_iff.mp hfield with ⟨v, hv, hread⟩ | ⟨-, hnone⟩
    · exact ⟨f, v, a, hdescription, hv, hread, rfl⟩
    · exact absurd hnone.symm (Option.some_ne_none a)
  · rintro ⟨f, v, a, hdescription, hv, hread, rfl⟩
    exact ⟨f, a, hdescription, read_one_eq_accepted_iff.mpr (.inl ⟨v, hv, hread⟩), rfl⟩

/-- What a field yields was read by its codec, or is its default. -/
theorem read_one {slot : Slot} {codec : Codec α} {default? : Option α} {get : ρ → α}
    {entries : Entries Value} {a : α}
    (h : (one slot codec default? get).read entries = .accepted a) :
    (∃ v, codec.read v = .accepted a) ∨ default? = some a :=
  (read_one_eq_accepted_iff.mp h).imp (fun ⟨v, _, hv⟩ => ⟨v, hv⟩) And.right

theorem read_codec {name : String} {description : Fields ρ ρ} {v : Value} {r : ρ}
    (h : (description.codec name).read v = .accepted r) :
    ∃ entries, description.read entries = .accepted r := by
  cases v with
  | object entries => exact ⟨entries, h⟩
  | _ => exact absurd h (by simp [codec, Reading.fail])

end Fields

namespace Codec

variable {α : Type} {codec : Codec α}

theorem read_text_eq_accepted_iff {v : Value} {s : String} :
    text.read v = .accepted s ↔ v = .text s := by
  cases v with
  | text raw => simp [text, scalar, readText]
  | _ => simp [text, scalar, readText, Reading.fail]

theorem readItems_eq_accepted :
    ∀ {vs : List Value} {position : Nat} {as : List α},
      readItems codec.read position vs = .accepted as → ∀ a ∈ as, ∃ v, codec.read v = .accepted a
  | [], _, as, h => by
    rw [← Reading.accepted.inj h]
    exact fun _ hmem => absurd hmem List.not_mem_nil
  | v :: vs, position, as, h => by
    obtain ⟨a, rest, ha, hrest, rfl⟩ := Reading.both_eq_accepted h
    intro b hb
    rcases List.mem_cons.mp hb with rfl | hb
    · exact ⟨v, Reading.within_eq_accepted ha⟩
    · exact readItems_eq_accepted hrest b hb

theorem read_listOf {v : Value} {as : List α} (h : codec.listOf.read v = .accepted as) :
    ∀ a ∈ as, ∃ v, codec.read v = .accepted a := by
  cases v with
  | list items => exact readItems_eq_accepted h
  | _ => exact absurd h (by simp [listOf, Reading.fail])

theorem read_optional {v : Value} {a : α} (h : codec.optional.read v = .accepted (some a)) :
    ∃ v, codec.read v = .accepted a := by
  cases hv : v.isNull with
  | true =>
    cases v with
    | null => exact absurd h (by simp [optional])
    | _ => exact absurd hv (by simp [Value.isNull])
  | false =>
    rw [read_optional_of_solid hv] at h
    obtain ⟨b, hb, heq⟩ := Reading.map_eq_accepted h
    rw [Option.some_inj.mp heq] at hb
    exact ⟨v, hb⟩

end Codec

theorem Fields.read_list {ρ α β : Type} {description : Fields ρ (List α → β)} {slot : Slot}
    {codec : Codec α} {get : ρ → List α} {entries : Entries Value} {b : β}
    (h : (description.list slot codec get).read entries = .accepted b) :
    ∃ f as, description.read entries = .accepted f ∧ (∀ a ∈ as, ∃ v, codec.read v = .accepted a) ∧
      f as = b := by
  obtain ⟨f, as, hf, has, rfl⟩ := read_and h
  refine ⟨f, as, hf, fun a ha => ?_, rfl⟩
  have hone : (one slot codec.listOf (some []) get).read entries = .accepted as := has
  rcases read_one hone with ⟨v, hv⟩ | hdefault
  · exact Codec.read_listOf hv a ha
  · rw [← Option.some_inj.mp hdefault] at ha
    exact absurd ha List.not_mem_nil

/-! ## Kinds -/

/-- Parsing a kind once is parsing it for good. -/
theorem KindIdentifier.parse_parse (raw : String) : parse (parse raw).token = parse raw := by
  have hknown : ∀ kind : KnownKind, parse kind.token = ofKnown kind := by
    intro kind
    rw [parse, known?, KnownKind.ofToken?_token]
  unfold parse
  cases hraw : known? raw with
  | some kind => exact hknown kind
  | none =>
    show parse raw = ⟨raw⟩
    rw [parse, hraw]

theorem KindIdentifier.parse_of_read {v : Value} {a : KindIdentifier}
    (h : KindIdentifier.codec.read v = .accepted a) : parse a.token = a := by
  cases v with
  | text raw =>
    rw [← Reading.accepted.inj h]
    exact parse_parse raw
  | _ => exact absurd h (by simp [codec, Codec.scalar, read])

theorem Kind.parse_of_read {v : Value} {a : Kind} (h : Kind.codec.read v = .accepted a) :
    KindIdentifier.parse a.identifier.token = a.identifier := by
  obtain ⟨entries, hread⟩ := Fields.read_codec h
  obtain ⟨_, _, h₂, -, rfl⟩ := Fields.read_and hread
  obtain ⟨_, identifier, h₁, hidentifier, rfl⟩ := Fields.read_and h₂
  obtain rfl := Reading.accepted.inj h₁
  rcases Fields.read_one hidentifier with ⟨v, hv⟩ | hnone
  · exact KindIdentifier.parse_of_read hv
  · exact absurd hnone (by simp)

/-- The kind of a record that was read is left as it is by reading it again. -/
theorem Symbol.parse_kind_of_readCore {record : Entries Value} {core : Core}
    (h : readCore record = .ok core) :
    KindIdentifier.parse core.kind.identifier.token = core.kind.identifier := by
  have hread : Core.codec.read (.object (Core.entries record)) = .accepted core := by
    rw [readCore] at h
    split at h
    · next hcore => rw [hcore, Except.ok.inj h]
    · exact absurd h (by simp)
  obtain ⟨entries, h₇⟩ := Fields.read_codec hread
  obtain ⟨_, _, h₆, -, rfl⟩ := Fields.read_and h₇
  obtain ⟨_, _, h₅, -, rfl⟩ := Fields.read_and h₆
  obtain ⟨_, _, h₄, -, rfl⟩ := Fields.read_and h₅
  obtain ⟨_, _, h₃, -, rfl⟩ := Fields.read_and h₄
  obtain ⟨_, _, h₂, -, rfl⟩ := Fields.read_and h₃
  obtain ⟨_, kind, h₁, hkind, rfl⟩ := Fields.read_and h₂
  obtain ⟨_, _, h₀, -, rfl⟩ := Fields.read_and h₁
  obtain rfl := Reading.accepted.inj h₀
  rcases Fields.read_one hkind with ⟨v, hv⟩ | hnone
  · exact Kind.parse_of_read hv
  · exact absurd hnone (by simp)

/-! ## Trees of parameters -/

namespace FunctionParameter

theorem heightOfAll_le {ps : List FunctionParameter} {limit : Nat}
    (h : ∀ p ∈ ps, p.height ≤ limit) : heightOfAll ps ≤ limit := by
  induction ps with
  | nil => exact Nat.zero_le _
  | cons p ps ih =>
    have hhead := h p List.mem_cons_self
    have htail := ih fun q hq => h q (List.mem_cons_of_mem p hq)
    rw [heightOfAll]
    omega

/-- **No tree of parameters is higher than what is read.**  By induction on the limit. -/
theorem height_le_of_read :
    ∀ {limit : Nat} {v : Value} {p : FunctionParameter},
      readWithin limit v = .accepted p → p.height ≤ limit
  | 0, _, _, h => absurd h (by simp [readWithin, Reading.fail])
  | limit + 1, v, p, h => by
    obtain ⟨entries, h₄⟩ := Fields.read_codec h
    obtain ⟨_, children, h₃, hchildren, rfl⟩ := Fields.read_and h₄
    obtain ⟨_, _, h₂, -, rfl⟩ := Fields.read_and h₃
    obtain ⟨_, _, h₁, -, rfl⟩ := Fields.read_and h₂
    obtain ⟨_, _, h₀, -, rfl⟩ := Fields.read_and h₁
    obtain rfl := Reading.accepted.inj h₀
    have hle : heightOfChildren children ≤ limit := by
      cases children with
      | none => exact Nat.zero_le _
      | some ps =>
        refine heightOfAll_le fun p hp => ?_
        rcases Fields.read_one hchildren with ⟨v, hv⟩ | hdefault
        · obtain ⟨v, hv⟩ := Codec.read_optional hv
          obtain ⟨w, hw⟩ := Codec.read_listOf hv p hp
          exact height_le_of_read hw
        · exact absurd hdefault (by simp)
    rw [height]
    omega

end FunctionParameter

theorem FunctionSignature.readable_of_read {v : Value} {signature : FunctionSignature}
    (h : FunctionSignature.codec.read v = .accepted signature) : signature.Readable := by
  obtain ⟨entries, h₂⟩ := Fields.read_codec h
  obtain ⟨_, _, h₁, -, rfl⟩ := Fields.read_list h₂
  obtain ⟨_, parameters, h₀, hparameters, rfl⟩ := Fields.read_list h₁
  obtain rfl := Reading.accepted.inj h₀
  intro p hp
  obtain ⟨w, hw⟩ := hparameters p hp
  exact FunctionParameter.height_le_of_read hw

/-! ## Mixins -/

namespace MixinType

theorem read_ofCodec {α : Type} {tag : TypeTag} {codec : Codec α} {wrap : α → Mixin} {v : Value}
    {m : Mixin} (h : (ofCodec tag codec wrap).read v = .mixin m) :
    ∃ a, codec.read v = .accepted a ∧ wrap a = m := by
  simp only [ofCodec] at h
  split at h
  · next a ha => exact ⟨a, ha, Intake.mixin.inj h⟩
  · exact absurd h (by simp)

theorem read_lenient {type : MixinType} {v : Value} {m : Mixin}
    (h : type.lenient.read v = .mixin m) : type.read v = .mixin m := by
  simp only [lenient] at h
  split at h
  · exact absurd h (by simp)
  · exact h

/-- What a built-in type yields is a mixin of that type, which the type would read again. -/
theorem builtinType?_of_read {type : MixinType} (htype : type ∈ builtin) {v : Value} {m : Mixin}
    (h : type.read v = .mixin m) : m.builtinType? = some type ∧ m.Readable := by
  simp only [builtin, List.mem_cons, List.not_mem_nil, or_false] at htype
  rcases htype with rfl | rfl | rfl | rfl | rfl | rfl | rfl | rfl | rfl
  case inr.inr.inr.inr.inr.inl =>
    obtain ⟨_, -, rfl⟩ := read_ofCodec (read_lenient h)
    exact ⟨rfl, trivial⟩
  case inr.inr.inr.inr.inr.inr.inl =>
    obtain ⟨_, hread, rfl⟩ := read_ofCodec h
    exact ⟨rfl, FunctionSignature.readable_of_read hread⟩
  all_goals
    obtain ⟨_, -, rfl⟩ := read_ofCodec h
    exact ⟨rfl, trivial⟩

end MixinType

end SymbolRecord
