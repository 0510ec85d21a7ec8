import SymbolRecord.Validation
import SymbolRecord.Proofs.Coder
import SymbolRecord.Proofs.Lines
import SymbolRecord.Proofs.Normal
import SymbolRecord.Proofs.Standard
/-!
# Verdicts record by record

With the descriptors of mixin types, the verdict on a record never fails, and it hangs on what
decoding the record comes to: a record that is decoded is counted, with a remark for every key that
is left out, and one that is not is an error, with the words and the key of its failure.  The
verdict on a file joins those on its records.

So the verdict on a document agrees with decoding it, although the two do not go about it alike:
decoding stops at the first item that fails, and the verdict goes on.

* `Verdict.judge`, `Verdict.outcome_ofRecord`: the verdict on one record.
* `Verdict.outcome_ofAll`, `Verdict.errors_join`, `Verdict.count_add_errors_join`: verdicts
  joined.
* `Verdict.Reports`, `Verdict.Matches`: a verdict that says what the outcome of reading is, and one
  that says at which key and where it failed.
* `Coder.exists_verdict_of_document`: the verdict on a document agrees with decoding it.
-/

namespace SymbolRecord

open Json

/-- The symbols of a document, one or several. -/
def Document.symbols : Document → List Symbol
  | .single symbol => [symbol]
  | .several symbols => symbols

namespace Verdict

variable {registry : Registry} {strict : Bool} {place : RecordPlace} {v : Value}

/-! ## One record -/

/-- The keys of a record that decoding leaves out; only objects have keys. -/
def leftOut (registry : Registry) : Value → List String
  | .object record => Symbol.unrecognizedKeys registry record
  | _ => []

/-- The verdict on a record of which some keys are left out, from what decoding it comes to. -/
def ofOutcome (strict : Bool) (place : RecordPlace) (keys : List String) :
    Except Failure Symbol → Verdict
  | .ok _ => ofUnrecognized place strict keys
  | .error (.decode error) => ofError (place.remark (sentence error.message) error.key?)
  | .error _ => empty

/-- The verdict on a record. -/
def judge (registry : Registry) (strict : Bool) (place : RecordPlace) (v : Value) : Verdict :=
  ofOutcome strict place (leftOut registry v) (Symbol.decode registry v).outcome

/-- **The verdict on a record never fails**, and is what decoding the record makes it. -/
theorem outcome_ofRecord (h : registry.Standard) (strict : Bool) (place : RecordPlace) (v : Value) :
    (ofRecord registry strict place v).outcome = .ok (judge registry strict place v) := by
  cases v with
  | object record =>
    rw [ofRecord, judge]
    simp only
    cases hrun : (Symbol.decode registry (.object record)).outcome with
    | ok symbol => rfl
    | error failure =>
      obtain ⟨error, rfl⟩ := Symbol.failsBy_decode h _ failure hrun
      rfl
  | _ => rfl

theorem judge_of_ok {symbol : Symbol} (hdecode : (Symbol.decode registry v).outcome = .ok symbol) :
    judge registry strict place v = ofUnrecognized place strict (leftOut registry v) := by
  rw [judge, hdecode]
  rfl

theorem judge_of_error {error : DecodeError}
    (hdecode : (Symbol.decode registry v).outcome = .error (.decode error)) :
    judge registry strict place v =
      ofError (place.remark (sentence error.message) error.key?) := by
  rw [judge, hdecode]
  rfl

/-- Every record is either counted or an error. -/
theorem count_add_errors_judge (h : registry.Standard) (place : RecordPlace) (v : Value) :
    (judge registry false place v).count + (judge registry false place v).errors.length = 1 := by
  cases hdecode : (Symbol.decode registry v).outcome with
  | ok symbol =>
    rw [judge_of_ok hdecode]
    rfl
  | error failure =>
    obtain ⟨error, rfl⟩ := Symbol.failsBy_decode h v failure hdecode
    rw [judge_of_error hdecode]
    rfl

/-! ## Verdicts joined -/

/-- Several verdicts as one. -/
def join (verdicts : List Verdict) : Verdict := verdicts.foldr append empty

theorem errors_join (verdicts : List Verdict) :
    (join verdicts).errors = verdicts.flatMap errors := by
  induction verdicts with
  | nil => rfl
  | cons verdict rest ih => exact congrArg (verdict.errors ++ ·) ih

/-- Where every part is either counted or an error, all parts are. -/
theorem count_add_errors_join :
    ∀ {verdicts : List Verdict}, (∀ verdict ∈ verdicts, verdict.count + verdict.errors.length = 1) →
      (join verdicts).count + (join verdicts).errors.length = verdicts.length
  | [], _ => rfl
  | verdict :: rest, h => by
    obtain ⟨hverdict, hrest⟩ := List.forall_mem_cons.mp h
    have hjoin := count_add_errors_join hrest
    show verdict.count + (join rest).count + (verdict.errors ++ (join rest).errors).length =
      rest.length + 1
    rw [List.length_append]
    omega

/-- The verdict on several parts, from the verdict on each. -/
theorem outcome_ofAll {α : Type} {f : α → Run Verdict} {g : α → Verdict} {parts : List α}
    (h : ∀ a ∈ parts, (f a).outcome = .ok (g a)) :
    (ofAll f parts).outcome = .ok (join (parts.map g)) :=
  Run.andThen_eq_ok.mpr ⟨parts.map g, Run.outcome_forAll h, rfl⟩

/-- The verdict on an item of a list at its position. -/
def judgeItem (registry : Registry) (strict : Bool) (path : String) (item : Nat × Value) :
    Verdict :=
  judge registry strict ⟨path, none, some item.1⟩ item.2

/-- The verdict on the items of a list. -/
def judgeItems (registry : Registry) (strict : Bool) (path : String) (items : List Value) :
    Verdict :=
  join ((Bytes.numberFrom 0 items).map (judgeItem registry strict path))

theorem outcome_ofDocument_list [Wording] (h : registry.Standard) (strict : Bool) (path : String)
    {content : Bytes} {items : List Value} (hparse : parse? content = some (.list items)) :
    (ofDocument registry strict path content).outcome =
      .ok (judgeItems registry strict path items) := by
  rw [ofDocument, hparse]
  exact outcome_ofAll fun (item : Nat × Value) _ => outcome_ofRecord h strict _ item.2

/-- Every item is either counted or an error. -/
theorem count_add_errors_items (h : registry.Standard) (path : String) (items : List Value) :
    (judgeItems registry false path items).count +
      (judgeItems registry false path items).errors.length = items.length := by
  have hone : ∀ verdict ∈ (Bytes.numberFrom 0 items).map (judgeItem registry false path),
      verdict.count + verdict.errors.length = 1 :=
    List.forall_mem_map.mpr fun item _ => count_add_errors_judge h _ item.2
  rw [judgeItems, count_add_errors_join hone, List.length_map, Bytes.length_numberFrom]

/-! ## What a verdict says of decoding -/

/-- A verdict reports an outcome of reading: no errors and the number of the symbols, or the
failure as the first error. -/
def Reports (verdict : Verdict) : Except Failure (List Symbol) → Prop
  | .ok symbols => verdict.errors = [] ∧ verdict.count = symbols.length
  | .error failure => ∃ error remark others, failure = .decode error ∧
      verdict.errors = remark :: others ∧ remark.message = error.message ++ "."

/-- A verdict without errors reports a success. -/
theorem Reports.errors_eq_nil_iff {verdict : Verdict} {outcome : Except Failure (List Symbol)}
    (h : verdict.Reports outcome) : verdict.errors = [] ↔ ∃ symbols, outcome = .ok symbols := by
  cases outcome with
  | ok symbols => exact ⟨fun _ => ⟨symbols, rfl⟩, fun _ => h.1⟩
  | error failure =>
    obtain ⟨error, remark, others, -, herrors, -⟩ := h
    rw [herrors]
    simp

/-- A verdict matches an outcome of reading when it reports it, and its first error has the key of
the failure and the position of what failed. -/
def Matches (verdict : Verdict) (position? : Option Nat) : Except Failure (List Symbol) → Prop
  | .ok symbols => verdict.errors = [] ∧ verdict.count = symbols.length
  | .error failure => ∃ error remark others, failure = .decode error ∧
      verdict.errors = remark :: others ∧ remark.message = error.message ++ "." ∧
        remark.key = error.key? ∧ remark.index = position?.map Int.ofNat

theorem Matches.reports {verdict : Verdict} {position? : Option Nat}
    {outcome : Except Failure (List Symbol)} (h : verdict.Matches position? outcome) :
    verdict.Reports outcome := by
  cases outcome with
  | ok symbols => exact h
  | error failure =>
    obtain ⟨error, remark, others, hfailure, herrors, hmessage, -⟩ := h
    exact ⟨error, remark, others, hfailure, herrors, hmessage⟩

/-- One symbol as a list. -/
def one (outcome : Except Failure Symbol) : Except Failure (List Symbol) :=
  outcome.map fun symbol => [symbol]

/-- The verdict on a record matches decoding it. -/
theorem matches_judge (h : registry.Standard) (place : RecordPlace) (v : Value) :
    (judge registry false place v).Matches place.index
      (one (Symbol.decode registry v).outcome) := by
  cases hdecode : (Symbol.decode registry v).outcome with
  | ok symbol =>
    rw [judge_of_ok hdecode]
    exact ⟨rfl, rfl⟩
  | error failure =>
    obtain ⟨error, rfl⟩ := Symbol.failsBy_decode h v failure hdecode
    rw [judge_of_error hdecode]
    exact ⟨error, _, [], rfl, rfl, rfl, rfl, rfl⟩

/-! ## Lists -/

/-- Items that are decoded have no errors. -/
theorem errors_of_decode {path : String} {n : Nat} {items : List Value}
    (h : ∀ item ∈ items, ∃ symbol, (Symbol.decode registry item).outcome = .ok symbol) :
    ((Bytes.numberFrom n items).map (judgeItem registry false path)).flatMap errors = [] := by
  rw [List.flatMap_map, List.flatMap_eq_nil_iff]
  intro item hitem
  obtain ⟨symbol, hsymbol⟩ := h item.2 (Bytes.snd_mem_of_mem_numberFrom hitem)
  rw [judgeItem, judge_of_ok hsymbol]
  rfl

/-- The first error of a list is that of its first item that is not decoded. -/
theorem exists_errors_judgeItems {before : List Value} {item : Value} {error : DecodeError}
    (hbefore : ∀ other ∈ before, ∃ symbol, (Symbol.decode registry other).outcome = .ok symbol)
    (hitem : (Symbol.decode registry item).outcome = .error (.decode error)) (path : String)
    (after : List Value) :
    ∃ others, (judgeItems registry false path (before ++ item :: after)).errors =
      RecordPlace.remark ⟨path, none, some before.length⟩ (sentence error.message) error.key? ::
        others := by
  refine ⟨((Bytes.numberFrom (before.length + 1) after).map
    (judgeItem registry false path)).flatMap errors, ?_⟩
  rw [judgeItems, errors_join, Bytes.numberFrom_append, Bytes.numberFrom, List.map_append,
    List.flatMap_append, errors_of_decode hbefore, List.nil_append, List.map_cons,
    List.flatMap_cons, judgeItem, judge_of_error hitem, Nat.zero_add]
  rfl

/-- The position of the first item that is not decoded. -/
def failing? (registry : Registry) (items : List Value) : Option Nat :=
  items.findIdx? fun item => !(Symbol.decode registry item).outcome.isOk

theorem failing?_eq_some {before after : List Value} {item : Value} {failure : Failure}
    (hbefore : ∀ other ∈ before, ∃ symbol, (Symbol.decode registry other).outcome = .ok symbol)
    (hitem : (Symbol.decode registry item).outcome = .error failure) :
    failing? registry (before ++ item :: after) = some before.length := by
  have hnone : before.findIdx? (fun other => !(Symbol.decode registry other).outcome.isOk) =
      none := by
    refine List.findIdx?_eq_none_iff.mpr fun other hother => ?_
    obtain ⟨symbol, hsymbol⟩ := hbefore other hother
    rw [hsymbol]
    rfl
  rw [failing?, List.findIdx?_append, hnone, List.findIdx?_cons, hitem]
  simp [Except.isOk, Except.toBool]

/-- The verdict on a list matches decoding its items one by one. -/
theorem matches_judgeItems (h : registry.Standard) (path : String) (items : List Value) :
    (judgeItems registry false path items).Matches (failing? registry items)
      (Run.forAll (Symbol.decode registry) items).outcome := by
  cases hall : (Run.forAll (Symbol.decode registry) items).outcome with
  | ok symbols =>
    have herrors : (judgeItems registry false path items).errors = [] := by
      rw [judgeItems, errors_join]
      exact errors_of_decode (Run.exists_of_forAll_eq_ok hall)
    have hcount := count_add_errors_items h path items
    rw [herrors, List.length_nil, Nat.add_zero] at hcount
    exact ⟨herrors, hcount.trans (Run.length_of_forAll hall).symm⟩
  | error failure =>
    obtain ⟨before, item, after, rfl, hbefore, hitem⟩ := Run.forAll_eq_error_iff.mp hall
    obtain ⟨error, rfl⟩ := Symbol.failsBy_decode h item failure hitem
    obtain ⟨others, herrors⟩ := exists_errors_judgeItems hbefore hitem path after
    rw [failing?_eq_some hbefore hitem]
    exact ⟨error, _, others, rfl, herrors, rfl, rfl, rfl⟩

end Verdict

namespace Coder

/-- The position of the first item that is not decoded, in a document that is a list. -/
def failingIndex? (coder : Coder) (content : Bytes) : Option Nat :=
  match parse? content with
  | some (.list items) => Verdict.failing? coder.snapshot items
  | _ => none

theorem map_symbols_single (run : Run Symbol) :
    (run.andThen fun symbol => .ok (Document.single symbol)).outcome.map Document.symbols =
      Verdict.one run.outcome := by
  rw [Run.outcome_andThen]
  cases run.outcome <;> rfl

theorem map_symbols_several (run : Run (List Symbol)) :
    (run.andThen fun symbols => .ok (Document.several symbols)).outcome.map Document.symbols =
      run.outcome := by
  rw [Run.outcome_andThen]
  cases run.outcome <;> rfl

variable {coder : Coder}

/-- The verdict on a document matches decoding it. -/
theorem exists_ofDocument [Wording] (h : coder.snapshot.Standard) (path : String)
    (content : Bytes) :
    ∃ verdict, (Verdict.ofDocument coder.snapshot false path content).outcome = .ok verdict ∧
      verdict.Matches (coder.failingIndex? content)
        ((coder.decodeDocument content).outcome.map Document.symbols) ∧
      ∀ items, parse? content = some (.list items) →
        verdict.count + verdict.errors.length = items.length := by
  rw [failingIndex?, decodeDocument, Run.outcome_andThen, parse]
  cases hparse : parse? content with
  | none =>
    rw [Verdict.ofDocument, hparse]
    exact ⟨_, rfl, ⟨.malformed _, _, [], rfl, rfl, rfl, rfl, rfl⟩,
      fun _ heq => absurd heq (by simp)⟩
  | some v =>
    cases v with
    | list items =>
      refine ⟨_, Verdict.outcome_ofDocument_list h false path hparse, ?_, fun items' heq => ?_⟩
      · exact (map_symbols_several _).symm ▸ Verdict.matches_judgeItems h path items
      · obtain rfl := Value.list.inj (Option.some_inj.mp heq)
        exact Verdict.count_add_errors_items h path items
    | _ =>
      rw [Verdict.ofDocument, hparse]
      refine ⟨_, Verdict.outcome_ofRecord h false _ _, ?_, fun _ heq => absurd heq (by simp)⟩
      exact (map_symbols_single _).symm ▸ Verdict.matches_judge h ⟨path, none, none⟩ _

/-- **Validating a document decodes as a reader does.**  The verdict has no errors if and only if
decoding succeeds, and then it has the number of the symbols.  Else its first error has the words
of the failure with a full stop, the field or the key at fault, and the position of the first item
that is not decoded, if the document is a list.  Every item of a list is counted or an error. -/
theorem exists_verdict_of_document [Wording] (coder : Coder)
    (hcoder : ∀ key descriptor, coder.registered.get? key = some descriptor →
      ∃ type, descriptor.IsOf type key)
    (path : Path) (hpath : Verdict.isLines path = false) (content : Bytes) :
    ∃ verdict, (Verdict.ofFile coder.snapshot false path (some (.file content))).outcome =
        .ok verdict ∧
      (verdict.errors = [] ↔ ∃ document, (coder.decodeDocument content).outcome = .ok document) ∧
      (∀ document, (coder.decodeDocument content).outcome = .ok document →
        verdict.count = document.symbols.length) ∧
      (∀ failure, (coder.decodeDocument content).outcome = .error failure →
        ∃ error remark others, failure = .decode error ∧ verdict.errors = remark :: others ∧
          remark.message = error.message ++ "." ∧ remark.key = error.key? ∧
            remark.index = (coder.failingIndex? content).map Int.ofNat) ∧
      ∀ items, parse? content = some (.list items) →
        verdict.count + verdict.errors.length = items.length := by
  obtain ⟨verdict, hverdict, hmatches, hitems⟩ :=
    exists_ofDocument (standard_snapshot hcoder) path.text content
  refine ⟨verdict, ?_, ?_, fun document hdocument => ?_, fun failure hfailure => ?_, hitems⟩
  · rw [Verdict.ofFile, Verdict.ofContent, hpath, if_neg Bool.false_ne_true]
    exact hverdict
  · rw [hmatches.reports.errors_eq_nil_iff]
    cases (coder.decodeDocument content).outcome with
    | ok document => exact iff_of_true ⟨_, rfl⟩ ⟨document, rfl⟩
    | error failure => exact iff_of_false (fun ⟨_, heq⟩ => nomatch heq) fun ⟨_, heq⟩ => nomatch heq
  · rw [hdocument] at hmatches
    exact hmatches.2
  · rw [hfailure] at hmatches
    exact hmatches

/-- A record with a note, and with its keys in no order. -/
def recordWith (note : Value) : Value :=
  .object
    [("identifier", .object [("precise", .text "s:f")]),
      ("kind", .object [("identifier", .text "func"), ("displayName", .text "F")]),
      ("names", .object [("title", .text "f")]), ("note", note),
      ("accessLevel", .text "public"), ("pathComponents", .list [])]

/-- A list of which the first item is decoded, the second has a payload that is refused, and the
third is no object. -/
def mixed : Value := .list [recordWith (.text "kept"), recordWith (.int 3), .text "f"]

attribute [local instance] Wording.plain

/-- The first error on that list is about the second item, and there are three in all, of which one
is counted. -/
theorem exists_verdict_of_mixed :
    ∃ verdict remark others,
      (Verdict.ofFile noting.snapshot false (Path.ofText "kit.json")
        (some (.file (Utf8.encode (write .compact 0 mixed))))).outcome = .ok verdict ∧
      verdict.errors = remark :: others ∧ remark.key = some "note" ∧ remark.index = some 1 ∧
      verdict.count + verdict.errors.length = 3 := by
  have hdecode : (noting.decodeDocument (Utf8.encode (write .compact 0 mixed))).outcome =
      .error (.decode (.payload "note" ⟨"Note", ⟨[], .text, "int"⟩, []⟩)) := by decide +kernel
  obtain ⟨verdict, hverdict, -, -, herror, hitems⟩ :=
    exists_verdict_of_document noting stable_noting.exists_isOf (Path.ofText "kit.json")
      (by decide +kernel) (Utf8.encode (write .compact 0 mixed))
  obtain ⟨error, remark, others, heq, herrors, -, hkey, hindex⟩ := herror _ hdecode
  obtain rfl := Failure.decode.inj heq
  refine ⟨verdict, remark, others, hverdict, herrors, hkey, hindex.trans ?_, ?_⟩
  · decide +kernel
  · exact hitems _ (by decide +kernel : parse? _ = some mixed)

end Coder

end SymbolRecord
