import SymbolRecord.Proofs.Dispatch
import SymbolRecord.Proofs.Registration
/-!
# Sessions with a coder

Between the registrations of a coder, its caller takes snapshots and decodes and encodes, either
with the registrations as they stand or with a snapshot that was taken before.  Decoders and
encoders are code of the caller and may themselves ask to register a type, so that registrations
come from every kind of call.  A session is the coder with the snapshots taken so far, and a step
is one call.

## Which registrations count

Of all that was ever registered, three things decide what a call answers, and everything else is
without effect.  The key must be free, that is, neither the key of a core field nor built in; the
registration must be the last one under its key; and it must stand before the snapshot that the
call works with.  The first two are about what a registry resolves, and the third is an invariant
of sessions: a step only ever adds to the snapshots.

* `Query`, `Answer`: what is asked of a registry, and what it answers.
* `Coder.resolve?_registerAll`: what a key that is not built in resolves to.
* `Session.step`, `Session.after`: one call, and one call after another.
* `Session.kept_after`: snapshots stay as they were taken.
* `Session.registrations_that_count`: which registrations count.
-/

namespace SymbolRecord

/-- What is asked of the registrations in force. -/
inductive Query where
  /-- To decode a value. -/
  | decode (v : Value)
  /-- To encode a symbol. -/
  | encode (symbol : Symbol)
  /-- To find the keys of a record that decoding leaves out. -/
  | unrecognized (record : Entries Value)

/-- What is answered, with all that was noted on the way. -/
inductive Answer where
  /-- A symbol, unless decoding failed. -/
  | decoded (run : Run Symbol)
  /-- The object of a symbol, unless encoding failed. -/
  | encoded (run : Run (Entries Value))
  /-- The keys that decoding leaves out. -/
  | unrecognized (run : Run (List String))

/-- What was noted on the way to an answer. -/
def Answer.events : Answer → List Event
  | .decoded run => run.events
  | .encoded run => run.events
  | .unrecognized run => run.events

/-- The answer of a registry. -/
def Query.answer (registry : Registry) : Query → Answer
  | .decode v => .decoded (Symbol.decode registry v)
  | .encode symbol => .encoded (symbol.encode registry)
  | .unrecognized record => .unrecognized (Symbol.reportUnrecognized registry record)

/-- Registries that resolve alike answer alike. -/
theorem Registry.Alike.answer_eq {a b : Registry} (h : a.Alike b) (query : Query) :
    query.answer a = query.answer b := by
  cases query with
  | decode v => exact congrArg Answer.decoded (h.decode_eq v)
  | encode symbol => exact congrArg Answer.encoded (h.encode_eq symbol)
  | unrecognized record => exact congrArg Answer.unrecognized (h.reportUnrecognized_eq record)

/-! ## Free keys -/

namespace Coder

/-- **A key that is not built in resolves to its last registration**, if it has one. -/
theorem resolve?_registerAll (indent : Bool) (calls : List (List Registration)) {key : String}
    (h : Registry.isBuiltin key = false) :
    ((new indent).registerAll calls).snapshot.resolve? key = Registration.last? calls key := by
  rw [Registry.resolve?_of_free h, snapshot, get?_registerAll]

/-- Coders on which the last registrations under all free keys are the same resolve alike: core
keys are never looked up, and built-in keys never reach what was registered. -/
theorem alike_of_last? {calls₁ calls₂ : List (List Registration)} (indent₁ indent₂ : Bool)
    (h : ∀ key, Core.isKey key = false → Registry.isBuiltin key = false →
      Registration.last? calls₁ key = Registration.last? calls₂ key) :
    ((new indent₁).registerAll calls₁).snapshot.Alike
      ((new indent₂).registerAll calls₂).snapshot := by
  intro key hcore
  cases hbuiltin : Registry.isBuiltin key with
  | true => exact Registry.resolve?_builtin _ _ hbuiltin
  | false =>
    rw [resolve?_registerAll indent₁ calls₁ hbuiltin, resolve?_registerAll indent₂ calls₂ hbuiltin,
      h key hcore hbuiltin]

end Coder

/-! ## Sessions -/

/-- A call of a caller. -/
inductive Call where
  /-- To register mixin types and descriptors. -/
  | register (registrations : List Registration)
  /-- To take a snapshot and keep it. -/
  | snapshot
  /-- To ask with the snapshot that was taken at a position, or with the registrations as they
  stand. -/
  | ask (position? : Option Nat) (query : Query)

/-- A coder, and the snapshots that were taken of it, in order. -/
structure Session where
  /-- The coder. -/
  coder : Coder
  /-- The snapshots. -/
  kept : List Registry

namespace Session

/-- The registry that a call works with; there is none if no such snapshot was taken. -/
def inForce? (session : Session) : Option Nat → Option Registry
  | none => some session.coder.snapshot
  | some position => session.kept[position]?

/-- The answer to a query. -/
def answer? (session : Session) (position? : Option Nat) (query : Query) : Option Answer :=
  (session.inForce? position?).map query.answer

/-- The session after a call.  What a decoder or an encoder asks to register is registered once
the call is over; the call itself works with the registry that it began with. -/
def step (session : Session) : Call → Session
  | .register registrations =>
    { session with coder := (session.coder.register registrations).1 }
  | .snapshot => { session with kept := session.kept ++ [session.coder.snapshot] }
  | .ask position? query =>
    match session.answer? position? query with
    | some answer => { session with coder := session.coder.absorb answer.events }
    | none => session

/-- The session after calls, one after another. -/
def after (session : Session) (calls : List Call) : Session := calls.foldl step session

/-- A call adds a snapshot or leaves the snapshots as they are. -/
theorem kept_step (session : Session) (call : Call) :
    session.kept <+: (session.step call).kept := by
  cases call with
  | register registrations => exact List.prefix_refl _
  | snapshot => exact List.prefix_append _ _
  | ask position? query =>
    rw [step]
    split
    · exact List.prefix_refl _
    · exact List.prefix_refl _

/-- **Snapshots stay as they were taken**, whatever is called afterwards. -/
theorem kept_after (calls : List Call) (session : Session) :
    session.kept <+: (session.after calls).kept := by
  induction calls generalizing session with
  | nil => exact List.prefix_refl _
  | cons call rest ih => exact (session.kept_step call).trans (ih (session.step call))

/-- A snapshot holds the registrations of the moment in which it was taken. -/
theorem inForce?_of_snapshot (session : Session) (calls : List Call) :
    (session.after (.snapshot :: calls)).inForce? (some session.kept.length) =
      some session.coder.snapshot := by
  obtain ⟨later, hlater⟩ := kept_after calls (session.step .snapshot)
  have hkept : (session.after (.snapshot :: calls)).kept =
      session.kept ++ session.coder.snapshot :: later := by
    rw [List.append_cons]
    exact hlater.symm
  rw [inForce?, hkept, List.getElem?_append_right (Nat.le_refl _), Nat.sub_self]
  rfl

theorem after_append (session : Session) (before calls : List Call) :
    session.after (before ++ calls) = (session.after before).after calls :=
  List.foldl_append

/-- **Which registrations count.**  A key that is not built in resolves to its last registration.
Two coders on which the last registrations under all free keys are the same answer every query
alike, whatever else was registered on them.  And in every session, a query that is given a snapshot
is answered from the registrations of the moment in which the snapshot was taken, whatever was
called since. -/
theorem registrations_that_count :
    (∀ (indent : Bool) (calls : List (List Registration)) (key : String),
      Registry.isBuiltin key = false →
      ((Coder.new indent).registerAll calls).snapshot.resolve? key =
        Registration.last? calls key) ∧
    (∀ (indent₁ indent₂ : Bool) (calls₁ calls₂ : List (List Registration)),
      (∀ key, Core.isKey key = false → Registry.isBuiltin key = false →
        Registration.last? calls₁ key = Registration.last? calls₂ key) →
      ∀ query : Query, query.answer ((Coder.new indent₁).registerAll calls₁).snapshot =
        query.answer ((Coder.new indent₂).registerAll calls₂).snapshot) ∧
    ∀ (session : Session) (before since : List Call) (query : Query),
      (session.after (before ++ .snapshot :: since)).answer?
          (some (session.after before).kept.length) query =
        some (query.answer (session.after before).coder.snapshot) := by
  refine ⟨fun indent calls key => Coder.resolve?_registerAll indent calls,
    fun indent₁ indent₂ calls₁ calls₂ h query => ?_, fun session before since query => ?_⟩
  · exact (Coder.alike_of_last? indent₁ indent₂ h).answer_eq query
  · rw [answer?, after_append, inForce?_of_snapshot]
    rfl

/-- A history that registers a note twice, at first one that is not read, and a note under a
built-in key. -/
def shadowed : List (List Registration) :=
  [[.descriptor { (Symbol.noteType "note").descriptor "note" with decoder? := none },
      .type (Symbol.noteType "location")],
    [.type (Symbol.noteType "note")]]

/-- A history that registers a note under a core key, and of which the last call fails before its
end. -/
def interrupted : List (List Registration) :=
  [[.type (Symbol.noteType "names")],
    [.type (Symbol.noteType "note"), .type (.extension (.plain 10 "Keyless" none) Codec.text),
      .type (Symbol.noteType "draft")]]

/-- The two histories leave tables with different keys, and answer alike. -/
theorem shadowed_answers_as_interrupted :
    ((Coder.new false).registerAll shadowed).registered.keys = ["note", "location"] ∧
      ((Coder.new true).registerAll interrupted).registered.keys = ["names", "note"] ∧
      (Query.decode (.object Symbol.faulty)).answer
          ((Coder.new false).registerAll shadowed).snapshot =
        (Query.decode (.object Symbol.faulty)).answer
          ((Coder.new true).registerAll interrupted).snapshot := by
  refine ⟨by decide, by decide, registrations_that_count.2.1 false true shadowed interrupted
    (fun key hcore hbuiltin => ?_) _⟩
  have hlocation : "location" ≠ key := by
    rintro rfl
    nomatch hbuiltin
  have hnames : "names" ≠ key := by
    rintro rfl
    nomatch hcore
  by_cases hnote : "note" = key
  · subst hnote
    rfl
  · have hnone : Registration.last? shadowed key = none :=
      Registration.last?_eq_none_iff.mpr
        (show key ∉ ["note", "location", "note"] by simp [Ne.symm hnote, hlocation.symm])
    rw [hnone, eq_comm, Registration.last?_eq_none_iff]
    exact (show key ∉ ["names", "note"] by simp [Ne.symm hnote, hnames.symm])

end Session

end SymbolRecord
