import SymbolRecord.Mixin.Basic
import SymbolRecord.Json.Writer
/-!
# Runs

Decoding and encoding can fail, and on the way they note what they leave out.  A run is the list of
what was noted together with the outcome; what was noted before a failure is kept.

A failure is told apart by its cause.  Code that callers bring in a descriptor may fail for reasons
of its own, which are passed on unchanged.

* `DecodeError`, `EncodeError`, `Failure`: what goes wrong, with the words for it.
* `Event`: what a run notes.
* `Run`: the events and the outcome, with `Run.andThen` and `Run.forAll`.
-/

namespace SymbolRecord

/-- Why a record is not decoded. -/
inductive DecodeError where
  /-- The document is not JSON, in these words of the parser. -/
  | malformed (words : String)
  /-- The record is no object, but a value of this type. -/
  | notObject (found : String)
  /-- A core field is absent or malformed. -/
  | coreField (field : String) (fault : Fault)
  /-- The payload of a mixin is refused. -/
  | payload (key : String) (report : Report)
  deriving DecidableEq

namespace DecodeError

/-- The sentence for a document that is not JSON, with the words of the parser. -/
def malformedMessage (words : String) : String := "Invalid JSON: " ++ words

/-- The sentence for a value that is no object. -/
def notObjectMessage (found : String) : String :=
  "Expected a JSON object for a symbol, got " ++ found

/-- The sentence that says what is wrong. -/
def message : DecodeError → String
  | .malformed words => malformedMessage words
  | .notObject found => notObjectMessage found
  | .coreField field fault => "Invalid symbol field " ++ Text.quote field ++ ": " ++ fault.message
  | .payload key report => "Invalid " ++ Text.quote key ++ " mixin: " ++ report.text

/-- The core field or the mixin key at fault. -/
def key? : DecodeError → Option String
  | .coreField field _ => some field
  | .payload key _ => some key
  | _ => none

end DecodeError

/-- Why an encoded record cannot be written. -/
structure EncodeError where
  /-- The reason against writing it. -/
  reason : Json.Unwritable
  deriving DecidableEq

/-- The sentence that says what is wrong. -/
def EncodeError.message (error : EncodeError) : String :=
  "Failed to serialize symbol: " ++ error.reason.message

/-- What makes a run fail. -/
inductive Failure where
  /-- A record is not decoded. -/
  | decode (error : DecodeError)
  /-- A record is not written. -/
  | encode (error : EncodeError)
  /-- A mixin type of this name is used by its key and declares none. -/
  | keyless (type : String)
  /-- Code that a caller brought failed: the kind of failure and its words, if it has any. -/
  | caller (kind : String) (message? : Option String)
  deriving DecidableEq

/-- The words for a failure, if there are any. -/
def Failure.message? : Failure → Option String
  | .decode error => some error.message
  | .encode error => some error.message
  | .keyless _ => none
  | .caller _ message? => message?

/-- What a run notes. -/
inductive Event where
  /-- A message of one of the loggers. -/
  | log (logger message : String)
  /-- A request to register a mixin type for later runs. -/
  | register (type : MixinType)

/-- What was noted, and the outcome. -/
structure Run (α : Type) where
  /-- What was noted, in order. -/
  events : List Event
  /-- The result, or the failure. -/
  outcome : Except Failure α

namespace Run

variable {α β : Type}

/-- A run that notes nothing and yields a result. -/
def ok (a : α) : Run α := ⟨[], .ok a⟩

/-- A run that notes nothing and fails. -/
def fail (failure : Failure) : Run α := ⟨[], .error failure⟩

/-- A run that notes a message. -/
def log (logger message : String) : Run Unit := ⟨[.log logger message], .ok ()⟩

/-- A run that notes a request to register a type. -/
def register (type : MixinType) : Run Unit := ⟨[.register type], .ok ()⟩

/-- Goes on with the result of a run, unless it failed. -/
def andThen (run : Run α) (next : α → Run β) : Run β :=
  match run.outcome with
  | .ok a => ⟨run.events ++ (next a).events, (next a).outcome⟩
  | .error failure => ⟨run.events, .error failure⟩

/-- Goes over a list and collects the results, until one run fails. -/
def forAll (f : α → Run β) : List α → Run (List β)
  | [] => ok []
  | a :: rest => (f a).andThen fun b => (forAll f rest).andThen fun bs => ok (b :: bs)

@[simp] theorem outcome_ok (a : α) : (ok a).outcome = .ok a := rfl

@[simp] theorem outcome_fail (failure : Failure) :
    (fail failure : Run α).outcome = .error failure := rfl

/-- The outcome of a sequence of two runs hangs on their outcomes alone. -/
theorem outcome_andThen (run : Run α) (next : α → Run β) :
    (run.andThen next).outcome = run.outcome.bind fun a => (next a).outcome := by
  unfold andThen
  cases run.outcome <;> rfl

end Run

end SymbolRecord
