import SymbolRecord.Value
/-!
# Readings

Reading a typed record out of a value either yields the record or a list of issues, which is never
empty.  An issue says what is wrong, where, and which type of value was found.  The parts of a
record are read independently, so the issues of all parts are collected in the order of the parts.

* `Issue`: one thing that is wrong with a value.
* `Reading`: the outcome of reading, with `Reading.map`, `Reading.both` and `Reading.within`.
* `Report`: all issues of a model, with `Report.text`, the text that error messages show.
-/

namespace SymbolRecord

/-- One step from a value to a part of it. -/
inductive Step where
  /-- To the value under a key. -/
  | key (name : String)
  /-- To an item of a list. -/
  | index (position : Nat)
  deriving DecidableEq

namespace Step

/-- The text of a step; a key with a full stop in it stands between backticks. -/
def text : Step → String
  | .key name => if '.' ∈ name.toList then "\x60" ++ name ++ "\x60" else name
  | .index position => toString position

end Step

/-- What can be wrong with a value. -/
inductive Fault where
  /-- A required field is absent. -/
  | missing
  /-- Not a text. -/
  | text
  /-- Nothing that can stand for an integer. -/
  | integer
  /-- A number that is not whole. -/
  | fraction
  /-- A text that spells no integer. -/
  | integerText
  /-- An integer that is too long. -/
  | integerSize
  /-- Nothing that can stand for a truth value. -/
  | flag
  /-- A number or text that stands for no truth value. -/
  | flagText
  /-- Not a list. -/
  | list
  /-- Not an object, where any keys are allowed. -/
  | table
  /-- Not an object, where the record of this name is expected. -/
  | record (name : String)
  /-- None of the given words. -/
  | choice (words : List String)
  /-- Not an instance of this class. -/
  | instanceOf (name : String)
  /-- Refused for a reason of the record's own. -/
  | refused (reason : String)
  /-- A key that is not allowed. -/
  | unknownKey
  /-- Records nested too deep. -/
  | depth
  deriving DecidableEq

namespace Fault

/-- The given words between single quotes, with commas and an "or" between them. -/
def alternatives : List String → String
  | [] => ""
  | [word] => "'" ++ word ++ "'"
  | [word, last] => "'" ++ word ++ "' or '" ++ last ++ "'"
  | word :: rest => "'" ++ word ++ "', " ++ alternatives rest

/-- The sentence that says what is wrong. -/
def message : Fault → String
  | .missing => "Field required"
  | .text => "Input should be a valid string"
  | .integer => "Input should be a valid integer"
  | .fraction => "Input should be a valid integer, got a number with a fractional part"
  | .integerText => "Input should be a valid integer, unable to parse string as an integer"
  | .integerSize => "Unable to parse input string as an integer, exceeded maximum size"
  | .flag => "Input should be a valid boolean"
  | .flagText => "Input should be a valid boolean, unable to interpret input"
  | .list => "Input should be a valid list"
  | .table => "Input should be a valid dictionary"
  | .record name => "Input should be a valid dictionary or instance of " ++ name
  | .choice words => "Input should be " ++ alternatives words
  | .instanceOf name => "Input should be an instance of " ++ name
  | .refused reason => "Value error, " ++ reason
  | .unknownKey => "Extra inputs are not permitted"
  | .depth => "Recursion error - maximum validation depth exceeded"

/-- The short name of a kind of fault. -/
def code : Fault → String
  | .missing => "missing"
  | .text => "string_type"
  | .integer => "int_type"
  | .fraction => "int_from_float"
  | .integerText => "int_parsing"
  | .integerSize => "int_parsing_size"
  | .flag => "bool_type"
  | .flagText => "bool_parsing"
  | .list => "list_type"
  | .table => "dict_type"
  | .record _ => "model_type"
  | .choice _ => "literal_error"
  | .instanceOf _ => "is_instance_of"
  | .refused _ => "value_error"
  | .unknownKey => "extra_forbidden"
  | .depth => "recursion_depth_exceeded"

end Fault

/-- One thing that is wrong with a value. -/
structure Issue where
  /-- The way from the whole value to the faulty part. -/
  place : List Step
  /-- What is wrong. -/
  fault : Fault
  /-- The type of the value that was found. -/
  found : String
  deriving DecidableEq

namespace Issue

/-- The issue seen from one step further out. -/
def within (step : Step) (issue : Issue) : Issue :=
  { issue with place := step :: issue.place }

/-- The lines of a report about the issue: its place, unless that is the whole value, and what is
wrong there. -/
def lines (issue : Issue) : List String :=
  let what := "  " ++ issue.fault.message ++ " [type=" ++ issue.fault.code
    ++ ", input_type=" ++ issue.found ++ "]"
  if issue.place.isEmpty then [what]
  else [String.intercalate "." (issue.place.map Step.text), what]

end Issue

/-- The outcome of reading a record out of a value. -/
inductive Reading (α : Type) where
  /-- The record. -/
  | accepted (a : α)
  /-- What is wrong: a first issue and the others in order. -/
  | rejected (first : Issue) (others : List Issue)

namespace Reading

variable {α β γ : Type}

/-- A reading with one issue about the whole value. -/
def fail (fault : Fault) (v : Value) : Reading α :=
  .rejected ⟨[], fault, v.typeName⟩ []

/-- The issues, in order; none if the record was read. -/
def issues : Reading α → List Issue
  | .accepted _ => []
  | .rejected first others => first :: others

/-- Changes the record. -/
def map (f : α → β) : Reading α → Reading β
  | .accepted a => .accepted (f a)
  | .rejected first others => .rejected first others

/-- Combines the readings of two parts; the issues of both are kept. -/
def both (f : α → β → γ) : Reading α → Reading β → Reading γ
  | .accepted a, .accepted b => .accepted (f a b)
  | .accepted _, .rejected first others => .rejected first others
  | .rejected first others, other => .rejected first (others ++ other.issues)

/-- The reading of a part, seen from one step further out. -/
def within (step : Step) : Reading α → Reading α
  | .accepted a => .accepted a
  | .rejected first others => .rejected (first.within step) (others.map (·.within step))

/-- Puts a record that was read to a further test of its own. -/
def check (test : α → Reading β) : Reading α → Reading β
  | .accepted a => test a
  | .rejected first others => .rejected first others

@[simp] theorem issues_both (f : α → β → γ) (r : Reading α) (s : Reading β) :
    (both f r s).issues = r.issues ++ s.issues := by
  cases r <;> cases s <;> simp [both, issues]

end Reading

/-- All issues of a record of some name; there is at least one. -/
structure Report where
  /-- The name of the record. -/
  model : String
  /-- The first issue. -/
  first : Issue
  /-- The other issues, in order. -/
  others : List Issue
  deriving DecidableEq

namespace Report

/-- How many issues there are. -/
def count (report : Report) : Nat := report.others.length + 1

/-- The text of a report: a heading with the number of issues and the lines of each. -/
def text (report : Report) : String :=
  let heading := toString report.count
    ++ (if report.others.isEmpty then " validation error for " else " validation errors for ")
    ++ report.model
  String.intercalate "\n" (heading :: (report.first :: report.others).flatMap Issue.lines)

end Report

end SymbolRecord
