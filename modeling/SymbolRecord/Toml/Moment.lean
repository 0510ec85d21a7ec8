import SymbolRecord.Value
import SymbolRecord.Number.Literal
/-!
# Dates and times

A TOML value can be a date, a time of day, or both with or without an offset from universal time.
No setting of the configuration is one, so a date or time is kept as a foreign value: its type and
the spelling that a message about it shows.

* `Toml.readDate?`, `Toml.readTime?`, `Toml.readOffset?`: the parts.
* `Toml.readMoment?`: a date or time at the beginning of a text.
-/

namespace SymbolRecord

namespace Toml

/-- A calendar date. -/
structure Date where
  /-- The year. -/
  year : Nat
  /-- The month, from one. -/
  month : Nat
  /-- The day, from one. -/
  day : Nat

/-- A time of day. -/
structure Clock where
  /-- The hour. -/
  hour : Nat
  /-- The minute. -/
  minute : Nat
  /-- The second. -/
  second : Nat
  /-- The millionths of a second. -/
  micros : Nat

/-- Reads a number of exactly `count` digits. -/
def readFixed? (count : Nat) (cs : List Char) : Option (Nat × List Char) :=
  let ds := cs.take count
  if ds.length = count ∧ ds.all NumberLiteral.isDigit then
    some (NumberLiteral.readDigits ds, cs.drop count)
  else none

/-- Reads a character. -/
def readChar? (c : Char) : List Char → Option (List Char)
  | d :: rest => if d = c then some rest else none
  | [] => none

/-- Reads a date of the form `1979-05-27`, with a month up to 12 and a day up to 31. -/
def readDate? (cs : List Char) : Option (Date × List Char) := do
  let (year, cs) ← readFixed? 4 cs
  let cs ← readChar? '-' cs
  let (month, cs) ← readFixed? 2 cs
  let cs ← readChar? '-' cs
  let (day, cs) ← readFixed? 2 cs
  if 1 ≤ month ∧ month ≤ 12 ∧ 1 ≤ day ∧ day ≤ 31 then some (⟨year, month, day⟩, cs) else none

/-- Reads the digits behind a point as millionths; there may be more than six. -/
def readFraction (cs : List Char) : Nat × List Char :=
  match cs with
  | '.' :: after =>
    let ds := after.takeWhile NumberLiteral.isDigit
    if ds.isEmpty then (0, cs)
    else
      let six := ds.take 6
      (NumberLiteral.readDigits (six ++ List.replicate (6 - six.length) '0'),
        after.dropWhile NumberLiteral.isDigit)
  | _ => (0, cs)

/-- Reads an hour and a minute of the form `07:32`. -/
def readHourMinute? (cs : List Char) : Option (Nat × Nat × List Char) := do
  let (hour, cs) ← readFixed? 2 cs
  let cs ← readChar? ':' cs
  let (minute, cs) ← readFixed? 2 cs
  if hour < 24 ∧ minute < 60 then some (hour, minute, cs) else none

/-- Reads a time of the form `07:32:00` or `07:32:00.5`. -/
def readTime? (cs : List Char) : Option (Clock × List Char) := do
  let (hour, minute, cs) ← readHourMinute? cs
  let cs ← readChar? ':' cs
  let (second, cs) ← readFixed? 2 cs
  if second < 60 then
    let (micros, cs) := readFraction cs
    some (⟨hour, minute, second, micros⟩, cs)
  else none

/-- Reads an offset in minutes, if there is one. -/
def readOffset? (cs : List Char) : Option Int × List Char :=
  match cs with
  | [] => (none, cs)
  | c :: rest =>
    if c = 'Z' ∨ c = 'z' then (some 0, rest)
    else if c = '+' ∨ c = '-' then
      match readHourMinute? rest with
      | some (hour, minute, after) =>
        let minutes : Int := 60 * hour + minute
        (some (if c = '-' then -minutes else minutes), after)
      | none => (none, cs)
    else (none, cs)

/-- Whether a year has a 29th of February. -/
def isLeap (year : Nat) : Bool :=
  year % 4 = 0 && (year % 100 ≠ 0 || year % 400 = 0)

/-- The number of days of a month. -/
def daysOf (year month : Nat) : Nat :=
  if month = 2 then if isLeap year then 29 else 28
  else if month = 4 ∨ month = 6 ∨ month = 9 ∨ month = 11 then 30
  else 31

/-- Whether a date exists. -/
def Date.exists (date : Date) : Bool := 1 ≤ date.year && date.day ≤ daysOf date.year date.month

/-- The parts of a time, without zeros for the millionths and then the seconds. -/
def Clock.parts (clock : Clock) : List Nat :=
  [clock.hour, clock.minute]
    ++ if clock.micros ≠ 0 then [clock.second, clock.micros]
      else if clock.second ≠ 0 then [clock.second] else []

/-- Numbers with commas between them. -/
def commas (ns : List Nat) : String := String.intercalate ", " (ns.map toString)

/-- The spelling of an offset. -/
def offsetSpelling (minutes : Int) : String :=
  if minutes = 0 then "datetime.timezone.utc"
  else
    let span :=
      if 0 < minutes then "seconds=" ++ toString (60 * minutes)
      else "days=-1, seconds=" ++ toString (86400 + 60 * minutes)
    "datetime.timezone(datetime.timedelta(" ++ span ++ "))"

/-- A date as a value. -/
def Date.toValue (date : Date) : Value :=
  .foreign "date" ("datetime.date(" ++ commas [date.year, date.month, date.day] ++ ")")

/-- A time of day as a value. -/
def Clock.toValue (clock : Clock) : Value :=
  .foreign "time" ("datetime.time(" ++ commas clock.parts ++ ")")

/-- A date with a time of day as a value. -/
def Date.withClock (date : Date) (clock : Clock) (offset? : Option Int) : Value :=
  let zone := match offset? with
    | some minutes => ", tzinfo=" ++ offsetSpelling minutes
    | none => ""
  .foreign "datetime"
    ("datetime.datetime(" ++ commas ([date.year, date.month, date.day] ++ clock.parts) ++ zone
      ++ ")")

/-- Whether a character divides a date from a time. -/
def isDivider (c : Char) : Bool := c = 'T' || c = 't' || c = ' '

/-- Reads a date or time at the beginning of a text.  The value is missing when the date does not
exist. -/
def readMoment? (cs : List Char) : Option (Option Value × List Char) :=
  match readDate? cs with
  | some (date, rest) =>
    let (v, after) :=
      match rest with
      | divider :: behind =>
        match if isDivider divider then readTime? behind else none with
        | some (clock, after) =>
          let (offset?, after) := readOffset? after
          (date.withClock clock offset?, after)
        | none => (date.toValue, rest)
      | [] => (date.toValue, rest)
    some (if date.exists then some v else none, after)
  | none => (readTime? cs).map fun (clock, rest) => (some clock.toValue, rest)

end Toml

end SymbolRecord
