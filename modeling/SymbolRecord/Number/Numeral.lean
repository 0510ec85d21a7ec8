import SymbolRecord.Number.Literal
import SymbolRecord.Text.Blank
/-!
# Integers spelled as texts

Where an integer is expected a text may stand that spells one.  The plain spelling is a minus sign,
if the integer is negative, and at most 4300 digits without a zero in front.  A loose spelling is
turned into the plain one by leaving out what does not count: blanks around it, a plus sign, zeros
in front, single underscores between other marks, and a point followed by nothing but zeros.

Zeros in front may have any number of underscores among and behind them.  They count as nothing at
all, so the number proper, which may have its minus sign there, begins behind them.

A text that begins like a plain spelling with too many digits is too long, whatever follows; a
loose spelling with too many digits is just malformed.

* `Numeral`: what a text spells.
* `Numeral.plain?`, `Numeral.tidy?`: the plain spellings, and how others are turned into them.
* `Numeral.read`: reads a text.
-/

namespace SymbolRecord

/-- What a text spells. -/
inductive Numeral where
  /-- An integer. -/
  | integer (n : Int)
  /-- More digits than are allowed. -/
  | tooLong
  /-- No integer. -/
  | malformed
  deriving DecidableEq

namespace Numeral

/-- The greatest number of digits. -/
def digitLimit : Nat := 4300

/-! ## Plain spellings -/

/-- Takes a minus sign off a text and says whether there was one. -/
def minus : List Char → Bool × List Char
  | '-' :: rest => (true, rest)
  | cs => (false, cs)

/-- Whether a text begins with too many digits, the first of which counts. -/
def exceeds (cs : List Char) : Bool :=
  let ds := (minus cs).2.takeWhile NumberLiteral.isDigit
  ds.head? ≠ some '0' && digitLimit < ds.length

/-- The integer that a text spells plainly. -/
def plain? (cs : List Char) : Option Int :=
  let (negative, ds) := minus cs
  if ds.all NumberLiteral.isDigit && NumberLiteral.isWhole ds && ds.length ≤ digitLimit then
    let magnitude : Int := NumberLiteral.readDigits ds
    some (if negative then -magnitude else magnitude)
  else none

/-! ## Loose spellings -/

/-- What follows zeros and underscores, of which the last is given: a digit that counts, or a
minus sign.  Before a point and at the end the last of them stays. -/
def pastZeros (last : Char) : List Char → Option (List Char)
  | [] => some [last]
  | c :: rest =>
    if c = '0' || c = '_' then pastZeros c rest
    else if NumberLiteral.isDigit c || c = '-' then some (c :: rest)
    else if c = '.' then some (last :: c :: rest)
    else none

/-- A text without zeros in front.  Its first character must be a digit. -/
def withoutZeros : List Char → Option (List Char)
  | [] => none
  | c :: rest =>
    if c = '0' then pastZeros c rest
    else if NumberLiteral.isDigit c then some (c :: rest)
    else none

/-- A text without the point and the zeros that it ends with. -/
def withoutFraction (cs : List Char) : List Char :=
  match cs.dropWhile (· ≠ '.') with
  | _ :: zeros => if !zeros.isEmpty && zeros.all (· = '0') then cs.takeWhile (· ≠ '.') else cs
  | [] => cs

/-- Whether every underscore stands alone between two other marks. -/
def isGrouped (cs : List Char) : Bool :=
  cs.head? ≠ some '_' && cs.getLast? ≠ some '_'
    && (cs.zip (cs.drop 1)).all fun pair => pair ≠ ('_', '_')

/-- Takes the underscores out of a text in which each stands alone between two other marks. -/
def ungroup (cs : List Char) : List Char := if isGrouped cs then cs.filter (· ≠ '_') else cs

/-- Takes the sign off a text and says whether it is a minus. -/
def sign : List Char → Bool × List Char
  | '+' :: rest => (false, rest)
  | cs => minus cs

/-- Leaves out of a text what does not count. -/
def tidy? (cs : List Char) : Option (List Char) :=
  let (negative, cs) := sign cs
  (withoutZeros cs).map fun cs =>
    let tidied := ungroup (withoutFraction cs)
    if negative then '-' :: tidied else tidied

/-! ## Reading -/

/-- What a text spells. -/
def read (s : String) : Numeral :=
  if exceeds s.toList then .tooLong
  else
    match (tidy? (Text.trim s.toList)).bind plain? with
    | some n => .integer n
    | none => .malformed

end Numeral

end SymbolRecord
