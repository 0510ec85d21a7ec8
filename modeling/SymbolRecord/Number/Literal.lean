import SymbolRecord.Value
/-!
# Number literals of JSON

A JSON number is read as an integer when it has neither fraction nor exponent and fits 64 bits,
signed or unsigned; any other number is read as the nearest double.  A number whose nearest double
is infinite is refused.

* `NumberLiteral.readDigits`: the value of a run of decimal digits.
* `NumberLiteral.read?`: the value of a number literal, or nothing if the text is not one.
* `NumberLiteral.write`: the text of an integer.
-/

namespace SymbolRecord

namespace NumberLiteral

/-- The least integer that is kept as an integer. -/
def leastInteger : Int := -9223372036854775808

/-- The greatest integer that is kept as an integer. -/
def greatestInteger : Int := 18446744073709551615

/-- Whether an integer has a JSON form. -/
def inRange (n : Int) : Bool := leastInteger ≤ n && n ≤ greatestInteger

/-- Whether a character is a decimal digit. -/
def isDigit (c : Char) : Bool := '0' ≤ c && c ≤ '9'

/-- The number that a digit stands for. -/
def digitValue (c : Char) : Nat := c.toNat - '0'.toNat

/-- The number that a run of decimal digits spells. -/
def readDigits (ds : List Char) : Nat :=
  ds.foldl (fun n d => 10 * n + digitValue d) 0

/-- The decimal digits of a number. -/
def writeDigits (n : Nat) : List Char := Nat.toDigits 10 n

/-- The decimal text of an integer. -/
def write : Int → List Char
  | .ofNat n => writeDigits n
  | .negSucc n => '-' :: writeDigits (n + 1)

/-- The parts of a number literal. -/
structure Parts where
  /-- Whether it has a minus sign. -/
  negative : Bool
  /-- The digits before the point. -/
  whole : List Char
  /-- The digits after the point, if there is one. -/
  fraction? : Option (List Char)
  /-- The exponent, if there is one. -/
  exponent? : Option Int

/-- Whether a run of digits may stand before the point: it is not empty and has no leading zero. -/
def isWhole : List Char → Bool
  | [] => false
  | ['0'] => true
  | '0' :: _ => false
  | _ => true

/-- Reads an exponent: nothing, or a mark, an optional sign and digits. -/
def readExponent? : List Char → Option (Option Int)
  | [] => some none
  | mark :: rest =>
    if mark = 'e' ∨ mark = 'E' then
      let (negative, ds) := match rest with
        | '-' :: ds => (true, ds)
        | '+' :: ds => (false, ds)
        | ds => (false, ds)
      if ds ≠ [] ∧ ds.all isDigit then
        let n : Int := readDigits ds
        some (some (if negative then -n else n))
      else none
    else none

/-- Splits a number literal into its parts. -/
def parts? (cs : List Char) : Option Parts :=
  let (negative, cs) := match cs with
    | '-' :: rest => (true, rest)
    | _ => (false, cs)
  let whole := cs.takeWhile isDigit
  let rest := cs.dropWhile isDigit
  if isWhole whole then
    match rest with
    | '.' :: after =>
      let fraction := after.takeWhile isDigit
      if fraction.isEmpty then none
      else (readExponent? (after.dropWhile isDigit)).map (⟨negative, whole, some fraction, ·⟩)
    | _ => (readExponent? rest).map (⟨negative, whole, none, ·⟩)
  else none

/-- The value that the parts of a literal stand for. -/
def Parts.value? (p : Parts) : Option Value :=
  let decimal (digits : Nat) (exponent : Int) : Option Value :=
    let x := Double.ofDecimal p.negative digits exponent
    if x.isFinite then some (.float x) else none
  match p.fraction?, p.exponent? with
  | none, none =>
    let magnitude := readDigits p.whole
    let n : Int := if p.negative then -(magnitude : Int) else magnitude
    if inRange n then some (.int n) else decimal magnitude 0
  | fraction?, exponent? =>
    let fraction := fraction?.getD []
    decimal (readDigits (p.whole ++ fraction)) (exponent?.getD 0 - fraction.length)

/-- The value of a number literal. -/
def read? (cs : List Char) : Option Value :=
  (parts? cs).bind Parts.value?

end NumberLiteral

end SymbolRecord
