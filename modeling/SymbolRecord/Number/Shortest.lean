import SymbolRecord.Number.Double
/-!
# The shortest decimal text of a double

A double is spelled with the fewest significant digits that still read back as the same double,
and of the spellings of that length with the nearest one.  A real number reads back as the double
when it lies in the interval between the midpoints to the two neighbours, ends included exactly
when the mantissa is even.

* `Shortest.digits`: the digits and the power of ten.
* `Shortest.Style`: where positional notation ends and how an exponent is written.
* `Shortest.text`: the spelling of a double in a style.
-/

namespace SymbolRecord

namespace Shortest

/-- The number of decimal digits of a natural number. -/
def width (n : Nat) : Nat := (Nat.toDigits 10 n).length

/-- Takes the zeros off the end of a decimal and raises its power of ten; the first argument
bounds the number of zeros taken. -/
def dropZeros : Nat → Nat → Int → Nat × Int
  | 0, n, power => (n, power)
  | fuel + 1, n, power =>
    if n ≠ 0 ∧ n % 10 = 0 then dropZeros fuel (n / 10) (power + 1) else (n, power)

/-- The interval that reads back as `mantissa · 2 ^ exponent`, together with the number itself,
over a common denominator. -/
structure Interval where
  /-- The numerator of the number. -/
  value : Nat
  /-- The numerator of the lower end. -/
  lower : Nat
  /-- The numerator of the upper end. -/
  upper : Nat
  /-- The common denominator. -/
  den : Nat
  /-- Whether the ends belong to the interval. -/
  closed : Bool

/-- The interval of the reals that are nearest to a double.  Below a power of two the neighbour is
half as far. -/
def interval (mantissa : Nat) (exponent : Int) : Interval :=
  let narrow := mantissa = Nat.pow 2 52 ∧ Double.leastExponent < exponent
  let quarter := exponent - 2
  let factor := if 0 ≤ quarter then Nat.pow 2 quarter.toNat else 1
  { value := 4 * mantissa * factor
    lower := (4 * mantissa - if narrow then 1 else 2) * factor
    upper := (4 * mantissa + 2) * factor
    den := if 0 ≤ quarter then 1 else Nat.pow 2 (-quarter).toNat
    closed := mantissa % 2 = 0 }

/-- Whether the decimal `c · 10 ^ power` lies in an interval. -/
def Interval.covers (i : Interval) (c : Nat) (power : Int) : Bool :=
  let (n, d) :=
    if 0 ≤ power then (c * Nat.pow 10 power.toNat, 1) else (c, Nat.pow 10 (-power).toNat)
  let x := n * i.den
  if i.closed then i.lower * d ≤ x ∧ x ≤ i.upper * d else i.lower * d < x ∧ x < i.upper * d

/-- The decimal of the grid `10 ^ power` that lies in an interval and is nearest to its number. -/
def Interval.onGrid? (i : Interval) (power : Int) : Option Nat :=
  let (n, d) :=
    if 0 ≤ power then (i.value, i.den * Nat.pow 10 power.toNat)
    else (i.value * Nat.pow 10 (-power).toNat, i.den)
  let below := n / d
  let rest := n % d
  match i.covers below power, i.covers (below + 1) power with
  | true, true =>
    some (if d < 2 * rest ∨ (2 * rest = d ∧ below % 2 = 1) then below + 1 else below)
  | true, false => some below
  | false, true => some (below + 1)
  | false, false => none

/-- The fewest digits that read back as the positive number `mantissa · 2 ^ exponent`, and the
power of ten of the last one. -/
def digits (mantissa : Nat) (exponent : Int) : Nat × Int :=
  let i := interval mantissa exponent
  let gap : Int := (width i.value : Int) - width i.den
  let reached :=
    if 0 ≤ gap then i.den * Nat.pow 10 gap.toNat ≤ i.value
    else i.den ≤ i.value * Nat.pow 10 (-gap).toNat
  let point := if reached then gap + 1 else gap
  let found := (List.range 17).findSome? fun count =>
    let power := point - (count + 1 : Nat)
    (i.onGrid? power).map fun c => (c, power)
  let (c, power) := found.getD (mantissa, 0)
  dropZeros 20 c power

/-- How a decimal is laid out. -/
structure Style where
  /-- Positional notation is used when the decimal point lies more than this far right of the
  first digit (negative: left of it). -/
  least : Int
  /-- Positional notation is used when the decimal point lies at most this far right. -/
  greatest : Int
  /-- What stands before a positive exponent. -/
  plus : String
  /-- The least number of digits of an exponent. -/
  exponentWidth : Nat
  /-- The spelling of infinity. -/
  infinity : String
  /-- The spelling of minus infinity. -/
  minusInfinity : String
  /-- The spelling of the value that is no number. -/
  undefined : String

/-- A run of zeros. -/
def zeros (n : Nat) : String := String.ofList (List.replicate n '0')

/-- The exponent part of a decimal. -/
def Style.exponentText (style : Style) (exponent : Int) : String :=
  let magnitude := toString exponent.natAbs
  let padded := zeros (style.exponentWidth - magnitude.length) ++ magnitude
  "e" ++ (if exponent < 0 then "-" else style.plus) ++ padded

/-- The spelling of the positive decimal `c · 10 ^ power`. -/
def Style.decimalText (style : Style) (c : Nat) (power : Int) : String :=
  let ds := (toString c).toList
  let point : Int := ds.length + power
  if style.least < point ∧ point ≤ style.greatest then
    if point ≤ 0 then "0." ++ zeros (-point).toNat ++ String.ofList ds
    else if ds.length ≤ point.toNat then String.ofList ds ++ zeros (point.toNat - ds.length) ++ ".0"
    else String.ofList (ds.take point.toNat) ++ "." ++ String.ofList (ds.drop point.toNat)
  else
    let fraction := ds.drop 1
    String.ofList (ds.take 1)
      ++ (if fraction.isEmpty then "" else "." ++ String.ofList fraction)
      ++ style.exponentText (point - 1)

/-- The spelling of a double. -/
def text (style : Style) : Double → String
  | .finite negative mantissa exponent =>
    let magnitude :=
      if mantissa = 0 then "0.0"
      else
        let (c, power) := digits mantissa exponent
        style.decimalText c power
    if negative then "-" ++ magnitude else magnitude
  | .infinite negative => if negative then style.minusInfinity else style.infinity
  | .nan => style.undefined

end Shortest

end SymbolRecord
