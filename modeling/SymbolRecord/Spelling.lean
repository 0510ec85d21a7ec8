import SymbolRecord.Value
import SymbolRecord.Number.Shortest
import SymbolRecord.Number.Literal
import SymbolRecord.Text.Quoted
/-!
# Spelled values

Messages about a configuration file spell the value they complain about: texts are quoted, lists
stand in brackets and objects in braces, the absent value and the truth values are words.  An
integer of more than 4300 digits is not spelled.

* `Spelling.digitLimit`, `Spelling.integer?`, `Spelling.tooLong`: integers, which may be too long.
* `Value.spelling?`: the spelling of a value.
-/

namespace SymbolRecord

namespace Spelling

/-- The greatest number of digits of a spelled integer. -/
def digitLimit : Nat := 4300

/-- Doubles are spelled positionally from `0.0001` up to sixteen digits before the point. -/
def doubleStyle : Shortest.Style :=
  { least := -4, greatest := 16, plus := "+", exponentWidth := 2
    infinity := "inf", minusInfinity := "-inf", undefined := "nan" }

/-- Whether an integer has no more digits than are spelled. -/
def isShort (n : Int) : Bool := (NumberLiteral.writeDigits n.natAbs).length ≤ digitLimit

/-- The spelling of an integer that is not too long. -/
def integer? (n : Int) : Option String :=
  if isShort n then some (String.ofList (NumberLiteral.write n)) else none

/-- The words for an integer that is too long. -/
def tooLong : String :=
  "Exceeds the limit (" ++ toString digitLimit ++ " digits) for integer string conversion; "
    ++ "use sys.set_int_max_str_digits() to increase the limit"

/-- Pieces with a comma and a space between them. -/
def commas (pieces : List String) : String := String.intercalate ", " pieces

end Spelling

namespace Value

mutual

/-- The spelling of a value, unless it holds an integer that is too long. -/
def spelling? : Value → Option String
  | .null => some "None"
  | .bool true => some "True"
  | .bool false => some "False"
  | .int n => Spelling.integer? n
  | .float x => some (Shortest.text Spelling.doubleStyle x)
  | .text s => some (Text.quote s)
  | .list items => (spellItems? items).map fun pieces => "[" ++ Spelling.commas pieces ++ "]"
  | .object entries =>
    (spellEntries? entries).map fun pieces => "\x7b" ++ Spelling.commas pieces ++ "\x7d"
  | .foreign _ spelling => some spelling

/-- The spellings of the items of a list. -/
def spellItems? : List Value → Option (List String)
  | [] => some []
  | item :: rest =>
    match spelling? item, spellItems? rest with
    | some piece, some pieces => some (piece :: pieces)
    | _, _ => none

/-- The spellings of the entries of an object. -/
def spellEntries? : List (String × Value) → Option (List String)
  | [] => some []
  | (key, item) :: rest =>
    match spelling? item, spellEntries? rest with
    | some piece, some pieces => some ((Text.quote key ++ ": " ++ piece) :: pieces)
    | _, _ => none

end

end Value

end SymbolRecord
