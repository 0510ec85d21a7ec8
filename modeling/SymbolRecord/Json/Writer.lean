import SymbolRecord.Json.Token
import SymbolRecord.Number.Shortest
import SymbolRecord.Text.Utf8
/-!
# Written JSON

A value is written either compactly or with one item to a line, indented by two spaces a level.
Writing itself never fails.  Whether a value may be written is a separate question: integers must
fit 64 bits, the nesting is limited, and foreign values have no JSON form.  Of several reasons the
one that comes first in the text is reported.

* `Json.sortKeys`: the value with the keys of every object in ascending order.
* `Json.Layout`, `Json.write`: the text of a value.
* `Json.Unwritable`, `Json.check`: why a value may not be written.
* `Json.document`: the bytes of a value, or the reason.
-/

namespace SymbolRecord

namespace Json

/-! ## Sorting keys -/

mutual

/-- Puts the keys of every object, at every depth, into ascending order. -/
def sortKeys : Value → Value
  | .list items => .list (sortItems items)
  | .object entries => .object (Entries.sorted (sortEntries entries))
  | v => v

/-- Sorts the keys inside each item. -/
def sortItems : List Value → List Value
  | [] => []
  | item :: rest => sortKeys item :: sortItems rest

/-- Sorts the keys inside each value of an object. -/
def sortEntries : List (String × Value) → List (String × Value)
  | [] => []
  | (key, item) :: rest => (key, sortKeys item) :: sortEntries rest

end

/-! ## Text -/

/-- How a written value is laid out. -/
inductive Layout where
  /-- Everything on one line, without spaces. -/
  | compact
  /-- Each item on a line of its own, indented by two spaces a level. -/
  | indented
  deriving DecidableEq

/-- A new line and the indentation of a level. -/
def Layout.line (layout : Layout) (level : Nat) : List Char :=
  match layout with
  | .compact => []
  | .indented => '\n' :: List.replicate (2 * level) ' '

/-- What stands between a key and its value. -/
def Layout.colon : Layout → List Char
  | .compact => [':']
  | .indented => [':', ' ']

/-- Doubles are written positionally up to sixteen digits before the point and with an unsigned
exponent beyond; what is no number is written as null. -/
def doubleStyle : Shortest.Style :=
  { least := -5, greatest := 16, plus := "", exponentWidth := 1
    infinity := "null", minusInfinity := "null", undefined := "null" }

/-- The text of a value that is neither a list nor an object. -/
def writeScalar : Value → List Char
  | .bool true => ['t', 'r', 'u', 'e']
  | .bool false => ['f', 'a', 'l', 's', 'e']
  | .int n => NumberLiteral.write n
  | .float x => (Shortest.text doubleStyle x).toList
  | .text s => quoted s
  | _ => ['n', 'u', 'l', 'l']

mutual

/-- The text of a value that stands at a nesting level. -/
def write (layout : Layout) (level : Nat) : Value → List Char
  | .list [] => ['[', ']']
  | .list (item :: rest) =>
    '[' :: (layout.line (level + 1) ++ write layout (level + 1) item
      ++ writeItems layout (level + 1) rest ++ layout.line level ++ [']'])
  | .object [] => ['\x7b', '\x7d']
  | .object ((key, item) :: rest) =>
    '\x7b' :: (layout.line (level + 1) ++ quoted key ++ layout.colon
      ++ write layout (level + 1) item ++ writeEntries layout (level + 1) rest
      ++ layout.line level ++ ['\x7d'])
  | v => writeScalar v

/-- The text of the further items of a list. -/
def writeItems (layout : Layout) (level : Nat) : List Value → List Char
  | [] => []
  | item :: rest =>
    ',' :: (layout.line level ++ write layout level item ++ writeItems layout level rest)

/-- The text of the further entries of an object. -/
def writeEntries (layout : Layout) (level : Nat) : List (String × Value) → List Char
  | [] => []
  | (key, item) :: rest =>
    ',' :: (layout.line level ++ quoted key ++ layout.colon ++ write layout level item
      ++ writeEntries layout level rest)

end

/-! ## What may be written -/

/-- Why a value may not be written. -/
inductive Unwritable where
  /-- An integer does not fit 64 bits. -/
  | integer
  /-- Lists and objects are nested too deep. -/
  | nesting
  /-- A value of this type has no JSON form. -/
  | type (name : String)
  deriving DecidableEq

/-- The words for a reason. -/
def Unwritable.message : Unwritable → String
  | .integer => "Integer exceeds 64-bit range"
  | .nesting => "Recursion limit reached"
  | .type name => "Type is not JSON serializable: " ++ name

/-- The greatest number of lists and objects that may be nested in a written value. -/
def writtenNestingLimit : Nat := 254

mutual

/-- Finds the first reason against writing a value that lies inside `depth` lists and objects. -/
def check (depth : Nat) : Value → Except Unwritable Unit
  | .int n => if NumberLiteral.inRange n then .ok () else .error .integer
  | .foreign type _ => .error (.type type)
  | .list items =>
    if depth < writtenNestingLimit then checkItems (depth + 1) items else .error .nesting
  | .object entries =>
    if depth < writtenNestingLimit then checkEntries (depth + 1) entries else .error .nesting
  | _ => .ok ()

/-- Finds the first reason in a list. -/
def checkItems (depth : Nat) : List Value → Except Unwritable Unit
  | [] => .ok ()
  | item :: rest =>
    match check depth item with
    | .error e => .error e
    | .ok () => checkItems depth rest

/-- Finds the first reason in an object. -/
def checkEntries (depth : Nat) : List (String × Value) → Except Unwritable Unit
  | [] => .ok ()
  | (_, item) :: rest =>
    match check depth item with
    | .error e => .error e
    | .ok () => checkEntries depth rest

end

/-- The bytes of a value, if it may be written. -/
def document (layout : Layout) (v : Value) : Except Unwritable Bytes :=
  match check 0 v with
  | .error e => .error e
  | .ok () => .ok (Utf8.encode (write layout 0 v))

end Json

end SymbolRecord
