import SymbolRecord.Json.Token
import SymbolRecord.Text.Utf8
/-!
# JSON documents

A document is one JSON value, in UTF-8, with white space around its tokens.  The value is put
together from the tokens by a machine that keeps a stack of the lists and objects that are still
open; the length of the stack is the nesting depth, which is limited.

When an object has a key twice, the last value counts and stands in the place of the first.

* `Json.Frame`: a list or object that is still open.
* `Json.assemble`: the value of a token list.
* `Json.parse?`: the value of a document.
-/

namespace SymbolRecord

namespace Json

/-- The greatest number of lists and objects that may be nested in a document. -/
def nestingLimit : Nat := 1024

/-- A list or object that is still open. -/
inductive Frame where
  /-- A list and its items so far, in reverse. -/
  | list (items : List Value)
  /-- An object, its entries so far and the key whose value is awaited. -/
  | object (entries : Entries Value) (key : String)

/-- What must come next. -/
inductive Expected where
  /-- A value. -/
  | value
  /-- The first item of a list, or its end. -/
  | firstItem
  /-- The first key of an object, or its end. -/
  | firstKey
  /-- A further key of an object with these entries. -/
  | key (entries : Entries Value)
  /-- The colon after a key of an object with these entries. -/
  | colon (entries : Entries Value) (key : String)
  /-- After a value inside the innermost frame: a comma or the end of the frame. -/
  | separator
  /-- Nothing: the value is complete. -/
  | nothing (v : Value)

/-- Puts a finished value into the innermost open frame. -/
def place (v : Value) : List Frame → List Frame × Expected
  | [] => ([], .nothing v)
  | .list items :: outer => (.list (v :: items) :: outer, .separator)
  | .object entries key :: outer =>
    (.object (Entries.put entries key v) key :: outer, .separator)

/-- Begins a value with a token.  A list or object that would nest too deep is refused. -/
def beginValue? (frames : List Frame) : Token → Option (List Frame × Expected)
  | .scalar v => some (place v frames)
  | .text s => some (place (.text s) frames)
  | .openList =>
    if frames.length < nestingLimit then some (.list [] :: frames, .firstItem) else none
  | .openObject => if frames.length < nestingLimit then some (frames, .firstKey) else none
  | _ => none

/-- Reads one token. -/
def advance? (frames : List Frame) (expected : Expected) (token : Token) :
    Option (List Frame × Expected) :=
  match expected, token, frames with
  | .value, token, frames => beginValue? frames token
  | .firstItem, .closeList, .list _ :: outer => some (place (.list []) outer)
  | .firstItem, token, frames => beginValue? frames token
  | .firstKey, .closeObject, frames => some (place (.object []) frames)
  | .firstKey, .text key, frames => some (frames, .colon [] key)
  | .key entries, .text key, frames => some (frames, .colon entries key)
  | .colon entries key, .colon, frames => some (.object entries key :: frames, .value)
  | .separator, .comma, .list items :: outer => some (.list items :: outer, .value)
  | .separator, .comma, .object entries _ :: outer => some (outer, .key entries)
  | .separator, .closeList, .list items :: outer => some (place (.list items.reverse) outer)
  | .separator, .closeObject, .object entries _ :: outer => some (place (.object entries) outer)
  | _, _, _ => none

/-- The value of a token list, read on from a state. -/
def assemble : List Frame → Expected → List Token → Option Value
  | _, .nothing v, [] => some v
  | _, _, [] => none
  | frames, expected, token :: rest =>
    match advance? frames expected token with
    | some (frames, expected) => assemble frames expected rest
    | none => none

/-- The value of a JSON text. -/
def parseText? (cs : List Char) : Option Value :=
  (Token.scan .between cs).bind (assemble [] .value)

/-- The value of a JSON document. -/
def parse? (bytes : Bytes) : Option Value :=
  (Utf8.decode? bytes).bind parseText?

end Json

end SymbolRecord
