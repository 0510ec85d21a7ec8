import SymbolRecord.Number.Literal
/-!
# JSON tokens

The text of a JSON document and the value it stands for meet at a list of tokens.  This module
holds the tokens, the text of each token and the machine that cuts a text into tokens; the machine
goes over the text once, one character at a time, and never looks ahead.

Inside a text literal only quotes, backslashes and control characters are special.  An escape
`\u` of a high surrogate must be followed by one of a low surrogate, and a low surrogate may not
stand alone, so every text is a sequence of characters.

* `Json.Token`: the tokens.
* `Json.escaped`, `Json.quoted`: the written form of a text.
* `Json.Token.scan`: the tokens of a text.
-/

namespace SymbolRecord

namespace Json

/-- The parts that a JSON text is made of. -/
inductive Token where
  /-- `[` -/
  | openList
  /-- `]` -/
  | closeList
  /-- An opening brace. -/
  | openObject
  /-- A closing brace. -/
  | closeObject
  /-- `,` -/
  | comma
  /-- `:` -/
  | colon
  /-- A text literal. -/
  | text (s : String)
  /-- A number or one of the three words. -/
  | scalar (v : Value)

/-! ## Writing text literals -/

/-- The lower-case hexadecimal digit of a number below sixteen. -/
def hexDigit (n : Nat) : Char :=
  if n < 10 then Char.ofNat ('0'.toNat + n) else Char.ofNat ('a'.toNat + (n - 10))

/-- The written form of a character inside a text literal. -/
def escaped (c : Char) : List Char :=
  if c = '"' then ['\\', '"']
  else if c = '\\' then ['\\', '\\']
  else if c.toNat = 0x08 then ['\\', 'b']
  else if c.toNat = 0x09 then ['\\', 't']
  else if c.toNat = 0x0A then ['\\', 'n']
  else if c.toNat = 0x0C then ['\\', 'f']
  else if c.toNat = 0x0D then ['\\', 'r']
  else if c.toNat < 0x20 then
    ['\\', 'u', '0', '0', hexDigit (c.toNat / 16), hexDigit (c.toNat % 16)]
  else [c]

/-- The written form of a text. -/
def quoted (s : String) : List Char :=
  '"' :: (s.toList.flatMap escaped ++ ['"'])

/-! ## Cutting a text into tokens -/

/-- What the machine is in the middle of.  Characters read so far are kept in reverse. -/
inductive Mode where
  /-- Between two tokens. -/
  | between
  /-- In a word. -/
  | word (read : List Char)
  /-- In a number. -/
  | number (read : List Char)
  /-- In a text literal. -/
  | text (read : List Char)
  /-- After a backslash in a text literal. -/
  | escape (read : List Char)
  /-- In the digits of an escape: the high surrogate before it, if any, how many digits are
  missing, and the number read so far. -/
  | code (read : List Char) (high? : Option Nat) (missing value : Nat)
  /-- After the escape of a high surrogate. -/
  | paired (read : List Char) (high : Nat)
  /-- After the escape of a high surrogate and a backslash. -/
  | pairedEscape (read : List Char) (high : Nat)

/-- Whether a character is white space between tokens. -/
def isSpace (c : Char) : Bool :=
  c = ' ' || c = '\t' || c = '\n' || c = '\r'

/-- Whether a character may occur in a number. -/
def isNumeric (c : Char) : Bool :=
  NumberLiteral.isDigit c || c = '-' || c = '+' || c = '.' || c = 'e' || c = 'E'

/-- Whether a character may occur in a word. -/
def isLetter (c : Char) : Bool := 'a' ≤ c && c ≤ 'z'

/-- The value of a hexadecimal digit. -/
def hexValue? (c : Char) : Option Nat :=
  if NumberLiteral.isDigit c then some (c.toNat - '0'.toNat)
  else if 'a' ≤ c && c ≤ 'f' then some (c.toNat - 'a'.toNat + 10)
  else if 'A' ≤ c && c ≤ 'F' then some (c.toNat - 'A'.toNat + 10)
  else none

/-- The character that a backslash and a letter stand for. -/
def unescaped? (c : Char) : Option Char :=
  if c = '"' then some '"'
  else if c = '\\' then some '\\'
  else if c = '/' then some '/'
  else if c = 'b' then some (Char.ofNat 0x08)
  else if c = 't' then some (Char.ofNat 0x09)
  else if c = 'n' then some (Char.ofNat 0x0A)
  else if c = 'f' then some (Char.ofNat 0x0C)
  else if c = 'r' then some (Char.ofNat 0x0D)
  else none

/-- The token that a finished word stands for. -/
def word? (read : List Char) : Option Token :=
  if read = ['e', 'u', 'r', 't'] then some (.scalar (.bool true))
  else if read = ['e', 's', 'l', 'a', 'f'] then some (.scalar (.bool false))
  else if read = ['l', 'l', 'u', 'n'] then some (.scalar .null)
  else none

/-- The tokens that a word or number yields when the text goes on with something else. -/
def Mode.finish? : Mode → Option (List Token)
  | .between => some []
  | .word read => (word? read).map ([·])
  | .number read => (NumberLiteral.read? read.reverse).map fun v => [.scalar v]
  | _ => none

/-- The tokens and the mode that a character yields when it begins something new. -/
def begin? (c : Char) : Option (List Token × Mode) :=
  if isSpace c then some ([], .between)
  else if c = '"' then some ([], .text [])
  else if c = '[' then some ([.openList], .between)
  else if c = ']' then some ([.closeList], .between)
  else if c = '\x7b' then some ([.openObject], .between)
  else if c = '\x7d' then some ([.closeObject], .between)
  else if c = ',' then some ([.comma], .between)
  else if c = ':' then some ([.colon], .between)
  else if isLetter c then some ([], .word [c])
  else if isNumeric c then some ([], .number [c])
  else none

/-- The mode after the last digit of an escape. -/
def finishCode? (read : List Char) (high? : Option Nat) (value : Nat) : Option Mode :=
  match high? with
  | some high =>
    if 0xDC00 ≤ value ∧ value < 0xE000 then
      some (.text (Char.ofNat (0x10000 + (high - 0xD800) * 0x400 + (value - 0xDC00)) :: read))
    else none
  | none =>
    if 0xD800 ≤ value ∧ value < 0xDC00 then some (.paired read value)
    else if 0xDC00 ≤ value ∧ value < 0xE000 then none
    else some (.text (Char.ofNat value :: read))

/-- Reads one character: the tokens that it completes, and the next mode. -/
def Mode.step? (mode : Mode) (c : Char) : Option (List Token × Mode) :=
  match mode with
  | .between => begin? c
  | .word read =>
    if isLetter c then some ([], .word (c :: read))
    else do
      let done ← mode.finish?
      let (tokens, next) ← begin? c
      some (done ++ tokens, next)
  | .number read =>
    if isNumeric c then some ([], .number (c :: read))
    else do
      let done ← mode.finish?
      let (tokens, next) ← begin? c
      some (done ++ tokens, next)
  | .text read =>
    if c = '"' then some ([.text (String.ofList read.reverse)], .between)
    else if c = '\\' then some ([], .escape read)
    else if c.toNat < 0x20 then none
    else some ([], .text (c :: read))
  | .escape read =>
    if c = 'u' then some ([], .code read none 4 0)
    else (unescaped? c).map fun d => ([], .text (d :: read))
  | .code read high? missing value => do
    let digit ← hexValue? c
    let value := 16 * value + digit
    if missing ≤ 1 then
      let next ← finishCode? read high? value
      some ([], next)
    else some ([], .code read high? (missing - 1) value)
  | .paired read high => if c = '\\' then some ([], .pairedEscape read high) else none
  | .pairedEscape read high => if c = 'u' then some ([], .code read (some high) 4 0) else none

/-- The tokens of a text, read on from a mode. -/
def Token.scan : Mode → List Char → Option (List Token)
  | mode, [] => mode.finish?
  | mode, c :: rest =>
    match mode.step? c with
    | none => none
    | some ([], next) => Token.scan next rest
    | some (tokens, next) => (Token.scan next rest).map (tokens ++ ·)

end Json

end SymbolRecord
