import SymbolRecord.Toml.Moment
import SymbolRecord.Json.Token
/-!
# TOML keys, texts and numbers

The parts of a TOML document that hold no others: texts of four kinds, numbers, words and the keys
made of bare words and quoted texts.  Every reader takes the text from its position on and gives
back what follows.

* `Toml.Fault`: why a document is refused.
* `Toml.readText`, `Toml.readNumber?`, `Toml.readKey`: the readers.
-/

namespace SymbolRecord

namespace Toml

/-- Why a document is refused. -/
inductive Fault where
  /-- It is no TOML. -/
  | malformed
  /-- A decimal integer has this many digits, which are too many. -/
  | digits (count : Nat)
  /-- Lists and tables are nested too deep. -/
  | nesting
  deriving DecidableEq

/-- What a reader yields: a result and the text behind it. -/
abbrev Step (α : Type) : Type := Except Fault (α × List Char)

/-- Whether a character is a space or a tab. -/
def isSpace (c : Char) : Bool := c = ' ' || c = '\t'

/-- Whether a character is a space, a tab or a line feed. -/
def isGap (c : Char) : Bool := isSpace c || c = '\n'

/-- Whether a character is a control character that may not stand in a text or comment of one
line. -/
def isControl (c : Char) : Bool := (c.toNat < 0x20 && c ≠ '\t') || c.toNat = 0x7F

/-- Whether a character may not stand in a text of several lines. -/
def isLongControl (c : Char) : Bool := isControl c && c ≠ '\n'

/-- Whether a character may stand in a bare key. -/
def isBare (c : Char) : Bool :=
  ('a' ≤ c && c ≤ 'z') || ('A' ≤ c && c ≤ 'Z') || NumberLiteral.isDigit c || c = '-' || c = '_'

/-- The text behind spaces and tabs. -/
def skipSpace (cs : List Char) : List Char := cs.dropWhile isSpace

/-- The text behind a given beginning. -/
def behind? : List Char → List Char → Option (List Char)
  | [], cs => some cs
  | _ :: _, [] => none
  | p :: ps, c :: cs => if p = c then behind? ps cs else none

/-! ## Texts -/

/-- Reads the digits of a character escape. -/
def readCode (count : Nat) (cs : List Char) : Step Char :=
  let ds := cs.take count
  match ds.mapM Json.hexValue? with
  | some values =>
    let n := values.foldl (fun n d => 16 * n + d) 0
    if ds.length = count ∧ (n < 0xD800 ∨ (0xE000 ≤ n ∧ n ≤ 0x10FFFF)) then
      .ok (Char.ofNat n, cs.drop count)
    else .error .malformed
  | none => .error .malformed

/-- The character that a backslash and a letter stand for. -/
def escape? (c : Char) : Option Char :=
  if c = '"' then some '"'
  else if c = '\\' then some '\\'
  else if c = 'b' then some (Char.ofNat 0x08)
  else if c = 't' then some (Char.ofNat 0x09)
  else if c = 'n' then some (Char.ofNat 0x0A)
  else if c = 'f' then some (Char.ofNat 0x0C)
  else if c = 'r' then some (Char.ofNat 0x0D)
  else none

/-- Reads what follows a backslash.  In a text of several lines a backslash at the end of a line
takes away the line end and all space that follows. -/
def readEscape (long : Bool) : List Char → Step (List Char)
  | [] => .error .malformed
  | c :: rest =>
    if long ∧ c = '\n' then .ok ([], rest.dropWhile isGap)
    else if long ∧ isSpace c then
      match skipSpace rest with
      | [] => .ok ([], [])
      | '\n' :: after => .ok ([], after.dropWhile isGap)
      | _ => .error .malformed
    else if c = 'u' then (readCode 4 rest).map fun (d, after) => ([d], after)
    else if c = 'U' then (readCode 8 rest).map fun (d, after) => ([d], after)
    else match escape? c with
      | some d => .ok ([d], rest)
      | none => .error .malformed

/-- Reads a text with escapes up to its closing quotes; the first argument bounds the number of
characters read, and what is read so far is given in reverse. -/
def readEscaped (long : Bool) : Nat → List Char → List Char → Step String
  | 0, _, _ => .error .malformed
  | _ + 1, _, [] => .error .malformed
  | fuel + 1, read, c :: rest =>
    if c = '"' then
      if !long then .ok (String.ofList read.reverse, rest)
      else match behind? ['"', '"'] rest with
        | some after => .ok (String.ofList read.reverse, after)
        | none => readEscaped long fuel (c :: read) rest
    else if c = '\\' then
      match readEscape long rest with
      | .ok (ds, after) => readEscaped long fuel (ds ++ read) after
      | .error fault => .error fault
    else if (if long then isLongControl c else isControl c) then .error .malformed
    else readEscaped long fuel (c :: read) rest

/-- Reads a text without escapes up to its closing quotes; what is read so far is given in
reverse. -/
def readVerbatim (long : Bool) : List Char → List Char → Step String
  | _, [] => .error .malformed
  | read, c :: rest =>
    let done? :=
      if c ≠ '\'' then none
      else if long then behind? ['\'', '\''] rest
      else some rest
    match done? with
    | some after => .ok (String.ofList read.reverse, after)
    | none =>
      if (if long then isLongControl c else isControl c) then .error .malformed
      else readVerbatim long (c :: read) rest

/-- Up to two quotes in front of the closing ones belong to a text of several lines. -/
def takeQuotes (quote : Char) (s : String) (cs : List Char) : String × List Char :=
  match behind? [quote, quote] cs, behind? [quote] cs with
  | some after, _ => (s.push quote |>.push quote, after)
  | none, some after => (s.push quote, after)
  | none, none => (s, cs)

/-- The text behind a line feed at the beginning. -/
def dropFeed : List Char → List Char
  | '\n' :: rest => rest
  | cs => cs

/-- Reads a text of several lines behind its opening quotes. -/
def readLong (quote : Char) (cs : List Char) : Step String :=
  let inner := dropFeed cs
  let read := if quote = '"' then readEscaped true (inner.length + 1) [] inner
    else readVerbatim true [] inner
  read.map fun (s, after) => takeQuotes quote s after

/-- Reads a text of one line behind its opening quote. -/
def readShort (quote : Char) (cs : List Char) : Step String :=
  if quote = '"' then readEscaped false (cs.length + 1) [] cs else readVerbatim false [] cs

/-- Reads a text behind its first quote. -/
def readText (quote : Char) (cs : List Char) : Step String :=
  match behind? [quote, quote] cs with
  | some after => readLong quote after
  | none => readShort quote cs

/-! ## Keys -/

/-- Reads one part of a key. -/
def readKeyPart : List Char → Step String
  | [] => .error .malformed
  | c :: rest =>
    if isBare c then
      .ok (String.ofList ((c :: rest).takeWhile isBare), (c :: rest).dropWhile isBare)
    else if c = '"' ∨ c = '\'' then readShort c rest
    else .error .malformed

/-- Reads the parts of a key with full stops between them; the first argument bounds their
number. -/
def readKeyParts : Nat → List Char → Step (List String)
  | 0, _ => .error .malformed
  | fuel + 1, cs =>
    match readKeyPart cs with
    | .error fault => .error fault
    | .ok (part, rest) =>
      match skipSpace rest with
      | '.' :: after =>
        (readKeyParts fuel (skipSpace after)).map fun (parts, rest) => (part :: parts, rest)
      | rest => .ok ([part], rest)

/-- Reads a key. -/
def readKey (cs : List Char) : Step (List String) := readKeyParts (cs.length + 1) cs

/-! ## Numbers -/

/-- Splits off the further digits of a number, each with at most one underscore in front. -/
def splitMore (isDigit : Char → Bool) : List Char → List Char × List Char
  | '_' :: d :: rest =>
    if isDigit d then
      let (ds, behind) := splitMore isDigit rest
      (d :: ds, behind)
    else ([], '_' :: d :: rest)
  | d :: rest =>
    if isDigit d then
      let (ds, behind) := splitMore isDigit rest
      (d :: ds, behind)
    else ([], d :: rest)
  | [] => ([], [])

/-- Splits off the digits at the beginning of a text, with single underscores between them. -/
def splitDigits (isDigit : Char → Bool) : List Char → List Char × List Char
  | [] => ([], [])
  | d :: rest =>
    if isDigit d then
      let (ds, behind) := splitMore isDigit rest
      (d :: ds, behind)
    else ([], d :: rest)

/-- Reads digits of a base behind their mark. -/
def readBase? (base : Nat) (cs : List Char) : Option (Value × List Char) :=
  let isDigit (c : Char) : Bool := match Json.hexValue? c with
    | some d => d < base
    | none => false
  match splitDigits isDigit cs with
  | ([], _) => none
  | (ds, rest) =>
    let n := ds.foldl (fun n d => base * n + (Json.hexValue? d).getD 0) 0
    some (.int n, rest)

/-- Reads a number with a mark of its base. -/
def readMarked? : List Char → Option (Value × List Char)
  | '0' :: 'x' :: rest => readBase? 16 rest
  | '0' :: 'b' :: rest => readBase? 2 rest
  | '0' :: 'o' :: rest => readBase? 8 rest
  | _ => none

/-- The greatest number of digits of a decimal integer. -/
def digitLimit : Nat := 4300

/-- Splits off a point and the digits behind it. -/
def splitFraction (cs : List Char) : Option (List Char) × List Char :=
  match cs with
  | '.' :: after =>
    match splitDigits NumberLiteral.isDigit after with
    | ([], _) => (none, cs)
    | (ds, rest) => (some ds, rest)
  | _ => (none, cs)

/-- Splits off an exponent. -/
def splitExponent (cs : List Char) : Option Int × List Char :=
  match cs with
  | mark :: after =>
    if mark = 'e' ∨ mark = 'E' then
      let (negative, unsigned) := match after with
        | '-' :: rest => (true, rest)
        | '+' :: rest => (false, rest)
        | rest => (false, rest)
      match splitDigits NumberLiteral.isDigit unsigned with
      | ([], _) => (none, cs)
      | (ds, rest) =>
        let n : Int := NumberLiteral.readDigits ds
        (some (if negative then -n else n), rest)
    else (none, cs)
  | [] => (none, cs)

/-- Reads a decimal number: an integer, or a double when it has a fraction or an exponent. -/
def readDecimal? (cs : List Char) : Option (Step Value) :=
  let (negative, unsigned) := match cs with
    | '-' :: rest => (true, rest)
    | '+' :: rest => (false, rest)
    | rest => (false, rest)
  let (whole, rest) := match unsigned with
    | '0' :: rest => (['0'], rest)
    | _ => splitDigits NumberLiteral.isDigit unsigned
  if whole.isEmpty then none
  else
    let (fraction?, rest) := splitFraction rest
    let (exponent?, rest) := splitExponent rest
    match fraction?, exponent? with
    | none, none =>
      if digitLimit < whole.length then some (.error (.digits whole.length))
      else
        let n : Int := NumberLiteral.readDigits whole
        some (.ok (.int (if negative then -n else n), rest))
    | _, _ =>
      let fraction := fraction?.getD []
      let x := Double.ofDecimal negative (NumberLiteral.readDigits (whole ++ fraction))
        (exponent?.getD 0 - fraction.length)
      some (.ok (.float x, rest))

/-- Reads one of the words for infinity and for the value that is no number. -/
def readSpecial? (cs : List Char) : Option (Value × List Char) :=
  let (negative, unsigned) := match cs with
    | '-' :: rest => (true, rest)
    | '+' :: rest => (false, rest)
    | rest => (false, rest)
  match behind? ['i', 'n', 'f'] unsigned, behind? ['n', 'a', 'n'] unsigned with
  | some rest, _ => some (.float (.infinite negative), rest)
  | none, some rest => some (.float .nan, rest)
  | none, none => none

/-- Reads a value that is neither text, list nor table. -/
def readPlain (cs : List Char) : Step Value :=
  match behind? ['t', 'r', 'u', 'e'] cs, behind? ['f', 'a', 'l', 's', 'e'] cs with
  | some rest, _ => .ok (.bool true, rest)
  | none, some rest => .ok (.bool false, rest)
  | none, none =>
    match readMoment? cs with
    | some (some v, rest) => .ok (v, rest)
    | some (none, _) => .error .malformed
    | none =>
      match readMarked? cs, readDecimal? cs, readSpecial? cs with
      | some result, _, _ => .ok result
      | none, some step, _ => step
      | none, none, some result => .ok result
      | none, none, none => .error .malformed

end Toml

end SymbolRecord
