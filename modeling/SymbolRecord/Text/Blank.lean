import SymbolRecord.Text.Utf8
/-!
# Blanks

Two sets of blank characters matter.  Lines of a file are trimmed at the six blank characters of
ASCII, as bytes.  A number that is spelled as a text is trimmed at all characters with the Unicode
property White_Space.

* `Text.isBlank`: the property White_Space.
* `Text.trim`: a text without the blanks at its ends.
* `Bytes.isBlank`, `Bytes.trim`: the same for bytes and the blanks of ASCII.
-/

namespace SymbolRecord

/-- A list without the members at its ends that satisfy a test. -/
def trimEnds {α : Type} (p : α → Bool) (xs : List α) : List α :=
  ((xs.dropWhile p).reverse.dropWhile p).reverse

namespace Text

/-- Whether a character has the Unicode property White_Space. -/
def isBlank (c : Char) : Bool :=
  let n := c.toNat
  (0x09 ≤ n && n ≤ 0x0D) || n = 0x20 || n = 0x85 || n = 0xA0 || n = 0x1680
    || (0x2000 ≤ n && n ≤ 0x200A) || n = 0x2028 || n = 0x2029 || n = 0x202F || n = 0x205F
    || n = 0x3000

/-- A text without the blanks at its ends. -/
def trim (cs : List Char) : List Char := trimEnds isBlank cs

end Text

namespace Bytes

/-- Whether a byte is a blank of ASCII: a space or one of the controls from tab to carriage
return. -/
def isBlank (b : UInt8) : Bool := b = 0x20 || (0x09 ≤ b && b ≤ 0x0D)

/-- Bytes without the blanks at their ends. -/
def trim (bytes : Bytes) : Bytes := trimEnds isBlank bytes

end Bytes

end SymbolRecord
