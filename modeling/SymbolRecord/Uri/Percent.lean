import SymbolRecord.Text.Utf8
import SymbolRecord.Json.Token
/-!
# Percent-escapes

A percent sign and two hexadecimal digits stand for a byte.  The escapes and plain characters of
one run of ASCII characters are decoded together as UTF-8, leniently; a character beyond ASCII
ends the run and stands for itself.  A percent sign without two hexadecimal digits stands for
itself too.

* `Uri.unescape`: the text with its escapes decoded.
-/

namespace SymbolRecord

namespace Uri

/-- The byte that two hexadecimal digits stand for. -/
def escapedByte? (high low : Char) : Option UInt8 :=
  match Json.hexValue? high, Json.hexValue? low with
  | some h, some l => some (UInt8.ofNat (16 * h + l))
  | _, _ => none

/-- Decodes the escapes of a text behind a run of ASCII characters, whose bytes are given in
reverse. -/
def unescapeRun (run : Bytes) : List Char → List Char
  | [] => Utf8.decodeLossy run.reverse
  | '%' :: high :: low :: rest =>
    match escapedByte? high low with
    | some byte => unescapeRun (byte :: run) rest
    | none => unescapeRun (0x25 :: run) (high :: low :: rest)
  | c :: rest =>
    if 0x80 ≤ c.toNat then Utf8.decodeLossy run.reverse ++ c :: unescapeRun [] rest
    else unescapeRun (UInt8.ofNat c.toNat :: run) rest

/-- Decodes the escapes of a text. -/
def unescape (cs : List Char) : List Char := unescapeRun [] cs

end Uri

end SymbolRecord
