/-!
# UTF-8

Documents arrive as bytes and percent-escapes are decoded to bytes, so both need UTF-8.  One
machine reads bytes one at a time; where a sequence is ill-formed it yields one *defect* for the
longest part that could still have begun a character, which is the unit that replacement
characters stand for.  Strict and lenient decoding are two views of its output.

* `Utf8.encodeChar`, `Utf8.encode`: characters to bytes.
* `Utf8.units`: bytes to characters and defects.
* `Utf8.decode?`: all characters, or nothing if there is a defect.
* `Utf8.decodeLossy`: a replacement character for each defect.
-/

namespace SymbolRecord

/-- A sequence of bytes, such as the content of a file. -/
abbrev Bytes : Type := List UInt8

namespace Utf8

/-- The bytes of one character. -/
def encodeChar (c : Char) : Bytes :=
  let n := c.toNat
  if n < 0x80 then [UInt8.ofNat n]
  else if n < 0x800 then [UInt8.ofNat (0xC0 + n / 64), UInt8.ofNat (0x80 + n % 64)]
  else if n < 0x10000 then
    [UInt8.ofNat (0xE0 + n / 4096), UInt8.ofNat (0x80 + n / 64 % 64), UInt8.ofNat (0x80 + n % 64)]
  else
    [UInt8.ofNat (0xF0 + n / 262144), UInt8.ofNat (0x80 + n / 4096 % 64),
      UInt8.ofNat (0x80 + n / 64 % 64), UInt8.ofNat (0x80 + n % 64)]

/-- The bytes of a text. -/
def encode (cs : List Char) : Bytes :=
  cs.flatMap encodeChar

@[simp] theorem encode_nil : encode [] = [] := rfl

@[simp] theorem encode_cons (c : Char) (cs : List Char) :
    encode (c :: cs) = encodeChar c ++ encode cs := by
  simp [encode]

@[simp] theorem encode_append (a b : List Char) : encode (a ++ b) = encode a ++ encode b := by
  simp [encode]

/-- A character of which the first bytes have been read. -/
structure Begun where
  /-- How many bytes are still to come. -/
  missing : Nat
  /-- The number made of the bits read so far. -/
  value : Nat
  /-- The least next byte that continues the character. -/
  least : Nat
  /-- The greatest next byte that continues the character. -/
  greatest : Nat

/-- What a byte says when no character has been begun. -/
inductive Lead where
  /-- A character of one byte. -/
  | char (c : Char)
  /-- The first byte of a longer character. -/
  | begun (b : Begun)
  /-- A byte that begins nothing. -/
  | defect

/-- Reads a byte that stands where a character begins.  The bounds on the second byte keep out
overlong forms, surrogates and numbers above the last code point. -/
def lead (byte : UInt8) : Lead :=
  let b := byte.toNat
  if b < 0x80 then .char (Char.ofNat b)
  else if b < 0xC2 then .defect
  else if b < 0xE0 then .begun ⟨1, b - 0xC0, 0x80, 0xBF⟩
  else if b < 0xF0 then
    .begun ⟨2, b - 0xE0, if b = 0xE0 then 0xA0 else 0x80, if b = 0xED then 0x9F else 0xBF⟩
  else if b < 0xF5 then
    .begun ⟨3, b - 0xF0, if b = 0xF0 then 0x90 else 0x80, if b = 0xF4 then 0x8F else 0xBF⟩
  else .defect

/-- The characters of a byte sequence, with `none` for each defect.  The first argument is the
character that has been begun, if any. -/
def units : Option Begun → Bytes → List (Option Char)
  | none, [] => []
  | some _, [] => [none]
  | none, byte :: rest =>
    match lead byte with
    | .char c => some c :: units none rest
    | .begun b => units (some b) rest
    | .defect => none :: units none rest
  | some b, byte :: rest =>
    let n := byte.toNat
    if b.least ≤ n ∧ n ≤ b.greatest then
      let value := b.value * 64 + (n - 0x80)
      if b.missing ≤ 1 then some (Char.ofNat value) :: units none rest
      else units (some ⟨b.missing - 1, value, 0x80, 0xBF⟩) rest
    else
      none :: match lead byte with
        | .char c => some c :: units none rest
        | .begun b => units (some b) rest
        | .defect => none :: units none rest

/-- The text that well-formed bytes spell. -/
def decode? (bytes : Bytes) : Option (List Char) :=
  (units none bytes).mapM id

/-- The text with U+FFFD in the place of each defect. -/
def decodeLossy (bytes : Bytes) : List Char :=
  (units none bytes).map fun unit => unit.getD (Char.ofNat 0xFFFD)

end Utf8

end SymbolRecord
