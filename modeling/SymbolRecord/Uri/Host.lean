import SymbolRecord.Text.Quoted
/-!
# Hosts in brackets

The authority part of a URI may name its host by an IPv6 address in square brackets.  Brackets must
come in a pair, nothing but a port may stand beside them, and what stands between them must be an
IPv6 address, possibly with a zone, or an address of a future version.

A second test guards against compatibility characters: a few characters beyond ASCII turn into
text with one of the marks that end or divide an authority when they are normalized (NFKC), and an
authority that holds one is refused.

* `Uri.Fault`: why an authority is refused.
* `Uri.isAddress4`, `Uri.isAddress6`: the address grammars.
* `Uri.checkAuthority`: both tests.
-/

namespace SymbolRecord

namespace Uri

/-- Why an authority is refused. -/
inductive Fault where
  /-- Brackets without a partner, or text beside them. -/
  | brackets
  /-- A host in brackets that is no address. -/
  | address (host : String)
  /-- An IPv4 address in brackets. -/
  | version4
  /-- A malformed address of a future version. -/
  | future
  /-- A character that normalization turns into a mark. -/
  | compatibility (authority : String)
  deriving DecidableEq

/-- The words for a reason. -/
def Fault.message : Fault → String
  | .brackets => "Invalid IPv6 URL"
  | .address host => Text.quote host ++ " does not appear to be an IPv4 or IPv6 address"
  | .version4 => "An IPv4 address cannot be in brackets"
  | .future => "IPvFuture address is invalid"
  | .compatibility authority =>
    "netloc '" ++ authority ++ "' contains invalid characters under NFKC normalization"

/-- Cuts a text at every occurrence of a mark; there is always at least one piece. -/
def cutAt (mark : Char) : List Char → List (List Char)
  | [] => [[]]
  | c :: rest =>
    if c = mark then [] :: cutAt mark rest
    else match cutAt mark rest with
      | [] => [[c]]
      | piece :: pieces => (c :: piece) :: pieces

/-- What stands before the first mark, and what stands after it, if it occurs. -/
def cutFirst (mark : Char) (cs : List Char) : List Char × Option (List Char) :=
  let before := cs.takeWhile (· ≠ mark)
  match cs.dropWhile (· ≠ mark) with
  | [] => (before, none)
  | _ :: after => (before, some after)

/-- Whether a piece is a number from 0 to 255 without leading zeros. -/
def isOctet (ds : List Char) : Bool :=
  !ds.isEmpty && ds.all NumberLiteral.isDigit && ds.length ≤ 3
    && (ds = ['0'] || ds.head? ≠ some '0') && NumberLiteral.readDigits ds ≤ 255

/-- Whether a text is an IPv4 address. -/
def isAddress4 (cs : List Char) : Bool :=
  let pieces := cutAt '.' cs
  pieces.length = 4 && pieces.all isOctet

/-- Whether a character is a hexadecimal digit. -/
def isHexDigit (c : Char) : Bool := (Json.hexValue? c).isSome

/-- Whether a piece is a group of one to four hexadecimal digits. -/
def isGroup (cs : List Char) : Bool := !cs.isEmpty && cs.length ≤ 4 && cs.all isHexDigit

/-- Whether the pieces between colons form an address of eight groups, of which one run of at
least one may be left out.  A run left out shows as an empty piece that is neither the first nor the
last; at an end of the address the piece beyond it is empty too. -/
def areGroups (pieces : List (List Char)) : Bool :=
  let inner := (pieces.drop 1).dropLast
  let first := pieces.headD []
  let last := pieces.getLastD []
  match inner.findIdx? List.isEmpty with
  | none => pieces.length = 8 && pieces.all isGroup
  | some position =>
    let before := pieces.take (position + 1)
    let after := pieces.drop (position + 2)
    let high := if first.isEmpty then before.drop 1 else before
    let low := if last.isEmpty then after.dropLast else after
    !(first.isEmpty && !high.isEmpty) && !(last.isEmpty && !low.isEmpty)
      && high.length + low.length < 8 && high.all isGroup && low.all isGroup

/-- Whether a text without a zone is an IPv6 address.  The last 32 bits may be written as an IPv4
address. -/
def isPlainAddress6 (cs : List Char) : Bool :=
  let pieces := cutAt ':' cs
  let last := pieces.getLastD []
  if pieces.length < 3 then false
  else if '.' ∈ last then
    isAddress4 last && pieces.length ≤ 8 && areGroups (pieces.dropLast ++ [['0'], ['0']])
  else pieces.length ≤ 9 && areGroups pieces

/-- Whether a text is an IPv6 address, with or without a zone after a percent sign. -/
def isAddress6 (cs : List Char) : Bool :=
  match cutFirst '%' cs with
  | (address, none) => isPlainAddress6 address
  | (address, some zone) => !zone.isEmpty && '%' ∉ zone && isPlainAddress6 address

/-- Whether a text is an address of a future version: a `v`, a hexadecimal version, a full stop
and anything. -/
def isFuture : List Char → Bool
  | 'v' :: rest =>
    match cutFirst '.' rest with
    | (version, some address) => !version.isEmpty && version.all isHexDigit && !address.isEmpty
    | _ => false
  | _ => false

/-- Tests what stands between brackets. -/
def checkHost (host : List Char) : Except Fault Unit :=
  if host.head? = some 'v' then if isFuture host then .ok () else .error .future
  else if isAddress4 host then .error .version4
  else if isAddress6 host then .ok ()
  else .error (.address (String.ofList host))

/-- What follows the last occurrence of a mark, or the whole text. -/
def afterLast (mark : Char) (cs : List Char) : List Char := (cutAt mark cs).getLastD cs

/-- Tests an authority that has both brackets.  What precedes the last `@` is not looked at. -/
def checkBracketed (authority : List Char) : Except Fault Unit :=
  let host := afterLast '@' authority
  match cutFirst '[' host with
  | (before, some bracketed) =>
    if !before.isEmpty then .error .brackets
    else match cutFirst ']' bracketed with
      | (inside, some after) =>
        if after.isEmpty || after.head? = some ':' then checkHost inside else .error .brackets
      | (inside, none) => checkHost inside
  | (_, none) => checkHost (cutFirst ':' host).1

/-- Tests the brackets of an authority. -/
def checkBrackets (authority : List Char) : Except Fault Unit :=
  match decide ('[' ∈ authority), decide (']' ∈ authority) with
  | false, false => .ok ()
  | true, true => checkBracketed authority
  | _, _ => .error .brackets

/-- The code points of the characters beyond ASCII whose normal form holds one of the marks
`/ ? # @ :`. -/
def compatibilityMarks : List Nat :=
  [0x2047, 0x2048, 0x2049, 0x2100, 0x2101, 0x2105, 0x2106, 0x2A74, 0xFE13, 0xFE16, 0xFE55, 0xFE56,
    0xFE5F, 0xFE6B, 0xFF03, 0xFF0F, 0xFF1A, 0xFF1F, 0xFF20]

/-- Tests the characters of an authority. -/
def checkCharacters (authority : List Char) : Except Fault Unit :=
  if authority.any fun c => c.toNat ∈ compatibilityMarks then
    .error (.compatibility (String.ofList authority))
  else .ok ()

/-- Tests an authority: first its brackets, then its characters. -/
def checkAuthority (authority : List Char) : Except Fault Unit :=
  match checkBrackets authority with
  | .ok () => checkCharacters authority
  | .error fault => .error fault

end Uri

end SymbolRecord
