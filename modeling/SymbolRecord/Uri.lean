import SymbolRecord.Uri.Host
import SymbolRecord.Uri.Percent
/-!
# URIs

Records carry URIs exactly as their writers spelled them, often with plain spaces.  A URI is handed
out with its spaces escaped and nothing else changed, and its path is found by cutting: first the
scheme, then the authority behind two slashes, then the fragment and the query from the end.  The
path is what remains, with its escapes decoded.

* `Uri.escapeSpaces`: the URI with its spaces escaped.
* `Uri.path`: the decoded path, or why the authority is refused.
-/

namespace SymbolRecord

namespace Uri

/-- Escapes the spaces of a text and leaves all else alone. -/
def escapeSpaces : List Char → List Char
  | [] => []
  | c :: rest => if c = ' ' then '%' :: '2' :: '0' :: escapeSpaces rest else c :: escapeSpaces rest

/-- Takes away the characters up to the space at the beginning, and every tab and line break. -/
def clean (cs : List Char) : List Char :=
  (cs.dropWhile fun c => c.toNat ≤ 0x20).filter fun c => c ≠ '\t' && c ≠ '\r' && c ≠ '\n'

/-- Whether a character is a letter of ASCII. -/
def isLetter (c : Char) : Bool := ('a' ≤ c && c ≤ 'z') || ('A' ≤ c && c ≤ 'Z')

/-- Whether a character may occur in a scheme. -/
def isSchemeChar (c : Char) : Bool :=
  isLetter c || NumberLiteral.isDigit c || c = '+' || c = '-' || c = '.'

/-- Whether a text is a scheme: it begins with a letter and has only the characters of one. -/
def isScheme (cs : List Char) : Bool :=
  (cs.head?.map isLetter).getD false && cs.all isSchemeChar

/-- The text behind the scheme, if there is one. -/
def dropScheme (cs : List Char) : List Char :=
  match cutFirst ':' cs with
  | (scheme, some rest) => if isScheme scheme then rest else cs
  | (_, none) => cs

/-- Whether a character ends an authority. -/
def endsAuthority (c : Char) : Bool := c = '/' || c = '?' || c = '#'

/-- The authority behind two slashes, and the text after it. -/
def splitAuthority : List Char → List Char × List Char
  | '/' :: '/' :: rest =>
    (rest.takeWhile fun c => !endsAuthority c, rest.dropWhile fun c => !endsAuthority c)
  | cs => ([], cs)

/-- The text before the fragment and the query. -/
def dropQuery (cs : List Char) : List Char :=
  (cs.takeWhile (· ≠ '#')).takeWhile (· ≠ '?')

/-- The path of a URI whose spaces are escaped. -/
def pathOf (cs : List Char) : Except Fault (List Char) :=
  let (authority, rest) := splitAuthority (dropScheme (clean cs))
  match checkAuthority authority with
  | .error fault => .error fault
  | .ok () => .ok (unescape (dropQuery rest))

/-- The URI with its spaces escaped. -/
def escaped (uri : String) : String := String.ofList (escapeSpaces uri.toList)

/-- The decoded path of a URI. -/
def path (uri : String) : Except Fault String :=
  (pathOf (escapeSpaces uri.toList)).map String.ofList

end Uri

end SymbolRecord
