import SymbolRecord.Text.Utf8
/-!
# Wording

Documents and configuration files are read by parsers that give the cause and the place of a fault
in words of their own, and these words stand in messages.  Which bytes are refused is a matter of
the formats; how a refusal is put is not, and a parser may put it differently with every version.
So the words are a parameter of everything that reads, and all that is known of them is that they
are a function of the bytes that the parser was given: two readers that hand the same bytes to it
get the same words, and two that do not may get different ones.

* `Wording`: the words of both parsers.
* `Wording.plain`: words that give neither a cause nor a place.
-/

namespace SymbolRecord

/-- What the parsers say of the bytes that they refuse. -/
class Wording where
  /-- What is said of bytes that are no JSON document. -/
  document : Bytes → String
  /-- What is said of bytes that are no configuration file. -/
  settings : Bytes → String

/-- Words that give neither a cause nor a place. -/
@[reducible] def Wording.plain : Wording where
  document _ := "malformed document"
  settings _ := "malformed document"

end SymbolRecord
