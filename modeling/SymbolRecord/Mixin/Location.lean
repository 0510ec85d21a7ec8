import SymbolRecord.Record.Comment
/-!
# Locations

The location of a symbol is the file and the position where it is declared.  The URI of the file is
kept exactly as it was written, which is not always a valid URI.

* `Location`: the mixin, with `Location.url` and `Location.path`.
-/

namespace SymbolRecord

/-- The file and the position where a symbol is declared. -/
structure Location where
  /-- The file. -/
  uri : String
  /-- The position. -/
  position : Position
  deriving DecidableEq

namespace Location

/-- Locations. -/
def codec : Codec Location :=
  (Fields.start mk
    |>.required (.same "uri") Codec.text uri
    |>.required (.same "position") Position.codec position).codec "Location"

/-- The URI of the file with its spaces escaped. -/
def url (location : Location) : String := Uri.escaped location.uri

/-- The path of the file, or why its URI has none. -/
def path (location : Location) : Except Uri.Fault String := Uri.path location.uri

end Location

end SymbolRecord
