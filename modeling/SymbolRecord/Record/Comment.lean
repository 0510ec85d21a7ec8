import SymbolRecord.Codec
import SymbolRecord.Uri
/-!
# Documentation comments

A comment is a list of lines.  A line of a comment that was written in the symbol's own module
carries the range of source text it came from; an inherited comment has no ranges.

* `Position`, `SourceRange`, `Line`, `Comment`, each with its codec.
* `Comment.url?`, `Comment.path?`: the file of a comment.
-/

namespace SymbolRecord

/-- A place in a source file. -/
structure Position where
  /-- The line, from zero. -/
  line : Int
  /-- The character in the line, from zero. -/
  character : Int
  deriving DecidableEq

/-- Positions. -/
def Position.codec : Codec Position :=
  (Fields.start Position.mk
    |>.required (.same "line") Codec.integer line
    |>.required (.same "character") Codec.integer character).codec "Position"

/-- A stretch of source text. -/
structure SourceRange where
  /-- Where it begins. -/
  start : Position
  /-- Where it ends. -/
  finish : Position
  deriving DecidableEq

/-- Source ranges. -/
def SourceRange.codec : Codec SourceRange :=
  (Fields.start SourceRange.mk
    |>.required (.same "start") Position.codec start
    |>.required (.same "end") Position.codec finish).codec "SourceRange"

/-- A line of text. -/
structure Line where
  /-- The text. -/
  text : String
  /-- Where it stands in the source. -/
  range : Option SourceRange
  deriving DecidableEq

/-- Lines. -/
def Line.codec : Codec Line :=
  (Fields.start Line.mk
    |>.required (.same "text") Codec.text text
    |>.optional (.same "range") SourceRange.codec range).codec "Line"

/-- A documentation comment. -/
structure Comment where
  /-- Its lines. -/
  lines : List Line
  /-- The file it stands in. -/
  uri : Option String
  /-- The module it was written in. -/
  moduleName : Option String
  deriving DecidableEq

namespace Comment

/-- Comments. -/
def codec : Codec Comment :=
  (Fields.start mk
    |>.defaulted (.same "lines") Line.codec.listOf [] lines
    |>.optional (.same "uri") Codec.text uri
    |>.optional ⟨"module", "module_name"⟩ Codec.text moduleName).codec "LineList"

/-- The URI of the comment's file with its spaces escaped. -/
def url? (comment : Comment) : Option String := comment.uri.map Uri.escaped

/-- The path of the comment's file, or why its URI has none. -/
def path? (comment : Comment) : Option (Except Uri.Fault String) := comment.uri.map Uri.path

end Comment

end SymbolRecord
