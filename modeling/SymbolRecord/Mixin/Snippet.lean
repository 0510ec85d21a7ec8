import SymbolRecord.Codec
import SymbolRecord.Spelling
/-!
# Snippets

A snippet is example code, as a list of lines, of which named slices can be shown.  The bounds of a
slice are compared with each other when it is read, and with the number of lines only when its
lines are taken: a negative bound counts from the end, and a bound beyond an end stands for it.

* `SliceRange`: the bounds of a slice, with its codec.
* `Snippet`: the mixin, with `Snippet.sliceLines?`.
-/

namespace SymbolRecord

/-- The bounds of a slice: the first line, and the line after the last one. -/
structure SliceRange where
  /-- The first line. -/
  start : Int
  /-- The line after the last one. -/
  finish : Int
  /-- A slice does not end before it starts. -/
  start_le_finish : start ≤ finish
  deriving DecidableEq

namespace SliceRange

/-- The bounds of a slice, or the reason why they are none. -/
def make (bounds : Int × Int) : Except String SliceRange :=
  if h : bounds.1 ≤ bounds.2 then .ok ⟨bounds.1, bounds.2, h⟩
  else
    match Spelling.integer? bounds.2, Spelling.integer? bounds.1 with
    | some finish, some start => .error ("slice end " ++ finish ++ " precedes start " ++ start)
    | _, _ => .error Spelling.tooLong

/-- Slice bounds. -/
def codec : Codec SliceRange :=
  ((Fields.start Prod.mk
    |>.required (.same "start") Codec.integer Prod.fst
    |>.required (.same "end") Codec.integer Prod.snd).codec "SliceRange").restricted make
      fun range => (range.start, range.finish)

end SliceRange

/-- Example code. -/
structure Snippet where
  /-- The language of the code. -/
  language : Option String
  /-- The lines of the code. -/
  lines : List String
  /-- The named slices. -/
  slices : Table SliceRange
  deriving DecidableEq

namespace Snippet

/-- The slot of the language. -/
def languageSlot : Slot := .same "language"

/-- The slot of the lines. -/
def linesSlot : Slot := .same "lines"

/-- The slot of the slices. -/
def slicesSlot : Slot := .same "slices"

/-- The fields of a snippet in the order of reading. -/
def description : Fields Snippet Snippet :=
  Fields.start mk
    |>.optional languageSlot Codec.text language
    |>.required linesSlot Codec.text.listOf lines
    |>.defaulted slicesSlot SliceRange.codec.tableOf Table.empty slices

/-- The wire form of a snippet: the lines come first, and the slices, unless there are none, come
last in ascending order of their names. -/
def wire (snippet : Snippet) : Value :=
  .object (Fields.written linesSlot (Codec.text.listOf.wire snippet.lines)
    ++ Fields.written languageSlot (Codec.text.optional.wire snippet.language)
    ++ if snippet.slices.entries.isEmpty then []
      else [(slicesSlot.key,
        .object (Entries.mapValues SliceRange.codec.wire (Entries.sorted snippet.slices.entries)))])

/-- Snippets. -/
def codec : Codec Snippet := { description.codec "Snippet" with wire := wire }

/-- The place in a list of some length that a bound stands for. -/
def place (length : Nat) (bound : Int) : Nat :=
  if bound < 0 then (bound + length).toNat else min bound.toNat length

/-- The items of a list from one bound up to another. -/
def between {α : Type} (items : List α) (start finish : Int) : List α :=
  (items.take (place items.length finish)).drop (place items.length start)

/-- The lines of a named slice, if the snippet has it. -/
def sliceLines? (snippet : Snippet) (name : String) : Option (List String) :=
  (snippet.slices.get? name).map fun range => between snippet.lines range.start range.finish

end Snippet

end SymbolRecord
