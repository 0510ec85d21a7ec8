import SymbolRecord.Text.Blank
/-!
# Lines of bytes

A file with one record to a line is cut into lines in two ways.  Reading records cuts at line feeds
and at carriage returns, so that any style of line ends will do; reporting on a file cuts at line
feeds alone, so that line numbers are those of an editor.  Either way lines are trimmed and blank
ones are passed over, so the empty line between the two halves of a double line end is harmless.

* `Bytes.cut`: the pieces between the bytes that satisfy a test.
* `Bytes.records`: the trimmed lines that are not blank.
* `Bytes.numberedLines`: the same, cut at line feeds alone, with their line numbers.
* `Bytes.cut_append`: how the pieces of two texts join.
-/

namespace SymbolRecord

namespace Bytes

/-- The pieces of a text between the bytes that satisfy a test; there is always at least one. -/
def cut (isBreak : UInt8 → Bool) : Bytes → List Bytes
  | [] => [[]]
  | b :: rest =>
    if isBreak b then [] :: cut isBreak rest
    else match cut isBreak rest with
      | [] => [[b]]
      | piece :: pieces => (b :: piece) :: pieces

theorem cut_ne_nil (isBreak : UInt8 → Bool) (bytes : Bytes) : cut isBreak bytes ≠ [] := by
  cases bytes with
  | nil => simp [cut]
  | cons b rest =>
    unfold cut
    split
    · simp
    · split <;> simp

/-- A break between two texts keeps their pieces apart. -/
theorem cut_append (isBreak : UInt8 → Bool) (a b : Bytes) {sep : UInt8} (h : isBreak sep = true) :
    cut isBreak (a ++ sep :: b) = cut isBreak a ++ cut isBreak b := by
  induction a with
  | nil => simp [cut, h]
  | cons x rest ih =>
    rw [List.cons_append, cut, cut, ih]
    split
    · rfl
    · cases hc : cut isBreak rest with
      | nil => exact absurd hc (cut_ne_nil _ _)
      | cons piece pieces => rfl

/-- Whether a byte is a line feed. -/
def isFeed (b : UInt8) : Bool := b == 0x0A

/-- Whether a byte is a line feed or a carriage return. -/
def isLineBreak (b : UInt8) : Bool := b == 0x0A || b == 0x0D

/-- The trimmed lines of a text that are not blank. -/
def records (bytes : Bytes) : List Bytes :=
  ((cut isLineBreak bytes).map trim).filter fun line => !line.isEmpty

/-- Pairs the members of a list with numbers from a given one on. -/
def numberFrom {α : Type} : Nat → List α → List (Nat × α)
  | _, [] => []
  | n, a :: rest => (n, a) :: numberFrom (n + 1) rest

/-- The trimmed lines of a text, cut at line feeds, that are not blank, with their numbers.  Lines
are numbered from one and blank ones are counted. -/
def numberedLines (bytes : Bytes) : List (Nat × Bytes) :=
  (numberFrom 1 ((cut isFeed bytes).map trim)).filter fun line => !line.2.isEmpty

end Bytes

end SymbolRecord
