import SymbolRecord.Proofs.Verdict
/-!
# Styles of line ends

A line of records is ended by a line feed, by a carriage return, or by a carriage return and a line
feed, which count as one line end.  When two contents are put behind each other with a line end
between them, the end of the first, the line end and the beginning of the second may run together: a
first content that ends in a carriage return turns the line feed behind it into the second half of a
line end, and blanks that stood at the end of a content come to stand inside a line.  None of this
is seen by the reader, because a line is trimmed and a blank line is passed over, and line ends are
blanks themselves.  So reading is a homomorphism: the records of the whole are those of the first
content and then those of the second.

* `Bytes.splitLines`, `Bytes.records_eq_splitLines`: the lines of a content, with a carriage return
  and a line feed as one line end, and the records in them.
* `LineEnd`, `Bytes.records_append_lineEnd`: the records of two contents.
* `Bytes.joined`, `Bytes.records_joined`: the records of many contents, each with its own line end.
* `Coder.reading_is_a_homomorphism`: what is read.
-/

namespace SymbolRecord

/-- What ends a line. -/
inductive LineEnd where
  /-- A line feed. -/
  | feed
  /-- A carriage return. -/
  | carriage
  /-- A carriage return and a line feed. -/
  | both
  deriving DecidableEq

/-- The bytes of a line end. -/
def LineEnd.bytes : LineEnd → Bytes
  | .feed => [0x0A]
  | .carriage => [0x0D]
  | .both => [0x0D, 0x0A]

namespace Bytes

/-! ## The lines of a content -/

/-- The lines of a content without their line ends.  A line end behind the last line does not begin
another line. -/
def splitLines : Bytes → List Bytes
  | [] => []
  | 0x0D :: 0x0A :: rest => [] :: splitLines rest
  | b :: rest =>
    if isLineBreak b then [] :: splitLines rest
    else match splitLines rest with
      | [] => [[b]]
      | line :: lines => (b :: line) :: lines

/-- What is left of lines when they are trimmed and blank ones are passed over. -/
def trimmedLines (lines : List Bytes) : List Bytes :=
  (lines.map trim).filter fun line => !line.isEmpty

theorem trimmedLines_nil_cons (lines : List Bytes) :
    trimmedLines ([] :: lines) = trimmedLines lines := rfl

theorem trimmedLines_cons (line : Bytes) (lines : List Bytes) :
    trimmedLines (line :: lines) = unlessEmpty (trim line) ++ trimmedLines lines := by
  rw [trimmedLines, List.map_cons, filter_cons, trimmedLines]

/-- The first line of a content is its first piece, and what is left of the lines behind it is what
is left of the pieces behind it. -/
def SplitsAlike (bytes : Bytes) : Prop :=
  bytes = [] ∨ ∃ line lines pieces, splitLines bytes = line :: lines ∧
    cut isLineBreak bytes = line :: pieces ∧ trimmedLines lines = trimmedLines pieces

theorem SplitsAlike.trimmedLines_eq {bytes : Bytes} (h : SplitsAlike bytes) :
    trimmedLines (splitLines bytes) = trimmedLines (cut isLineBreak bytes) := by
  rcases h with rfl | ⟨line, lines, pieces, hlines, hpieces, heq⟩
  · rfl
  · rw [hlines, hpieces, trimmedLines_cons, trimmedLines_cons, heq]

/-- By induction on the content, two bytes at a time where they are one line end. -/
theorem splitsAlike (bytes : Bytes) : SplitsAlike bytes := by
  fun_induction splitLines bytes with
  | case1 => exact Or.inl rfl
  | case2 rest ih =>
    -- the piece between the carriage return and the line feed is empty
    refine Or.inr ⟨[], splitLines rest, [] :: cut isLineBreak rest, by rw [splitLines], rfl, ?_⟩
    rw [trimmedLines_nil_cons, ih.trimmedLines_eq]
  | case3 b rest hsingle hbreak ih =>
    refine Or.inr ⟨[], splitLines rest, cut isLineBreak rest, ?_, cut_cons_of_break hbreak rest,
      ih.trimmedLines_eq⟩
    rw [splitLines, if_pos hbreak]
    exact hsingle
  | case4 b rest hsingle hbreak hnil ih =>
    rcases ih with rfl | ⟨line, lines, pieces, hlines, -⟩
    · have hkeep : isLineBreak b = false := Bool.eq_false_iff.mpr hbreak
      refine Or.inr ⟨[b], [], [], ?_, cut_cons_of_not hkeep rfl, rfl⟩
      rw [splitLines, if_neg hbreak]
      · rfl
      · exact hsingle
    · rw [hnil] at hlines
      nomatch hlines
  | case5 b rest hsingle hbreak line lines hlines ih =>
    have hkeep : isLineBreak b = false := Bool.eq_false_iff.mpr hbreak
    rcases ih with rfl | ⟨line', lines', pieces, hlines', hpieces, heq⟩
    · nomatch hlines
    · obtain ⟨rfl, rfl⟩ := List.cons.inj (hlines.symm.trans hlines')
      refine Or.inr ⟨b :: line, lines, pieces, ?_, cut_cons_of_not hkeep hpieces, heq⟩
      rw [splitLines, if_neg hbreak, hlines]
      exact hsingle

/-- **The records of a content** are its lines without the blanks at their ends and without the
blank ones. -/
theorem records_eq_splitLines (bytes : Bytes) :
    bytes.records = ((splitLines bytes).map trim).filter fun line => !line.isEmpty :=
  (splitsAlike bytes).trimmedLines_eq.symm

/-! ## Contents behind each other -/

/-- **The records of two contents with a line end between them**, of whatever style and whatever
they end and begin with. -/
theorem records_append_lineEnd (a b : Bytes) (lineEnd : LineEnd) :
    (a ++ lineEnd.bytes ++ b).records = a.records ++ b.records := by
  rw [List.append_assoc]
  cases lineEnd with
  | feed => exact pieces_append a b rfl
  | carriage => exact pieces_append a b rfl
  | both =>
    -- the line feed is a blank in front of the second content
    have hfeed : pieces isLineBreak (0x0A :: b) = pieces isLineBreak b := pieces_cons rfl b
    refine (pieces_append a (0x0A :: b) rfl).trans ?_
    rw [hfeed]
    rfl

/-- Contents behind each other, each with a line end behind it, and a last one without. -/
def joined (contents : List (Bytes × LineEnd)) (last : Bytes) : Bytes :=
  (contents.flatMap fun content => content.1 ++ content.2.bytes) ++ last

theorem joined_cons (content : Bytes × LineEnd) (contents : List (Bytes × LineEnd))
    (last : Bytes) :
    joined (content :: contents) last = content.1 ++ content.2.bytes ++ joined contents last := by
  rw [joined, List.flatMap_cons, List.append_assoc]
  rfl

theorem records_joined (contents : List (Bytes × LineEnd)) (last : Bytes) :
    (joined contents last).records = (contents.map Prod.fst ++ [last]).flatMap records := by
  induction contents with
  | nil => exact (List.append_nil _).symm
  | cons content contents ih =>
    rw [joined_cons, records_append_lineEnd, ih]
    rfl

/-- There is no record in a content that is nothing but blanks. -/
theorem records_eq_nil {bytes : Bytes} (h : bytes.all isBlank = true) : bytes.records = [] := by
  have hblank : ∀ b ∈ bytes, isBlank b = true := List.all_eq_true.mp h
  calc bytes.records
      = pieces isLineBreak (bytes ++ []) := by rw [List.append_nil, records_eq_pieces]
    _ = pieces isLineBreak [] := pieces_front hblank []

/-- Blank contents can be left out. -/
theorem flatMap_records_filter (contents : List Bytes) :
    (contents.filter fun content => !content.all isBlank).flatMap records =
      contents.flatMap records := by
  induction contents with
  | nil => rfl
  | cons content contents ih =>
    rw [List.filter_cons, List.flatMap_cons]
    cases hblank : content.all isBlank with
    | true => rw [if_neg (by simp), ih, records_eq_nil hblank, List.nil_append]
    | false => rw [if_pos (by simp), List.flatMap_cons, ih]

end Bytes

/-! ## What is read -/

namespace Coder

open Bytes

/-- Reading two contents with a line end between them is reading the first and then the second. -/
theorem decodeLines_append_lineEnd [Wording] (coder : Coder) (a b : Bytes) (lineEnd : LineEnd) :
    coder.decodeLines (a ++ lineEnd.bytes ++ b) =
      (coder.decodeLines a).andThen fun xs =>
        (coder.decodeLines b).andThen fun ys => .ok (xs ++ ys) := by
  rw [decodeLines_eq, records_append_lineEnd, Run.forAll_append]
  rfl

/-- **Reading is a homomorphism over line ends.**  What is read are the lines of a content, in
order, where a line feed, a carriage return, or both together end a line; lines are trimmed, and
blank ones are passed over.  The lines of two contents with a line end of any style between them are
those of the first and then those of the second.  So if the first content cannot be read, the whole
fails as it does; otherwise, if the second cannot be read, the whole fails as that does; and
otherwise the symbols of the whole are those of the first and then those of the second.  And
contents behind each other are read alike, with the same notes, whatever the styles of their line
ends and whatever blank contents stand among them. -/
theorem reading_is_a_homomorphism [Wording] (coder : Coder) :
    (∀ bytes : Bytes, coder.decodeLines bytes =
      Run.forAll (fun line => (parse line).andThen (Symbol.decode coder.snapshot))
        (((splitLines bytes).map trim).filter fun line => !line.isEmpty)) ∧
    (∀ (a b : Bytes) (lineEnd : LineEnd),
      (a ++ lineEnd.bytes ++ b).records = a.records ++ b.records ∧
      (coder.decodeLines (a ++ lineEnd.bytes ++ b)).outcome =
        match (coder.decodeLines a).outcome, (coder.decodeLines b).outcome with
        | .error failure, _ => .error failure
        | .ok _, .error failure => .error failure
        | .ok xs, .ok ys => .ok (xs ++ ys)) ∧
    ∀ (contents contents' : List (Bytes × LineEnd)) (last last' : Bytes),
      ((contents.map Prod.fst ++ [last]).filter fun content => !content.all isBlank) =
        ((contents'.map Prod.fst ++ [last']).filter fun content => !content.all isBlank) →
      coder.decodeLines (joined contents last) = coder.decodeLines (joined contents' last') := by
  refine ⟨fun bytes => ?_, fun a b lineEnd => ⟨records_append_lineEnd a b lineEnd, ?_⟩,
    fun contents contents' last last' h => ?_⟩
  · rw [decodeLines, records_eq_splitLines]
  · rw [decodeLines_append_lineEnd]
    simp only [Run.outcome_andThen]
    cases (coder.decodeLines a).outcome with
    | error failure => rfl
    | ok xs =>
      cases (coder.decodeLines b).outcome with
      | error failure => rfl
      | ok ys => rfl
  · rw [decodeLines_eq, decodeLines_eq, records_joined, records_joined,
      ← flatMap_records_filter (contents.map Prod.fst ++ [last]), h, flatMap_records_filter]

attribute [local instance] Wording.plain

/-- Two records, with a line end of each style and blanks between them, are read as with a line feed
between them. -/
theorem reading_across_line_ends :
    noting.decodeLines (joined [(record, .both), ([0x20, 0x09], .carriage), ([], .feed)] record) =
        noting.decodeLines (joined [(record, .feed)] record) ∧
      (noting.decodeLines (joined [(record, .feed)] record)).outcome.map List.length = .ok 2 :=
  ⟨(reading_is_a_homomorphism noting).2.2 _ _ _ _ (by decide +kernel), by decide +kernel⟩

end Coder

end SymbolRecord
