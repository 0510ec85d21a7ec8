import SymbolRecord.Mixin.Snippet
import SymbolRecord.Proofs.Entries
/-!
# Lines of a slice

The bounds of a slice read as a half-open range of line indices.  Nothing compares them with the
number of lines, and nothing asks that they be indices: when the lines are taken, a bound beyond the
last line stands for the end, and a negative bound counts from the end.  Bounds that are too large
do no harm, since there are no lines out there.  Negative bounds do: a range that ends before the
first line yields lines near the end, and a range that begins before the first line and ends behind
it loses lines, or all of them.

What is taken is again the lines of a half-open range, so the two readings can be compared as lists.
They differ in length wherever they differ at all, so they do not agree by chance either, in
snippets in which a line occurs twice.

* `Snippet.within`: the members of a list whose indices are in a half-open range.
* `Snippet.between_eq_within`: what is taken is within the bounds counted from the end.
* `SliceRange.Strays`, `Snippet.between_eq_within_iff`: when that is within the bounds as they are.
* `Snippet.slice_shows_its_range_unless_it_strays`: what follows for named slices.
-/

namespace SymbolRecord

/-- Bounds stray, among so many lines, when counting from the end leads them to other lines than
those between them.  Either both are negative, they are not the same, and the upper one counts to a
place behind the first line; or the lower one alone is negative and counts to such a place. -/
def SliceRange.Strays (range : SliceRange) (count : Nat) : Prop :=
  (range.start < range.finish ∧ range.finish < 0 ∧ 0 < range.finish + count) ∨
    (range.start < 0 ∧ 0 < range.finish ∧ 0 < range.start + count)

instance (range : SliceRange) (count : Nat) : Decidable (range.Strays count) :=
  inferInstanceAs (Decidable (_ ∨ _))

namespace Snippet

variable {α : Type}

/-- The members of a list whose indices, counted from zero, are in a half-open range. -/
def within (items : List α) (start finish : Int) : List α :=
  (items.zipIdx.filter fun item => start ≤ (item.2 : Int) ∧ (item.2 : Int) < finish).map Prod.fst

/-- A bound with its meaning: a negative one counts from the end. -/
def fromEnd (count : Nat) (bound : Int) : Int := if bound < 0 then bound + count else bound

/-! ## Members of a range -/

theorem within_nil (start finish : Int) : within ([] : List α) start finish = [] := rfl

/-- The first member of a list has the index zero, and the others those of the rest and one more. -/
theorem within_cons (a : α) (items : List α) (start finish : Int) :
    within (a :: items) start finish =
      (if start ≤ 0 ∧ 0 < finish then [a] else []) ++ within items (start - 1) (finish - 1) := by
  have hrest : ((items.zipIdx 1).filter fun item =>
      decide (start ≤ (item.2 : Int) ∧ (item.2 : Int) < finish)).map Prod.fst =
        within items (start - 1) (finish - 1) := by
    rw [within, List.zipIdx_succ, List.filter_map, List.map_map]
    refine congrArg (List.map _) (List.filter_congr fun item _ => ?_)
    refine decide_eq_decide.mpr ?_
    show start ≤ ((item.2 + 1 : Nat) : Int) ∧ ((item.2 + 1 : Nat) : Int) < finish ↔ _
    omega
  rw [within, List.zipIdx_cons, List.filter_cons, ← hrest]
  by_cases h : start ≤ 0 ∧ 0 < finish
  · rw [if_pos (by simpa using h), if_pos h]
    rfl
  · rw [if_neg (by simpa using h), if_neg h]
    rfl

/-- The members of a range are what is left of a list up to the upper bound without what stands
before the lower one. -/
theorem within_eq_drop_take (items : List α) :
    ∀ start finish : Int,
      within items start finish = (items.take finish.toNat).drop start.toNat := by
  induction items with
  | nil => exact fun start finish => by rw [within_nil, List.take_nil, List.drop_nil]
  | cons a items ih =>
    intro start finish
    rw [within_cons, ih]
    rcases Int.lt_or_le 0 finish with hfinish | hfinish
    · have htake : finish.toNat = (finish - 1).toNat + 1 := by omega
      rw [htake, List.take_succ_cons]
      rcases Int.lt_or_le 0 start with hstart | hstart
      · have hdrop : start.toNat = (start - 1).toNat + 1 := by omega
        rw [if_neg (by omega), hdrop, List.drop_succ_cons, List.nil_append]
      · have hdrop : start.toNat = 0 ∧ (start - 1).toNat = 0 := by omega
        rw [if_pos ⟨hstart, hfinish⟩, hdrop.1, hdrop.2]
        rfl
    · have htake : finish.toNat = 0 ∧ (finish - 1).toNat = 0 := by omega
      rw [if_neg (by omega), htake.1, htake.2, List.take_zero, List.take_zero, List.drop_nil,
        List.drop_nil, List.nil_append]

theorem length_within (items : List α) (start finish : Int) :
    (within items start finish).length =
      min finish.toNat items.length - start.toNat := by
  rw [within_eq_drop_take, List.length_drop, List.length_take]

/-! ## What is taken -/

theorem fromEnd_of_neg {bound : Int} (h : bound < 0) (count : Nat) :
    fromEnd count bound = bound + count :=
  if_pos h

theorem fromEnd_of_nonneg {bound : Int} (h : 0 ≤ bound) (count : Nat) :
    fromEnd count bound = bound :=
  if_neg (Int.not_lt.mpr h)

/-- A bound stands for the place that it counts to, or for the end if that is beyond it. -/
theorem min_place (count : Nat) (bound : Int) :
    min (place count bound) count = min (fromEnd count bound).toNat count := by
  rcases Int.lt_or_le bound 0 with hneg | hnonneg
  · rw [fromEnd_of_neg hneg, place, if_pos hneg]
  · rw [fromEnd_of_nonneg hnonneg, place, if_neg (Int.not_lt.mpr hnonneg), Nat.min_assoc,
      Nat.min_self]

/-- Places beyond the end of a list are all the same. -/
theorem drop_take_congr (items : List α) {i j k l : Nat}
    (hupper : min i items.length = min k items.length)
    (hlower : min j items.length = min l items.length) :
    (items.take i).drop j = (items.take k).drop l := by
  rw [List.take_eq_take_iff.mpr hupper, List.drop_eq_drop_iff, List.length_take]
  omega

/-- **What is taken of a list** are the members within the bounds counted from the end. -/
theorem between_eq_within (items : List α) (start finish : Int) :
    between items start finish =
      within items (fromEnd items.length start) (fromEnd items.length finish) := by
  rw [between, within_eq_drop_take]
  exact drop_take_congr items (min_place _ _) (min_place _ _)

theorem length_between (items : List α) (start finish : Int) :
    (between items start finish).length =
      min (fromEnd items.length finish).toNat items.length -
        (fromEnd items.length start).toNat := by
  rw [between_eq_within, length_within]

/-- What is taken of a list are not the members within bounds that stray, because there are too
many or too few of them. -/
theorem between_ne_within {range : SliceRange} {items : List α}
    (h : range.Strays items.length) :
    between items range.start range.finish ≠ within items range.start range.finish := by
  intro heq
  have hlength := congrArg List.length heq
  rw [length_between, length_within] at hlength
  rcases h with ⟨hlt, hfinish, hreach⟩ | ⟨hstart, hfinish, hreach⟩
  · rw [fromEnd_of_neg hfinish, fromEnd_of_neg (Int.lt_trans hlt hfinish)] at hlength
    omega
  · rw [fromEnd_of_neg hstart, fromEnd_of_nonneg (Int.le_of_lt hfinish)] at hlength
    omega

/-- **What is taken of a list** are the members within the bounds as they are, unless these
stray. -/
theorem between_eq_within_iff (range : SliceRange) (items : List α) :
    between items range.start range.finish = within items range.start range.finish ↔
      ¬ range.Strays items.length := by
  refine ⟨fun heq hstrays => between_ne_within hstrays heq, fun h => ?_⟩
  rw [SliceRange.Strays, not_or] at h
  obtain ⟨hbefore, hacross⟩ := h
  have hle : range.start ≤ range.finish := range.start_le_finish
  rcases Int.lt_or_le range.start 0 with hstart | hstart
  · rcases Int.lt_or_le 0 range.finish with hfinish | hfinish
    · -- the lower bound leads to the first line or before it
      rw [between_eq_within, fromEnd_of_neg hstart, fromEnd_of_nonneg (Int.le_of_lt hfinish),
        within_eq_drop_take, within_eq_drop_take]
      refine drop_take_congr items rfl ?_
      omega
    · -- there are no lines on either side
      have htaken : (between items range.start range.finish).length = 0 := by
        rw [length_between, fromEnd_of_neg hstart]
        rcases Int.lt_or_le range.finish 0 with hneg | hnonneg
        · rw [fromEnd_of_neg hneg]
          omega
        · rw [fromEnd_of_nonneg hnonneg]
          omega
      have hwithin : (within items range.start range.finish).length = 0 := by
        rw [length_within]
        omega
      rw [List.eq_nil_of_length_eq_zero htaken, List.eq_nil_of_length_eq_zero hwithin]
  · rw [between_eq_within, fromEnd_of_nonneg hstart,
      fromEnd_of_nonneg (Int.le_trans hstart hle)]

/-! ## Named slices -/

/-- There is nothing to show under a name if and only if the snippet has no slice of that name. -/
theorem sliceLines?_eq_none_iff (snippet : Snippet) (name : String) :
    snippet.sliceLines? name = none ↔ name ∉ snippet.slices.keys := by
  rw [sliceLines?, Option.map_eq_none_iff]
  exact Entries.get?_eq_none_iff snippet.slices.entries name

/-- **A named slice shows the lines of its range unless the range strays.**  Every snippet shows
some lines under the name of each of its slices and none under any other name, whatever the bounds
are.  It shows the lines within the bounds counted from the end, in order; and these are the lines
within the bounds themselves if and only if the bounds do not stray. -/
theorem slice_shows_its_range_unless_it_strays (snippet : Snippet) (name : String) :
    (snippet.sliceLines? name = none ↔ name ∉ snippet.slices.keys) ∧
    ∀ range, snippet.slices.get? name = some range →
      ∃ shown, snippet.sliceLines? name = some shown ∧
        shown = within snippet.lines (fromEnd snippet.lines.length range.start)
          (fromEnd snippet.lines.length range.finish) ∧
        (shown = within snippet.lines range.start range.finish ↔
          ¬ range.Strays snippet.lines.length) := by
  refine ⟨snippet.sliceLines?_eq_none_iff name, fun range hrange => ?_⟩
  refine ⟨between snippet.lines range.start range.finish, ?_,
    between_eq_within snippet.lines range.start range.finish,
    between_eq_within_iff range snippet.lines⟩
  rw [sliceLines?, hrange]
  rfl

/-- The payload of a snippet with four lines and slices that end before the first line, begin before
it, and lie behind the last one. -/
def slicedPayload : Value :=
  .object [("lines", .list [.text "a", .text "b", .text "c", .text "d"]),
    ("slices", .object [("before", .object [("start", .int (-3)), ("end", .int (-1))]),
      ("across", .object [("start", .int (-1)), ("end", .int 3)]),
      ("behind", .object [("start", .int 2), ("end", .int 99)])])]

/-- The snippet. -/
def sliced : Snippet :=
  ⟨none, ["a", "b", "c", "d"], ⟨[("before", ⟨-3, -1, by decide⟩), ("across", ⟨-1, 3, by decide⟩),
    ("behind", ⟨2, 99, by decide⟩)], by decide⟩⟩

/-- A range behind the last lines does not stray. -/
theorem slice_behind_the_last_line :
    ∃ shown, sliced.sliceLines? "behind" = some shown ∧ shown = within sliced.lines 2 99 := by
  obtain ⟨-, hnamed⟩ := slice_shows_its_range_unless_it_strays sliced "behind"
  obtain ⟨shown, hshown, -, hiff⟩ := hnamed ⟨2, 99, by decide⟩ (by decide)
  exact ⟨shown, hshown, hiff.mpr (by decide)⟩

/-- A snippet is accepted that shows two lines for a range in which there are none, and no line for
a range in which there are three. -/
theorem slices_of_other_lines :
    codec.read slicedPayload = .accepted sliced ∧
      (sliced.sliceLines? "before" = some ["b", "c"] ∧ within sliced.lines (-3) (-1) = []) ∧
      sliced.sliceLines? "across" = some [] ∧
      within sliced.lines (-1) 3 = ["a", "b", "c"] :=
  ⟨rfl, by decide, by decide⟩

end Snippet

end SymbolRecord
