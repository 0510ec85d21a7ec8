import Mathlib.Data.List.TakeWhile
import SymbolRecord.Lines
/-!
# Lines of bytes

A text is cut into lines in two ways.  This module relates them: cutting at line feeds and carriage
returns is cutting at line feeds first and then each line at its carriage returns, and the blanks
at the ends of a line never matter.

* `trimEnds_eq_self`, `trimmed_trimEnds`: what trimming yields and leaves as it is.
* `Bytes.cut_or`: cutting twice is cutting at both sorts of bytes.
* `Bytes.numberedLines_eq`: numbered lines, from the pieces between line feeds.
* `Bytes.records_append_feed`: a line that was written is a line that is read.
* `Bytes.records_eq_flatMap`: the records of a text are those of its numbered lines.
-/

namespace SymbolRecord

/-! ## Trimming -/

/-- A list whose ends, if it has any, do not satisfy a test. -/
structure Trimmed {α : Type} (p : α → Bool) (xs : List α) : Prop where
  /-- The first member does not satisfy it. -/
  head : ∀ x, xs.head? = some x → p x = false
  /-- The last member does not satisfy it. -/
  last : ∀ x, xs.getLast? = some x → p x = false

section Trimming

variable {α : Type} {p : α → Bool}

theorem dropWhile_eq_self {xs : List α} (h : ∀ x, xs.head? = some x → p x = false) :
    xs.dropWhile p = xs := by
  cases xs with
  | nil => rfl
  | cons x xs => rw [List.dropWhile_cons_of_neg (by rw [h x rfl]; exact Bool.false_ne_true)]

theorem head?_dropWhile {xs : List α} {x : α} (h : (xs.dropWhile p).head? = some x) :
    p x = false := by
  induction xs with
  | nil => exact absurd h (by simp)
  | cons y xs ih =>
    cases hy : p y with
    | true =>
      rw [List.dropWhile_cons_of_pos hy] at h
      exact ih h
    | false =>
      rw [List.dropWhile_cons_of_neg (by rw [hy]; exact Bool.false_ne_true)] at h
      rw [← Option.some_inj.mp h]
      exact hy

/-- What is left from the first mark on: the mark, and all that stands behind it. -/
theorem dropWhile_ne_eq_cons_iff {β : Type} [DecidableEq β] {mark x : β} {xs after : List β} :
    xs.dropWhile (fun y => y ≠ mark) = x :: after ↔
      x = mark ∧ ∃ before, mark ∉ before ∧ xs = before ++ mark :: after := by
  constructor
  · intro h
    have hhead : (xs.dropWhile fun y => y ≠ mark).head? = some x := by
      rw [h]
      rfl
    obtain rfl : x = mark := by simpa using head?_dropWhile hhead
    refine ⟨rfl, xs.takeWhile fun y => y ≠ x, fun hmem => ?_, ?_⟩
    · exact of_decide_eq_true (List.all_eq_true.mp List.all_takeWhile x hmem) rfl
    · rw [← h, List.takeWhile_append_dropWhile]
  · rintro ⟨rfl, before, hbefore, rfl⟩
    have hfront : ∀ y ∈ before, decide (y ≠ x) = true := fun y hy =>
      decide_eq_true (ne_of_mem_of_not_mem hy hbefore)
    rw [List.dropWhile_append_of_pos hfront, List.dropWhile_cons_of_neg (by simp)]

/-- A member that does not satisfy the test ends the front of a list, whatever stands behind it. -/
theorem takeWhile_append_cons {x : α} (hx : p x = false) (xs ys : List α) :
    (xs ++ x :: ys).takeWhile p = xs.takeWhile p := by
  induction xs with
  | nil => rw [List.nil_append, List.takeWhile_cons, hx, List.takeWhile_nil, if_neg (by simp)]
  | cons y xs ih => rw [List.cons_append, List.takeWhile_cons, List.takeWhile_cons, ih]

theorem dropWhile_append_cons {x : α} (hx : p x = false) (xs ys : List α) :
    (xs ++ x :: ys).dropWhile p = xs.dropWhile p ++ x :: ys := by
  induction xs with
  | nil => rw [List.nil_append, List.dropWhile_cons, hx, if_neg (by simp), List.dropWhile_nil,
      List.nil_append]
  | cons y xs ih =>
    rw [List.cons_append, List.dropWhile_cons, List.dropWhile_cons, ih]
    split <;> rfl

/-- Trimming leaves a trimmed list as it is. -/
theorem trimEnds_eq_self {xs : List α} (h : Trimmed p xs) : trimEnds p xs = xs := by
  have hlast : ∀ x, xs.reverse.head? = some x → p x = false := by
    intro x hx
    rw [List.head?_reverse] at hx
    exact h.last x hx
  rw [trimEnds, dropWhile_eq_self h.head, dropWhile_eq_self hlast, List.reverse_reverse]

/-- The members that are dropped from the front of a list. -/
theorem exists_append_dropWhile (p : α → Bool) (xs : List α) :
    ∃ front, xs = front ++ xs.dropWhile p ∧ ∀ x ∈ front, p x = true :=
  ⟨xs.takeWhile p, List.takeWhile_append_dropWhile.symm, fun x hx =>
    List.all_eq_true.mp List.all_takeWhile x hx⟩

/-- What is left when the front is dropped, and what trimming takes off its back. -/
theorem exists_dropWhile_eq (p : α → Bool) (xs : List α) :
    ∃ back, xs.dropWhile p = trimEnds p xs ++ back ∧ ∀ x ∈ back, p x = true := by
  obtain ⟨back, hback, hall⟩ := exists_append_dropWhile p (xs.dropWhile p).reverse
  refine ⟨back.reverse, ?_, fun x hx => hall x (List.mem_reverse.mp hx)⟩
  rw [trimEnds, ← List.reverse_append, ← hback, List.reverse_reverse]

/-- A list is its trimmed form between members that satisfy the test. -/
theorem exists_append_trimEnds (p : α → Bool) (xs : List α) :
    ∃ front back, xs = front ++ (trimEnds p xs ++ back) ∧ (∀ x ∈ front, p x = true) ∧
      ∀ x ∈ back, p x = true := by
  obtain ⟨front, hfront, hall⟩ := exists_append_dropWhile p xs
  obtain ⟨back, hback, hall'⟩ := exists_dropWhile_eq p xs
  refine ⟨front, back, ?_, hall, hall'⟩
  rw [← hback]
  exact hfront

/-- A list whose first member does not satisfy the test loses nothing in front. -/
theorem exists_trimEnds_append {x : α} (hx : p x = false) (xs : List α) :
    trimEnds p (x :: xs) ≠ [] ∧
      ∃ back, x :: xs = trimEnds p (x :: xs) ++ back ∧ ∀ y ∈ back, p y = true := by
  obtain ⟨back, hback, hall⟩ := exists_dropWhile_eq p (x :: xs)
  rw [List.dropWhile_cons_of_neg (by rw [hx]; exact Bool.false_ne_true)] at hback
  refine ⟨fun hnil => ?_, back, hback, hall⟩
  rw [hnil, List.nil_append] at hback
  have hmem : x ∈ back := by
    rw [← hback]
    exact List.mem_cons_self
  exact absurd ((hall x hmem).symm.trans hx) (by simp)

/-- Trimming yields a trimmed list. -/
theorem trimmed_trimEnds (p : α → Bool) (xs : List α) : Trimmed p (trimEnds p xs) where
  head x hx := by
    obtain ⟨back, hback, -⟩ := exists_dropWhile_eq p xs
    refine @head?_dropWhile _ _ xs _ ?_
    rw [hback, List.head?_append, hx]
    rfl
  last x hx := by
    rw [trimEnds, List.getLast?_reverse] at hx
    exact head?_dropWhile hx

/-- Members that satisfy the test are trimmed off the front. -/
theorem trimEnds_cons {x : α} (hx : p x = true) (xs : List α) :
    trimEnds p (x :: xs) = trimEnds p xs := by
  rw [trimEnds, List.dropWhile_cons_of_pos hx, trimEnds]

/-- Members that satisfy the test are trimmed off the back. -/
theorem trimEnds_append_singleton {x : α} (hx : p x = true) (xs : List α) :
    trimEnds p (xs ++ [x]) = trimEnds p xs := by
  induction xs with
  | nil => rw [List.nil_append, trimEnds_cons hx]
  | cons y xs ih =>
    cases hy : p y with
    | true => rw [List.cons_append, trimEnds_cons hy, trimEnds_cons hy, ih]
    | false =>
      have hneg : ¬ p y = true := by
        rw [hy]
        exact Bool.false_ne_true
      rw [List.cons_append, trimEnds, trimEnds, List.dropWhile_cons_of_neg hneg,
        List.dropWhile_cons_of_neg hneg, ← List.cons_append, List.reverse_append,
        List.reverse_singleton, List.singleton_append, List.dropWhile_cons_of_pos hx]

/-- Nothing is left of a list when all of its members satisfy the test. -/
theorem trimEnds_eq_nil_iff {xs : List α} : trimEnds p xs = [] ↔ ∀ x ∈ xs, p x = true := by
  constructor
  · intro h
    obtain ⟨front, back, hxs, hfront, hback⟩ := exists_append_trimEnds p xs
    rw [h, List.nil_append] at hxs
    rw [hxs]
    exact List.forall_mem_append.mpr ⟨hfront, hback⟩
  · intro h
    rw [trimEnds, List.dropWhile_eq_nil_iff.mpr h]
    rfl

end Trimming

namespace Bytes

/-! ## Cutting -/

variable {p q : UInt8 → Bool}

theorem cut_cons_of_break {b : UInt8} (h : p b = true) (rest : Bytes) :
    cut p (b :: rest) = [] :: cut p rest := by
  rw [cut, if_pos h]

theorem cut_cons_of_not {b : UInt8} (h : p b = false) {rest piece : Bytes} {pieces : List Bytes}
    (hrest : cut p rest = piece :: pieces) : cut p (b :: rest) = (b :: piece) :: pieces := by
  rw [cut, if_neg (by rw [h]; exact Bool.false_ne_true), hrest]

theorem exists_cut (p : UInt8 → Bool) (bytes : Bytes) :
    ∃ piece pieces, cut p bytes = piece :: pieces := by
  cases hcut : cut p bytes with
  | nil => exact absurd hcut (cut_ne_nil p bytes)
  | cons piece pieces => exact ⟨piece, pieces, rfl⟩

/-- A text without breaks is one piece. -/
theorem cut_eq_singleton {bytes : Bytes} (h : ∀ b ∈ bytes, p b = false) :
    cut p bytes = [bytes] := by
  induction bytes with
  | nil => rfl
  | cons b rest ih =>
    exact cut_cons_of_not (h b List.mem_cons_self)
      (ih fun c hc => h c (List.mem_cons_of_mem b hc))

/-- Cutting is splitting. -/
theorem cut_eq_splitOnP (p : UInt8 → Bool) (bytes : Bytes) : cut p bytes = bytes.splitOnP p := by
  induction bytes with
  | nil => rfl
  | cons b rest ih =>
    rw [List.splitOnP_cons_eq_if_modifyHead, ← ih]
    cases hb : p b with
    | true => exact cut_cons_of_break hb rest
    | false =>
      obtain ⟨piece, pieces, hrest⟩ := exists_cut p rest
      rw [cut_cons_of_not hb hrest, hrest]
      rfl

/-- Cutting twice is cutting at both sorts of bytes. -/
theorem cut_or (p q : UInt8 → Bool) (bytes : Bytes) :
    cut (fun b => p b || q b) bytes = (cut p bytes).flatMap (cut q) := by
  induction bytes with
  | nil => rfl
  | cons b rest ih =>
    cases hp : p b with
    | true =>
      rw [cut_cons_of_break (by rw [hp]; rfl), cut_cons_of_break hp, List.flatMap_cons, ih]
      rfl
    | false =>
      obtain ⟨piece, pieces, hcut⟩ := exists_cut p rest
      rw [cut_cons_of_not hp hcut, List.flatMap_cons]
      rw [hcut, List.flatMap_cons] at ih
      cases hq : q b with
      | true =>
        rw [cut_cons_of_break (by rw [hp, hq]; rfl), cut_cons_of_break hq, ih, List.cons_append]
      | false =>
        obtain ⟨part, parts, hparts⟩ := exists_cut q piece
        rw [hparts, List.cons_append] at ih
        rw [cut_cons_of_not hq hparts, cut_cons_of_not (by rw [hp, hq]; rfl) ih, List.cons_append]

/-- A byte behind a text that is no break belongs to its last piece. -/
theorem exists_cut_append_singleton {b : UInt8} (hb : p b = false) (bytes : Bytes) :
    ∃ others last, cut p bytes = others ++ [last] ∧
      cut p (bytes ++ [b]) = others ++ [last ++ [b]] := by
  induction bytes with
  | nil => exact ⟨[], [], rfl, cut_cons_of_not hb rfl⟩
  | cons c rest ih =>
    obtain ⟨others, last, hcut, hcut'⟩ := ih
    cases hc : p c with
    | true =>
      refine ⟨[] :: others, last, ?_, ?_⟩
      · rw [cut_cons_of_break hc, hcut, List.cons_append]
      · rw [List.cons_append, cut_cons_of_break hc, hcut', List.cons_append]
    | false =>
      cases others with
      | nil => exact ⟨[], c :: last, cut_cons_of_not hc hcut, cut_cons_of_not hc hcut'⟩
      | cons piece others =>
        exact ⟨(c :: piece) :: others, last, cut_cons_of_not hc hcut, cut_cons_of_not hc hcut'⟩

/-! ## Trimmed pieces -/

/-- The trimmed pieces of a text that are not blank. -/
def pieces (p : UInt8 → Bool) (bytes : Bytes) : List Bytes :=
  ((cut p bytes).map trim).filter fun line => !line.isEmpty

/-- The trimmed form of a text, unless that is empty. -/
def unlessEmpty (line : Bytes) : List Bytes := if line.isEmpty then [] else [line]

theorem filter_cons (line : Bytes) (lines : List Bytes) :
    (line :: lines).filter (fun line => !line.isEmpty) =
      unlessEmpty line ++ lines.filter fun line => !line.isEmpty := by
  rw [List.filter_cons, unlessEmpty]
  cases line.isEmpty <;> rfl

theorem pieces_of_cut {bytes piece : Bytes} {rest : List Bytes} (h : cut p bytes = piece :: rest) :
    pieces p bytes =
      unlessEmpty (trim piece) ++ (rest.map trim).filter fun line => !line.isEmpty := by
  rw [pieces, h, List.map_cons, filter_cons]

theorem pieces_append (a b : Bytes) {sep : UInt8} (h : p sep = true) :
    pieces p (a ++ sep :: b) = pieces p a ++ pieces p b := by
  rw [pieces, cut_append p a b h, List.map_append, List.filter_append]
  rfl

/-- A blank in front of a text is in none of its trimmed pieces. -/
theorem pieces_cons {b : UInt8} (hb : isBlank b = true) (bytes : Bytes) :
    pieces p (b :: bytes) = pieces p bytes := by
  cases hp : p b with
  | true =>
    rw [pieces_of_cut (cut_cons_of_break hp bytes)]
    rfl
  | false =>
    obtain ⟨piece, rest, hcut⟩ := exists_cut p bytes
    have htrim : trim (b :: piece) = trim piece := trimEnds_cons hb piece
    rw [pieces_of_cut (cut_cons_of_not hp hcut), pieces_of_cut hcut, htrim]

/-- A blank behind a text is in none of its trimmed pieces. -/
theorem pieces_append_singleton {b : UInt8} (hb : isBlank b = true) (bytes : Bytes) :
    pieces p (bytes ++ [b]) = pieces p bytes := by
  cases hp : p b with
  | true =>
    rw [pieces_append bytes [] hp]
    exact List.append_nil _
  | false =>
    obtain ⟨others, last, hcut, hcut'⟩ := exists_cut_append_singleton hp bytes
    have htrim : trim (last ++ [b]) = trim last := trimEnds_append_singleton hb last
    rw [pieces, pieces, hcut, hcut', List.map_append, List.map_append, List.map_singleton,
      List.map_singleton, htrim]

theorem pieces_front {front : Bytes} (hfront : ∀ b ∈ front, isBlank b = true) (bytes : Bytes) :
    pieces p (front ++ bytes) = pieces p bytes := by
  induction front with
  | nil => rfl
  | cons b front ih =>
    rw [List.cons_append, pieces_cons (hfront b List.mem_cons_self),
      ih fun c hc => hfront c (List.mem_cons_of_mem b hc)]

theorem pieces_back {back : Bytes} (hback : ∀ b ∈ back, isBlank b = true) :
    ∀ bytes : Bytes, pieces p (bytes ++ back) = pieces p bytes := by
  induction back with
  | nil => exact fun bytes => by rw [List.append_nil]
  | cons b back ih =>
    intro bytes
    have hsplit : bytes ++ b :: back = (bytes ++ [b]) ++ back := by
      rw [List.append_assoc, List.singleton_append]
    rw [hsplit, ih (fun c hc => hback c (List.mem_cons_of_mem b hc)),
      pieces_append_singleton (hback b List.mem_cons_self)]

/-- Trimming a text does not change its trimmed pieces. -/
theorem pieces_trim (bytes : Bytes) : pieces p (trim bytes) = pieces p bytes := by
  obtain ⟨front, back, hsplit, hfront, hback⟩ := exists_append_trimEnds isBlank bytes
  have hsplit' : bytes = front ++ (trim bytes ++ back) := hsplit
  calc pieces p (trim bytes)
      = pieces p (trim bytes ++ back) := (pieces_back hback _).symm
    _ = pieces p (front ++ (trim bytes ++ back)) := (pieces_front hfront _).symm
    _ = pieces p bytes := congrArg (pieces p) hsplit'.symm

/-! ## Records -/

/-- Whether a byte is a carriage return. -/
def isReturn (b : UInt8) : Bool := b == 0x0D

theorem isLineBreak_eq : isLineBreak = fun b => isFeed b || isReturn b := rfl

theorem records_eq_pieces (bytes : Bytes) : records bytes = pieces isLineBreak bytes := rfl

/-- The lines of a text without their numbers, trimmed and not blank. -/
def lines (bytes : Bytes) : List Bytes := pieces isFeed bytes

theorem map_snd_numberFrom {α : Type} (as : List α) :
    ∀ n : Nat, (numberFrom n as).map Prod.snd = as := by
  induction as with
  | nil => exact fun _ => rfl
  | cons a as ih =>
    intro n
    rw [numberFrom, List.map_cons, ih]

theorem snd_mem_of_mem_numberFrom {α : Type} {as : List α} {n : Nat} {item : Nat × α}
    (h : item ∈ numberFrom n as) : item.2 ∈ as := by
  rw [← map_snd_numberFrom as n]
  exact List.mem_map_of_mem h

theorem numberFrom_append {α : Type} (bs : List α) :
    ∀ (as : List α) (n : Nat),
      numberFrom n (as ++ bs) = numberFrom n as ++ numberFrom (n + as.length) bs
  | [], _ => rfl
  | a :: as, n => by
    rw [List.cons_append, numberFrom, numberFrom_append bs as, numberFrom, List.cons_append,
      List.length_cons, Nat.add_assoc, Nat.add_comm 1]

theorem numberFrom_map {α β : Type} (f : α → β) :
    ∀ (as : List α) (n : Nat),
      numberFrom n (as.map f) = (numberFrom n as).map fun item => (item.1, f item.2)
  | [], _ => rfl
  | a :: as, n => by rw [List.map_cons, numberFrom, numberFrom, List.map_cons, numberFrom_map f as]

theorem le_of_mem_numberFrom {α : Type} {item : Nat × α} :
    ∀ {as : List α} {n : Nat}, item ∈ numberFrom n as → n ≤ item.1
  | [], _, h => absurd h List.not_mem_nil
  | a :: as, n, h => by
    rcases List.mem_cons.mp h with rfl | hrest
    · exact Nat.le_refl n
    · exact Nat.le_of_succ_le (le_of_mem_numberFrom hrest)

/-- Numbers ascend. -/
theorem pairwise_numberFrom {α : Type} :
    ∀ (as : List α) (n : Nat), (numberFrom n as).Pairwise fun a b => a.1 < b.1
  | [], _ => List.Pairwise.nil
  | _ :: as, n => List.pairwise_cons.mpr
      ⟨fun _ hmem => le_of_mem_numberFrom hmem, pairwise_numberFrom as (n + 1)⟩

theorem length_numberFrom {α : Type} (as : List α) (n : Nat) :
    (numberFrom n as).length = as.length := by
  rw [← List.length_map (f := Prod.snd), map_snd_numberFrom]

/-- The numbered lines, from the pieces between the line feeds. -/
theorem numberedLines_eq (bytes : Bytes) :
    numberedLines bytes =
      ((numberFrom 1 (bytes.splitOn 0x0A)).map fun line => (line.1, trim line.2)).filter
        fun line => !line.2.isEmpty := by
  have hcut : cut isFeed bytes = bytes.splitOn 0x0A := cut_eq_splitOnP isFeed bytes
  rw [numberedLines, hcut, numberFrom_map]

theorem map_snd_numberedLines (bytes : Bytes) :
    (numberedLines bytes).map Prod.snd = lines bytes := by
  have hfilter : ∀ numbered : List (Nat × Bytes),
      (numbered.filter fun line => !line.2.isEmpty).map Prod.snd =
        (numbered.map Prod.snd).filter fun line => !line.isEmpty := by
    intro numbered
    rw [List.filter_map]
    rfl
  rw [numberedLines, hfilter, map_snd_numberFrom]
  rfl

theorem flatMap_pieces_filter (ls : List Bytes) :
    ((ls.map trim).filter fun line => !line.isEmpty).flatMap (pieces p) =
      ls.flatMap (pieces p) := by
  induction ls with
  | nil => rfl
  | cons line ls ih =>
    rw [List.map_cons, filter_cons, List.flatMap_append, List.flatMap_cons, ih, unlessEmpty,
      ← pieces_trim line]
    cases htrim : trim line with
    | nil => rfl
    | cons b rest => rw [List.isEmpty_cons, if_neg Bool.false_ne_true, List.flatMap_singleton]

/-- **The records of a text are the pieces of its lines** between carriage returns. -/
theorem records_eq_flatMap (bytes : Bytes) :
    records bytes = (lines bytes).flatMap (pieces isReturn) := by
  rw [lines, pieces, flatMap_pieces_filter, records_eq_pieces, pieces, isLineBreak_eq, cut_or,
    List.map_flatMap, List.filter_flatMap]
  rfl

/-- What is known of each line: it is trimmed, and it is not empty. -/
theorem trimmed_of_mem_lines {bytes line : Bytes} (h : line ∈ lines bytes) :
    Trimmed isBlank line ∧ line ≠ [] := by
  obtain ⟨hmem, hne⟩ := List.mem_filter.mp h
  obtain ⟨raw, -, rfl⟩ := List.mem_map.mp hmem
  refine ⟨trimmed_trimEnds isBlank raw, fun hnil => ?_⟩
  rw [hnil] at hne
  exact absurd hne (by simp)

/-- A trimmed line without breaks is its only piece. -/
theorem pieces_eq_singleton {line : Bytes} (htrimmed : Trimmed isBlank line) (hne : line ≠ [])
    (hbreak : ∀ b ∈ line, p b = false) : pieces p line = [line] := by
  have htrim : trim line = line := trimEnds_eq_self htrimmed
  rw [pieces_of_cut (cut_eq_singleton hbreak), htrim, unlessEmpty,
    if_neg (by rwa [List.isEmpty_iff])]
  rfl

/-! ## Written lines -/

/-- A written line begins and ends with no blank, is not empty, has no line end inside, and has a
line feed behind it. -/
def IsLine (written : Bytes) : Prop :=
  ∃ line, written = line ++ [0x0A] ∧ Trimmed isBlank line ∧ line ≠ [] ∧
    ∀ b ∈ line, isLineBreak b = false

theorem isLineBreak_of_isFeed {b : UInt8} (h : isFeed b = true) : isLineBreak b = true := by
  rw [isLineBreak_eq]
  simp only [h, Bool.true_or]

section IsLine

variable (hfeed : p 0x0A = true) (hbreak : ∀ b, p b = true → isLineBreak b = true)

include hfeed hbreak

/-- A written line is the first piece of a text that begins with it. -/
theorem IsLine.pieces_append {written : Bytes} (h : IsLine written) (rest : Bytes) :
    pieces p (written ++ rest) = written.dropLast :: pieces p rest := by
  obtain ⟨line, rfl, htrimmed, hne, hline⟩ := h
  have hp : ∀ b ∈ line, p b = false := fun b hb =>
    Bool.eq_false_iff.mpr fun htrue => absurd (hbreak b htrue) (by simp [hline b hb])
  rw [List.append_assoc, List.singleton_append, SymbolRecord.Bytes.pieces_append line rest hfeed,
    pieces_eq_singleton htrimmed hne hp, List.dropLast_concat]
  rfl

/-- The pieces of written lines are those lines without their line feeds. -/
theorem pieces_flatten {lines : List Bytes} (h : ∀ line ∈ lines, IsLine line) :
    pieces p lines.flatten = lines.map List.dropLast := by
  induction lines with
  | nil => rfl
  | cons line lines ih =>
    obtain ⟨hline, hlines⟩ := List.forall_mem_cons.mp h
    rw [List.flatten_cons, hline.pieces_append hfeed hbreak, List.map_cons, ih hlines]

end IsLine

theorem IsLine.count_feed {written : Bytes} (h : IsLine written) : written.count 0x0A = 1 := by
  obtain ⟨line, rfl, -, -, hline⟩ := h
  rw [List.count_append, List.count_singleton_self, List.count_eq_zero.mpr fun hmem => ?_]
  exact absurd (hline _ hmem) (by decide)

/-- Written lines have one line feed each. -/
theorem count_feed_flatten {lines : List Bytes} (h : ∀ line ∈ lines, IsLine line) :
    lines.flatten.count 0x0A = lines.length := by
  induction lines with
  | nil => rfl
  | cons line lines ih =>
    obtain ⟨hline, hlines⟩ := List.forall_mem_cons.mp h
    rw [List.flatten_cons, List.count_append, hline.count_feed, ih hlines, List.length_cons,
      Nat.add_comm]

/-- Written lines have no carriage return. -/
theorem return_notMem_flatten {lines : List Bytes} (h : ∀ line ∈ lines, IsLine line) :
    (0x0D : UInt8) ∉ lines.flatten := by
  intro hmem
  obtain ⟨written, hwritten, hmem⟩ := List.mem_flatten.mp hmem
  obtain ⟨line, rfl, -, -, hline⟩ := h written hwritten
  rcases List.mem_append.mp hmem with hin | hfeed
  · exact absurd (hline _ hin) (by decide)
  · exact absurd hfeed (by decide)

end Bytes

end SymbolRecord
