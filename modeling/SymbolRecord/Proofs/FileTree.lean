import Mathlib.Data.List.Basic
import SymbolRecord.FileTree
/-!
# Writing a file

A tree is kept as a list of its files, so what writing a file does to the rest of the tree is not
seen from the list at once: a directory stands wherever the place of a file goes on, and a new file
could make directories of places where nothing stood.  It does not, since a path leads to a place
only through directories that are there already, and this also holds of a path that goes up and
down again.

* `FileTree.Clear`, `FileTree.clear_of_follow`: the way to where a path leads.
* `FileTree.Stored`: two trees that differ by the file at one place.
* `FileTree.write_eq_ok_iff`, `FileTree.stored_put`: when a file is written, and what comes of it.
-/

namespace SymbolRecord

namespace FileTree

variable {tree : FileTree}

/-! ## The way to a place -/

/-- All places on the way to a place are directories. -/
def Clear (tree : FileTree) (place : List String) : Prop :=
  ∀ front, front <+: place → front ≠ place → tree.find? front = some .directory

theorem clear_nil : tree.Clear [] :=
  fun _ hfront hne => absurd (List.prefix_nil.mp hfront) hne

/-- The way goes on from a directory. -/
theorem Clear.concat {place : List String} (h : tree.Clear place)
    (hdirectory : tree.find? place = some .directory) (part : String) :
    tree.Clear (place ++ [part]) := by
  intro front hfront hne
  rcases List.prefix_concat_iff.mp hfront with heq | hshort
  · exact absurd heq hne
  · by_cases hplace : front = place
    · rw [hplace]
      exact hdirectory
    · exact h front hshort hplace

/-- The way to a place is a way to each place on it. -/
theorem Clear.of_prefix {front place : List String} (h : tree.Clear place)
    (hfront : front <+: place) : tree.Clear front := by
  intro other hother hne
  refine h other (hother.trans hfront) ?_
  rintro rfl
  exact hne (hother.eq_of_length (Nat.le_antisymm hother.length_le hfront.length_le))

/-- A walk ends at a place to which the way is clear.  What it keeps is the way so far, in reverse,
so a double full stop takes one place off its end. -/
theorem clear_of_walk :
    ∀ {parts way place : List String}, tree.Clear way.reverse → tree.walk way parts = .at place →
      tree.Clear place
  | [], way, place, hway, hwalk => by
    rw [walk] at hwalk
    rw [← Walk.at.inj hwalk]
    exact hway
  | part :: rest, way, place, hway, hwalk => by
    rw [walk] at hwalk
    split at hwalk
    · next hdirectory =>
      by_cases hlong : nameLimit < part.utf8ByteSize
      · rw [if_pos hlong] at hwalk
        nomatch hwalk
      · rw [if_neg hlong] at hwalk
        refine clear_of_walk ?_ hwalk
        by_cases hup : part = ".."
        · rw [if_pos hup]
          refine hway.of_prefix ?_
          rw [List.reverse_prefix]
          exact List.drop_suffix 1 way
        · rw [if_neg hup, List.reverse_cons]
          exact hway.concat hdirectory part
    · nomatch hwalk
    · nomatch hwalk

/-- **A path leads to a place through directories.** -/
theorem clear_of_follow {directory path : Path} {place : List String}
    (h : tree.follow directory path = .ok place) : tree.Clear place := by
  rw [follow] at h
  split at h
  · nomatch h
  · split at h
    · next hwalk =>
      rw [← Except.ok.inj h]
      exact clear_of_walk clear_nil hwalk
    · nomatch h
    · nomatch h
    · nomatch h

/-! ## Storing a content -/

/-- The tree after is the tree before, but for the content of the file at one place. -/
structure Stored (before after : FileTree) (place : List String) (content : Bytes) : Prop where
  /-- The file at the place has the content. -/
  here : after.find? place = some (.file content)
  /-- Whatever stands elsewhere stood there before. -/
  elsewhere : ∀ other, other ≠ place → after.find? other = before.find? other

variable {content : Bytes} {place other : List String} {nodes : List (List String × FileNode)}

theorem find?_put_self :
    (put content place nodes).find? (fun node => node.1 == place) =
      some (place, .file content) := by
  induction nodes with
  | nil => simp [put]
  | cons node nodes ih =>
    rw [put]
    by_cases hnode : node.1 = place
    · rw [if_pos hnode, List.find?_cons_of_pos (by simp)]
    · rw [if_neg hnode, List.find?_cons_of_neg (by simpa using hnode), ih]

theorem find?_put_of_ne (h : other ≠ place) :
    (put content place nodes).find? (fun node => node.1 == other) =
      nodes.find? fun node => node.1 == other := by
  have hplace : (place == other) = false := beq_eq_false_iff_ne.mpr h.symm
  induction nodes with
  | nil => simp [put, hplace]
  | cons node nodes ih =>
    rw [put]
    by_cases hnode : node.1 = place
    · rw [if_pos hnode, List.find?_cons, List.find?_cons, hnode]
      simp only [hplace]
    · rw [if_neg hnode, List.find?_cons, List.find?_cons, ih]

/-- The places on the way to a file are those on the ways to the files before, and to the new
one. -/
theorem any_put :
    ((put content place nodes).any fun node => other.isPrefixOf node.1) =
      ((nodes.any fun node => other.isPrefixOf node.1) || other.isPrefixOf place) := by
  induction nodes with
  | nil => simp [put]
  | cons node nodes ih =>
    rw [put]
    by_cases hnode : node.1 = place
    · rw [if_pos hnode, List.any_cons, List.any_cons, hnode, Bool.or_right_comm, Bool.or_self]
    · rw [if_neg hnode, List.any_cons, List.any_cons, ih, Bool.or_assoc]

/-- **A content that is stored where the way is clear changes nothing else.** -/
theorem stored_put (hclear : tree.Clear place) (content : Bytes) :
    Stored tree ⟨put content place tree.nodes⟩ place content where
  here := by rw [find?, find?_put_self]
  elsewhere other hother := by
    rw [find?, find?_put_of_ne hother, any_put, find?]
    cases hnode : tree.nodes.find? fun node => node.1 == other with
    | some node => rfl
    | none =>
      simp only
      by_cases hway : other <+: place
      · -- A place on the way was a directory before, so its test was passed already.
        have hbefore : tree.find? other = some .directory := hclear other hway hother
        rw [find?, hnode] at hbefore
        simp only at hbefore
        rw [hbefore, ← Bool.or_assoc]
        split at hbefore
        · next htest => rw [htest, Bool.true_or, if_pos rfl]
        · nomatch hbefore
      · have hoff : other.isPrefixOf place = false :=
          Bool.eq_false_iff.mpr fun h => hway (List.isPrefixOf_iff_prefix.mp h)
        rw [hoff, Bool.or_false]

/-- A file is written where a path leads, unless a directory stands there. -/
theorem write_eq_ok_iff {after : FileTree} {directory path : Path} :
    tree.write directory path content = .ok after ↔
      ∃ place, tree.follow directory path = .ok place ∧
        tree.find? place ≠ some .directory ∧ after = ⟨put content place tree.nodes⟩ := by
  rw [write]
  cases hfollow : tree.follow directory path with
  | error error => simp
  | ok place =>
    simp only
    split
    · next hdirectory => simp [hdirectory]
    · next hfree =>
      constructor
      · intro h
        exact ⟨place, rfl, hfree, (Except.ok.inj h).symm⟩
      · rintro ⟨other, hother, -, rfl⟩
        rw [Except.ok.inj hother]

end FileTree

end SymbolRecord
