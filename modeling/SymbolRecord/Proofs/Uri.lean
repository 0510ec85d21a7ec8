import SymbolRecord.Proofs.Lines
import SymbolRecord.Uri
/-!
# What the path of a URI hangs on

A URI is taken apart by cutting it at marks, and each cut looks for the first mark of its kind in
what the cuts before have left.  A fragment or a query may hold any text, also text with the marks
of a scheme, of an authority or of a further fragment, and still it must not move the cuts in front
of it.  It does not, because the mark that begins it ends an authority and occurs in no scheme: each
cut commutes with what stands behind such a mark.

Spaces are escaped before anything is cut.  An escape has none of the marks, so the cuts commute
with escaping, but for one case: a space in front of a URI does not count, and an escaped one does.
Such a URI loses its scheme and its authority, and so it has a path that cannot be refused.

An authority is the only thing that is refused, and one of plain letters, digits and other marks of
ASCII never is.

* `Uri.cutFirst_eq_some_iff`, `Uri.dropScheme_of_isScheme`, `Uri.dropScheme_eq_self`: the cuts.
* `Uri.pathOf_append`: a fragment or a query does not change the path.
* `Uri.dropScheme_escapeSpaces`, `Uri.clean_escapeSpaces`: the cuts and escaping.
* `Uri.HasAuthority`: the authority of a URI.
* `Uri.exists_authority_of_error`: which URIs are refused.
* `Uri.path_keeps_its_outcome`: all of this, for every URI.
-/

namespace SymbolRecord

namespace Uri

variable {cs front back authority : List Char} {mark : Char}

/-! ## Cutting -/

/-- A cut at the first mark leaves no mark in front of it. -/
theorem cutFirst_eq_some_iff {before after : List Char} :
    cutFirst mark cs = (before, some after) ↔ cs = before ++ mark :: after ∧ mark ∉ before := by
  have hfront : ∀ {front : List Char}, mark ∉ front → front.takeWhile (· ≠ mark) = front :=
    fun hmark => List.takeWhile_eq_self_iff.mpr fun c hc =>
      decide_eq_true (ne_of_mem_of_not_mem hc hmark)
  rw [cutFirst]
  constructor
  · intro h
    cases hdrop : cs.dropWhile (· ≠ mark) with
    | nil =>
      rw [hdrop] at h
      nomatch h
    | cons c rest =>
      rw [hdrop] at h
      obtain ⟨rfl, hrest⟩ := Prod.mk.inj h
      obtain rfl := Option.some_inj.mp hrest
      obtain ⟨rfl, front, hmark, rfl⟩ := dropWhile_ne_eq_cons_iff.mp hdrop
      rw [takeWhile_append_cons (by simp), hfront hmark]
      exact ⟨rfl, hmark⟩
  · rintro ⟨rfl, hmark⟩
    rw [takeWhile_append_cons (by simp), hfront hmark,
      dropWhile_ne_eq_cons_iff.mpr ⟨rfl, before, hmark, rfl⟩]

theorem notMem_of_isScheme {scheme : List Char} (hmark : isSchemeChar mark = false)
    (h : isScheme scheme = true) : mark ∉ scheme := by
  intro hmem
  rw [isScheme, Bool.and_eq_true] at h
  have hchar := List.all_eq_true.mp h.2 mark hmem
  rw [hmark] at hchar
  nomatch hchar

/-- A scheme is dropped with the colon behind it. -/
theorem dropScheme_of_isScheme {scheme rest : List Char} (h : isScheme scheme = true) :
    dropScheme (scheme ++ ':' :: rest) = rest := by
  have hcut : cutFirst ':' (scheme ++ ':' :: rest) = (scheme, some rest) :=
    cutFirst_eq_some_iff.mpr ⟨rfl, notMem_of_isScheme (by decide) h⟩
  rw [dropScheme, hcut]
  exact if_pos h

/-- Without a scheme, nothing is dropped. -/
theorem dropScheme_eq_self
    (h : ∀ scheme rest, isScheme scheme = true → cs ≠ scheme ++ ':' :: rest) :
    dropScheme cs = cs := by
  rw [dropScheme]
  split
  · next scheme rest hcut =>
    rw [if_neg fun hscheme => h scheme rest hscheme (cutFirst_eq_some_iff.mp hcut).1]
  · rfl

/-! ## Behind a mark -/

theorem clean_append_cons (hmark : mark = '#' ∨ mark = '?') (cs back : List Char) :
    ∃ back', clean (cs ++ mark :: back) = clean cs ++ mark :: back' := by
  refine ⟨back.filter fun c => c ≠ '\t' && c ≠ '\r' && c ≠ '\n', ?_⟩
  have hkept : decide (mark.toNat ≤ 0x20) = false ∧
      (decide (mark ≠ '\t') && decide (mark ≠ '\r') && decide (mark ≠ '\n')) = true := by
    rcases hmark with rfl | rfl <;> decide
  rw [clean, clean, dropWhile_append_cons (by exact hkept.1), List.filter_append,
    List.filter_cons_of_pos (by exact hkept.2)]

/-- A mark that occurs in no scheme does not make one, and does not break one. -/
theorem dropScheme_append_cons (hmark : isSchemeChar mark = false) (hcolon : mark ≠ ':')
    (cs back : List Char) :
    dropScheme (cs ++ mark :: back) = dropScheme cs ++ mark :: back := by
  by_cases h : ∃ scheme rest, isScheme scheme = true ∧ cs = scheme ++ ':' :: rest
  · obtain ⟨scheme, rest, hscheme, rfl⟩ := h
    rw [List.append_assoc, List.cons_append, dropScheme_of_isScheme hscheme,
      dropScheme_of_isScheme hscheme]
  · have hnone : ∀ scheme rest, isScheme scheme = true → cs ≠ scheme ++ ':' :: rest :=
      fun scheme rest hscheme heq => h ⟨scheme, rest, hscheme, heq⟩
    rw [dropScheme_eq_self hnone, dropScheme_eq_self]
    intro scheme rest hscheme heq
    rcases List.append_eq_append_iff.mp heq with ⟨more, hmore, hrest⟩ | ⟨more, hmore, hrest⟩
    · -- the scheme would reach up to the mark
      cases more with
      | nil => exact hcolon (List.cons.inj hrest).1
      | cons c more =>
        obtain ⟨rfl, -⟩ := List.cons.inj hrest
        refine notMem_of_isScheme hmark hscheme ?_
        rw [hmore]
        exact List.mem_append_right _ List.mem_cons_self
    · -- the colon would stand in front of the mark
      cases more with
      | nil => exact hcolon (List.cons.inj hrest).1.symm
      | cons c more =>
        obtain ⟨rfl, -⟩ := List.cons.inj hrest
        exact hnone scheme more hscheme hmore

/-- Without two slashes, there is no authority. -/
theorem splitAuthority_eq_self (h : ∀ rest, cs ≠ '/' :: '/' :: rest) :
    splitAuthority cs = ([], cs) := by
  rw [splitAuthority.eq_def]
  split
  · next rest => exact absurd rfl (h rest)
  · rfl

/-- A mark that ends an authority leaves the authority in front of it as it is. -/
theorem splitAuthority_append_cons (hmark : endsAuthority mark = true) (hslash : mark ≠ '/')
    (cs back : List Char) :
    splitAuthority (cs ++ mark :: back) =
      ((splitAuthority cs).1, (splitAuthority cs).2 ++ mark :: back) := by
  by_cases h : ∃ rest, cs = '/' :: '/' :: rest
  · obtain ⟨rest, rfl⟩ := h
    rw [List.cons_append, List.cons_append, splitAuthority, splitAuthority,
      takeWhile_append_cons (by simp [hmark]), dropWhile_append_cons (by simp [hmark])]
  · have hnone : ∀ rest, cs ≠ '/' :: '/' :: rest := fun rest heq => h ⟨rest, heq⟩
    rw [splitAuthority_eq_self hnone, splitAuthority_eq_self]
    -- the mark would be one of the slashes
    intro rest heq
    rcases cs with _ | ⟨c, _ | ⟨d, cs⟩⟩
    · exact hslash (List.cons.inj heq).1
    · exact hslash (List.cons.inj (List.cons.inj heq).2).1
    · obtain ⟨rfl, htail⟩ := List.cons.inj heq
      obtain ⟨rfl, -⟩ := List.cons.inj htail
      exact hnone cs rfl

theorem dropQuery_append_cons (hmark : mark = '#' ∨ mark = '?') (cs back : List Char) :
    dropQuery (cs ++ mark :: back) = dropQuery cs := by
  rw [dropQuery, dropQuery, List.takeWhile_takeWhile, List.takeWhile_takeWhile]
  refine takeWhile_append_cons ?_ cs back
  rcases hmark with rfl | rfl <;> decide

/-- **A fragment or a query does not change the path**, nor why there is none. -/
theorem pathOf_append (hmark : mark = '#' ∨ mark = '?') (cs back : List Char) :
    pathOf (cs ++ mark :: back) = pathOf cs := by
  obtain ⟨back', hclean⟩ := clean_append_cons hmark cs back
  have hscheme : isSchemeChar mark = false ∧ mark ≠ ':' := by
    rcases hmark with rfl | rfl <;> decide
  have hends : endsAuthority mark = true ∧ mark ≠ '/' := by
    rcases hmark with rfl | rfl <;> decide
  rw [pathOf, pathOf, hclean, dropScheme_append_cons hscheme.1 hscheme.2,
    splitAuthority_append_cons hends.1 hends.2]
  simp only [dropQuery_append_cons hmark]

/-! ## Spaces -/

theorem escapeSpaces_append (a b : List Char) :
    escapeSpaces (a ++ b) = escapeSpaces a ++ escapeSpaces b := by
  induction a with
  | nil => rfl
  | cons c a ih =>
    rw [List.cons_append, escapeSpaces, escapeSpaces, ih]
    split <;> rfl

theorem escapeSpaces_eq_self (h : ' ' ∉ cs) : escapeSpaces cs = cs := by
  induction cs with
  | nil => rfl
  | cons c cs ih =>
    rw [List.mem_cons, not_or] at h
    rw [escapeSpaces, if_neg (Ne.symm h.1), ih h.2]

theorem mem_of_mem_escapeSpaces {c : Char} (h : c ∈ escapeSpaces cs) :
    (c ∈ cs ∧ c ≠ ' ') ∨ c ∈ ['%', '2', '0'] := by
  induction cs with
  | nil => exact absurd h List.not_mem_nil
  | cons d cs ih =>
    rw [escapeSpaces] at h
    split at h
    · rcases List.mem_append.mp (show c ∈ ['%', '2', '0'] ++ escapeSpaces cs from h) with h | h
      · exact .inr h
      · exact (ih h).imp_left (And.imp_left (List.mem_cons_of_mem d))
    · next hd =>
      rcases List.mem_cons.mp h with rfl | h
      · exact .inl ⟨List.mem_cons_self, hd⟩
      · exact (ih h).imp_left (And.imp_left (List.mem_cons_of_mem d))

theorem space_notMem_escapeSpaces (cs : List Char) : ' ' ∉ escapeSpaces cs := by
  intro h
  rcases mem_of_mem_escapeSpaces h with ⟨-, hne⟩ | h
  · exact hne rfl
  · exact absurd h (by decide)

/-- Escaping twice is escaping once. -/
theorem escapeSpaces_escapeSpaces (cs : List Char) :
    escapeSpaces (escapeSpaces cs) = escapeSpaces cs :=
  escapeSpaces_eq_self (space_notMem_escapeSpaces cs)

/-- What an escaped text begins with, when that is no part of an escape, its text begins with. -/
theorem exists_of_escapeSpaces_eq_append :
    ∀ {front cs back : List Char}, '%' ∉ front → escapeSpaces cs = front ++ back →
      ∃ rest, cs = front ++ rest ∧ escapeSpaces rest = back
  | [], cs, _, _, h => ⟨cs, rfl, h⟩
  | c :: front, [], _, _, h => by nomatch h
  | c :: front, d :: cs, back, hfront, h => by
    rw [List.mem_cons, not_or] at hfront
    rw [escapeSpaces] at h
    split at h
    · exact absurd (List.cons.inj h).1 hfront.1
    · obtain ⟨rfl, htail⟩ := List.cons.inj h
      obtain ⟨rest, rfl, hrest⟩ := exists_of_escapeSpaces_eq_append hfront.2 htail
      exact ⟨rest, rfl, hrest⟩

/-- A space is in no scheme, and an escape is in none either. -/
theorem dropScheme_escapeSpaces (cs : List Char) :
    dropScheme (escapeSpaces cs) = escapeSpaces (dropScheme cs) := by
  by_cases h : ∃ scheme rest, isScheme scheme = true ∧ cs = scheme ++ ':' :: rest
  · obtain ⟨scheme, rest, hscheme, rfl⟩ := h
    have hspace : ' ' ∉ scheme := notMem_of_isScheme (by decide) hscheme
    have hescaped : escapeSpaces (scheme ++ ':' :: rest) = scheme ++ ':' :: escapeSpaces rest := by
      rw [escapeSpaces_append, escapeSpaces_eq_self hspace, escapeSpaces, if_neg (by decide)]
    rw [hescaped, dropScheme_of_isScheme hscheme, dropScheme_of_isScheme hscheme]
  · rw [dropScheme_eq_self fun scheme rest hscheme heq => h ⟨scheme, rest, hscheme, heq⟩,
      dropScheme_eq_self]
    intro scheme rest hscheme heq
    have hfront : '%' ∉ scheme ++ [':'] := by
      rw [List.mem_append, not_or]
      exact ⟨notMem_of_isScheme (by decide) hscheme, by decide⟩
    have hescaped : escapeSpaces cs = (scheme ++ [':']) ++ rest := by
      rw [heq, List.append_assoc, List.singleton_append]
    obtain ⟨rest', hcs, -⟩ := exists_of_escapeSpaces_eq_append hfront hescaped
    refine h ⟨scheme, rest', hscheme, ?_⟩
    rw [hcs, List.append_assoc, List.singleton_append]

theorem filter_escapeSpaces {p : Char → Bool} (hp : ∀ c ∈ [' ', '%', '2', '0'], p c = true)
    (cs : List Char) : (escapeSpaces cs).filter p = escapeSpaces (cs.filter p) := by
  obtain ⟨hspace, hpercent, htwo, hzero⟩ := by simpa using hp
  induction cs with
  | nil => rfl
  | cons c cs ih =>
    by_cases hc : c = ' '
    · subst hc
      rw [escapeSpaces, if_pos rfl, List.filter_cons_of_pos hspace, escapeSpaces, if_pos rfl,
        List.filter_cons_of_pos hpercent, List.filter_cons_of_pos htwo,
        List.filter_cons_of_pos hzero, ih]
    · rw [escapeSpaces, if_neg hc, List.filter_cons, List.filter_cons, ih]
      split
      · rw [escapeSpaces, if_neg hc]
      · rfl

theorem takeWhile_escapeSpaces {p : Char → Bool} (hp : ∀ c ∈ [' ', '%', '2', '0'], p c = true)
    (cs : List Char) : (escapeSpaces cs).takeWhile p = escapeSpaces (cs.takeWhile p) := by
  obtain ⟨hspace, hpercent, htwo, hzero⟩ := by simpa using hp
  induction cs with
  | nil => rfl
  | cons c cs ih =>
    by_cases hc : c = ' '
    · subst hc
      rw [escapeSpaces, if_pos rfl, List.takeWhile_cons_of_pos hspace, escapeSpaces, if_pos rfl,
        List.takeWhile_cons_of_pos hpercent, List.takeWhile_cons_of_pos htwo,
        List.takeWhile_cons_of_pos hzero, ih]
    · rw [escapeSpaces, if_neg hc, List.takeWhile_cons, List.takeWhile_cons, ih]
      split
      · rw [escapeSpaces, if_neg hc]
      · rfl

/-- Escaping commutes with cleaning, unless a space stands among the characters in front that do not
count; then the escape counts. -/
theorem clean_escapeSpaces :
    ∀ cs : List Char, clean (escapeSpaces cs) = escapeSpaces (clean cs) ∨
      (clean (escapeSpaces cs)).head? = some '%'
  | [] => .inl rfl
  | c :: cs => by
    by_cases hspace : c = ' '
    · subst hspace
      rw [escapeSpaces, if_pos rfl, clean, List.dropWhile_cons_of_neg (by decide),
        List.filter_cons_of_pos (by decide)]
      exact .inr rfl
    · rw [escapeSpaces, if_neg hspace]
      by_cases hcontrol : c.toNat ≤ 0x20
      · have hdrop : ∀ rest, clean (c :: rest) = clean rest := fun rest => by
          rw [clean, List.dropWhile_cons_of_pos (by exact decide_eq_true hcontrol), clean]
        rw [hdrop, hdrop]
        exact clean_escapeSpaces cs
      · have hkeep : ∀ rest, clean (c :: rest) =
            (c :: rest).filter fun c => c ≠ '\t' && c ≠ '\r' && c ≠ '\n' := fun rest => by
          rw [clean, List.dropWhile_cons_of_neg (by simpa using hcontrol)]
        have hescape : c :: escapeSpaces cs = escapeSpaces (c :: cs) := by
          rw [escapeSpaces, if_neg hspace]
        rw [hkeep, hkeep, hescape, filter_escapeSpaces (by simp)]
        exact .inl rfl

/-! ## What is refused -/

/-- A text has an authority when, without the characters in front that do not count, without tabs
and line breaks and without a scheme, it begins with two slashes.  The authority is what stands
behind them, up to a mark that ends it. -/
def HasAuthority (cs authority : List Char) : Prop :=
  ∃ rest, dropScheme (clean cs) = '/' :: '/' :: (authority ++ rest) ∧
    (∀ c ∈ authority, endsAuthority c = false) ∧ ∀ c, rest.head? = some c → endsAuthority c = true

/-- A square bracket, or a character beyond ASCII. -/
def isSuspect (c : Char) : Bool := c = '[' || c = ']' || 0x80 ≤ c.toNat

/-- An authority without brackets, of ASCII, is not refused. -/
theorem checkAuthority_eq_ok (h : ∀ c ∈ authority, isSuspect c = false) :
    checkAuthority authority = .ok () := by
  have hopen : '[' ∉ authority := fun hmem => absurd (h _ hmem) (by decide)
  have hclose : ']' ∉ authority := fun hmem => absurd (h _ hmem) (by decide)
  have hascii : (authority.any fun c => c.toNat ∈ compatibilityMarks) = false := by
    have hbeyond : ∀ n ∈ compatibilityMarks, 0x80 ≤ n := by decide
    rw [List.any_eq_false]
    intro c hc hmark
    have hsuspect := h c hc
    have hle : 0x80 ≤ c.toNat := hbeyond _ (of_decide_eq_true hmark)
    rw [isSuspect, decide_eq_true hle, Bool.or_true] at hsuspect
    nomatch hsuspect
  simp only [checkAuthority, checkBrackets, decide_eq_false hopen, decide_eq_false hclose,
    checkCharacters, hascii]
  rfl

/-- Where there is an authority to look at, the text begins with two slashes. -/
theorem exists_of_mem_splitAuthority {c : Char} (h : c ∈ (splitAuthority cs).1) :
    ∃ rest, cs = '/' :: '/' :: rest ∧ c ∈ rest.takeWhile fun d => !endsAuthority d := by
  rw [splitAuthority.eq_def] at h
  split at h
  · next rest => exact ⟨rest, rfl, h⟩
  · exact absurd h List.not_mem_nil

theorem hasAuthority_takeWhile {rest : List Char}
    (h : dropScheme (clean cs) = '/' :: '/' :: rest) :
    HasAuthority cs (rest.takeWhile fun c => !endsAuthority c) := by
  refine ⟨rest.dropWhile fun c => !endsAuthority c, ?_, fun c hc => ?_, fun c hc => ?_⟩
  · rw [h, List.takeWhile_append_dropWhile]
  · simpa using List.all_eq_true.mp List.all_takeWhile c hc
  · simpa using head?_dropWhile hc

theorem dropScheme_of_percent (h : cs.head? = some '%') : dropScheme cs = cs := by
  refine dropScheme_eq_self fun scheme rest hscheme heq => ?_
  cases scheme with
  | nil => nomatch hscheme
  | cons c scheme =>
    rw [heq] at h
    obtain rfl : c = '%' := Option.some_inj.mp h
    exact notMem_of_isScheme (by decide) hscheme List.mem_cons_self

/-- **Only an authority is refused**, and only one with a bracket or a character beyond ASCII. -/
theorem exists_authority_of_error {fault : Fault} (h : pathOf (escapeSpaces cs) = .error fault) :
    ∃ authority, HasAuthority cs authority ∧ ∃ c ∈ authority, isSuspect c = true := by
  have hsuspect : ∃ c ∈ (splitAuthority (dropScheme (clean (escapeSpaces cs)))).1,
      isSuspect c = true := by
    by_contra hnone
    have hok := checkAuthority_eq_ok fun c hc => by
      rw [← Bool.not_eq_true]
      exact fun hc' => hnone ⟨c, hc, hc'⟩
    simp only [pathOf, hok] at h
    nomatch h
  obtain ⟨c, hc, hsuspect⟩ := hsuspect
  obtain ⟨rest, hrest, hc⟩ := exists_of_mem_splitAuthority hc
  rcases clean_escapeSpaces cs with hclean | hpercent
  · rw [hclean, dropScheme_escapeSpaces] at hrest
    obtain ⟨rest, hcs, rfl⟩ :=
      exists_of_escapeSpaces_eq_append (show '%' ∉ ['/', '/'] by decide) hrest
    refine ⟨_, hasAuthority_takeWhile hcs, c, ?_, hsuspect⟩
    -- what is suspect is no part of an escape
    rw [takeWhile_escapeSpaces (by simp [endsAuthority])] at hc
    rcases mem_of_mem_escapeSpaces hc with ⟨hmem, -⟩ | hescape
    · exact hmem
    · have hplain : ∀ d ∈ ['%', '2', '0'], isSuspect d = false := by simp [isSuspect]
      rw [hplain c hescape] at hsuspect
      nomatch hsuspect
  · rw [dropScheme_of_percent hpercent] at hrest
    rw [hrest] at hpercent
    nomatch hpercent

/-! ## Whole URIs -/

theorem path_append (hmark : mark = '#' ∨ mark = '?') (uri text : String) :
    path (uri ++ String.singleton mark ++ text) = path uri := by
  have hspace : mark ≠ ' ' := by rcases hmark with rfl | rfl <;> decide
  have hescaped : escapeSpaces (uri ++ String.singleton mark ++ text).toList =
      escapeSpaces uri.toList ++ mark :: escapeSpaces text.toList := by
    rw [String.toList_append, String.toList_append, escapeSpaces_append, escapeSpaces_append,
      String.toList_singleton, escapeSpaces, if_neg hspace, List.append_assoc]
    rfl
  rw [path, path, hescaped, pathOf_append hmark]

theorem path_escaped (uri : String) : path (escaped uri) = path uri := by
  rw [path, path, escaped, String.toList_ofList, escapeSpaces_escapeSpaces]

/-- **The path of a URI keeps its outcome.**  With a fragment or a query behind it, whatever text
they hold, and with its spaces escaped beforehand, a URI has the same path, or is refused for the
same reason.  And every URI has a path, unless it has an authority in which there is a square
bracket or a character beyond ASCII. -/
theorem path_keeps_its_outcome (uri text : String) :
    path (uri ++ "#" ++ text) = path uri ∧ path (uri ++ "?" ++ text) = path uri ∧
      path (escaped uri) = path uri ∧
      ((∃ decoded, path uri = .ok decoded) ∨
        ∃ fault authority, path uri = .error fault ∧ HasAuthority uri.toList authority ∧
          ∃ c ∈ authority, c = '[' ∨ c = ']' ∨ 0x80 ≤ c.toNat) := by
  refine ⟨path_append (.inl rfl) uri text, path_append (.inr rfl) uri text, path_escaped uri, ?_⟩
  cases hpath : pathOf (escapeSpaces uri.toList) with
  | ok decoded => exact .inl ⟨String.ofList decoded, by rw [path, hpath]; rfl⟩
  | error fault =>
    obtain ⟨authority, hauthority, c, hc, hsuspect⟩ := exists_authority_of_error hpath
    refine .inr ⟨fault, authority, by rw [path, hpath]; rfl, hauthority, c, hc, ?_⟩
    simpa [isSuspect, or_assoc] using hsuspect

/-- A host in brackets that is no address is refused, and behind a space it is no host. -/
example :
    path "file://[zz]/a b#c" = .error (.address "zz") ∧
      path " file://[zz]/a b#c" = .ok " file://[zz]/a b" := by
  decide +kernel

end Uri

end SymbolRecord
