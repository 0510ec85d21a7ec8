import SymbolRecord.Proofs.Number
import SymbolRecord.Proofs.Value
/-!
# Tokens are read back

A text is cut into tokens one character at a time, so the tokens of a text followed by another are
those of the first and then those of the second, as long as the second does not go on with the
word or number that the first one ends with.

* `Token.scan_cons`: one step of the machine.
* `Json.Boundary`: a text that does not go on with a word or number.
* `Token.scan_quoted`, `Token.scan_number`, `Token.scan_word`: the text of each kind of token.
* `Json.tokens`, `Token.scan_write`: the tokens of a written value.
-/

namespace SymbolRecord

namespace Json

/-- A text that does not go on with a word or number. -/
def Boundary (cs : List Char) : Prop :=
  ∀ c, cs.head? = some c → isLetter c = false ∧ isNumeric c = false

theorem boundary_nil : Boundary [] := fun _ h => nomatch h

theorem boundary_cons {c : Char} (rest : List Char) (hletter : isLetter c = false)
    (hnumeric : isNumeric c = false) : Boundary (c :: rest) := by
  intro d hd
  rw [← Option.some_inj.mp hd]
  exact ⟨hletter, hnumeric⟩

theorem boundary_spaces {spaces : List Char} (h : ∀ c ∈ spaces, isSpace c = true) :
    Boundary spaces := by
  cases spaces with
  | nil => exact boundary_nil
  | cons c rest =>
    have hc := h c List.mem_cons_self
    simp only [isSpace, Bool.or_eq_true, decide_eq_true_eq] at hc
    rcases hc with ((rfl | rfl) | rfl) | rfl
    · exact boundary_cons rest rfl rfl
    · exact boundary_cons rest rfl rfl
    · exact boundary_cons rest rfl rfl
    · exact boundary_cons rest rfl rfl

namespace Token

/-! ## Steps -/

/-- One step of the machine, and the rest of the text. -/
theorem scan_cons (mode : Mode) (c : Char) (rest : List Char) :
    scan mode (c :: rest) =
      (mode.step? c).bind fun result => (scan result.2 rest).map (result.1 ++ ·) := by
  rw [scan]
  cases mode.step? c with
  | none => rfl
  | some result =>
    obtain ⟨tokens, next⟩ := result
    cases tokens with
    | nil => simp
    | cons => rfl

/-- A character that completes nothing. -/
theorem scan_silent {mode next : Mode} {c : Char} (h : mode.step? c = some ([], next))
    (rest : List Char) : scan mode (c :: rest) = scan next rest := by
  rw [scan_cons, h, Option.bind_some]
  simp

/-- A character that completes a token. -/
theorem scan_emit {mode next : Mode} {c : Char} {token : Token}
    (h : mode.step? c = some ([token], next)) (rest : List Char) :
    scan mode (c :: rest) = (scan next rest).map (token :: ·) := by
  rw [scan_cons, h, Option.bind_some]
  rfl

/-- White space between tokens is passed over. -/
theorem scan_spaces {spaces : List Char} (h : ∀ c ∈ spaces, isSpace c = true) (rest : List Char) :
    scan .between (spaces ++ rest) = scan .between rest := by
  induction spaces with
  | nil => rfl
  | cons c spaces ih =>
    have hstep : Mode.between.step? c = some ([], .between) := if_pos (h c List.mem_cons_self)
    rw [List.cons_append, scan_silent hstep, ih fun d hd => h d (List.mem_cons_of_mem c hd)]

/-! ## Words and numbers -/

/-- A word or number is finished by what does not go on with it. -/
theorem scan_of_finish {mode : Mode} {token : Token} {rest : List Char}
    (hfinish : mode.finish? = some [token])
    (hstep : ∀ c, rest.head? = some c →
      mode.step? c = (begin? c).map fun result => (token :: result.1, result.2)) :
    scan mode rest = (scan .between rest).map (token :: ·) := by
  cases rest with
  | nil => exact hfinish
  | cons c rest =>
    have hbetween : Mode.between.step? c = begin? c := rfl
    rw [scan_cons, scan_cons, hstep c rfl, hbetween]
    cases begin? c with
    | none => rfl
    | some result =>
      rw [Option.map_some, Option.bind_some, Option.bind_some, Option.map_map]
      rfl

theorem scan_word_boundary {read rest : List Char} {token : Token} (hword : word? read = some token)
    (hrest : Boundary rest) :
    scan (.word read) rest = (scan .between rest).map (token :: ·) := by
  have hfinish : (Mode.word read).finish? = some [token] := by
    rw [Mode.finish?, hword]
    rfl
  refine scan_of_finish hfinish fun c hc => ?_
  simp only [Mode.step?, (hrest c hc).1, hfinish]
  cases begin? c with
  | none => rfl
  | some _ => rfl

theorem scan_number_boundary {read rest : List Char} {v : Value}
    (hread : NumberLiteral.read? read.reverse = some v) (hrest : Boundary rest) :
    scan (.number read) rest = (scan .between rest).map (.scalar v :: ·) := by
  have hfinish : (Mode.number read).finish? = some [.scalar v] := by
    rw [Mode.finish?, hread]
    rfl
  refine scan_of_finish hfinish fun c hc => ?_
  simp only [Mode.step?, (hrest c hc).2, hfinish]
  cases begin? c with
  | none => rfl
  | some _ => rfl

theorem scan_numeric {cs : List Char} (h : ∀ c ∈ cs, isNumeric c = true) (rest : List Char) :
    ∀ read : List Char,
      scan (.number read) (cs ++ rest) = scan (.number (cs.reverse ++ read)) rest := by
  induction cs with
  | nil => exact fun _ => rfl
  | cons c cs ih =>
    intro read
    have hstep : (Mode.number read).step? c = some ([], .number (c :: read)) := by
      simp only [Mode.step?, h c List.mem_cons_self, if_true]
    rw [List.cons_append, scan_silent hstep, ih fun d hd => h d (List.mem_cons_of_mem c hd),
      List.reverse_cons, List.append_assoc, List.singleton_append]

/-- A character of a number that is no letter begins a number. -/
theorem begin?_numeric {c : Char} (hnumeric : isNumeric c = true) (hletter : isLetter c = false) :
    begin? c = some ([], .number [c]) := by
  have hne : ∀ d, isNumeric d = false → c ≠ d := by
    rintro d hd rfl
    rw [hnumeric] at hd
    exact absurd hd (by simp)
  have hspace : isSpace c = false := by
    simp only [isSpace, hne ' ' (by decide), hne '\t' (by decide), hne '\n' (by decide),
      hne '\r' (by decide), decide_false, Bool.or_self]
  simp only [begin?, hspace, hne '"' (by decide), hne '[' (by decide), hne ']' (by decide),
    hne '\x7b' (by decide), hne '\x7d' (by decide), hne ',' (by decide), hne ':' (by decide),
    hletter, hnumeric, if_true, if_false, Bool.false_eq_true]

/-- A number literal is one token. -/
theorem scan_number {cs rest : List Char} {v : Value} (hread : NumberLiteral.read? cs = some v)
    (hrest : Boundary rest) :
    scan .between (cs ++ rest) = (scan .between rest).map (.scalar v :: ·) := by
  obtain ⟨p, hparts, -⟩ := Option.bind_eq_some_iff.mp hread
  obtain ⟨hnumeric, hletter⟩ := NumberLiteral.isNumeric_of_parts? hparts
  cases cs with
  | nil =>
    have hnone : NumberLiteral.read? [] = none := rfl
    exact absurd (hnone.symm.trans hread) (by simp)
  | cons c cs =>
    have hstep : Mode.between.step? c = some ([], .number [c]) :=
      begin?_numeric (hnumeric c List.mem_cons_self) (hletter c rfl)
    rw [List.cons_append, scan_silent hstep,
      scan_numeric fun d hd => hnumeric d (List.mem_cons_of_mem c hd)]
    refine scan_number_boundary ?_ hrest
    rw [List.reverse_append, List.reverse_reverse]
    exact hread

theorem scan_true {rest : List Char} (hrest : Boundary rest) :
    scan .between (['t', 'r', 'u', 'e'] ++ rest) =
      (scan .between rest).map (.scalar (.bool true) :: ·) := by
  have h : scan .between (['t', 'r', 'u', 'e'] ++ rest) = scan (.word ['e', 'u', 'r', 't']) rest :=
    rfl
  rw [h, scan_word_boundary rfl hrest]

theorem scan_false {rest : List Char} (hrest : Boundary rest) :
    scan .between (['f', 'a', 'l', 's', 'e'] ++ rest) =
      (scan .between rest).map (.scalar (.bool false) :: ·) := by
  have h : scan .between (['f', 'a', 'l', 's', 'e'] ++ rest) =
      scan (.word ['e', 's', 'l', 'a', 'f']) rest := rfl
  rw [h, scan_word_boundary rfl hrest]

theorem scan_null {rest : List Char} (hrest : Boundary rest) :
    scan .between (['n', 'u', 'l', 'l'] ++ rest) =
      (scan .between rest).map (.scalar .null :: ·) := by
  have h : scan .between (['n', 'u', 'l', 'l'] ++ rest) =
      scan (.word ['l', 'l', 'u', 'n']) rest := rfl
  rw [h, scan_word_boundary rfl hrest]

/-! ## Text literals -/

theorem hexValue?_hexDigit : ∀ n < 16, hexValue? (hexDigit n) = some n := by decide

theorem step?_code {missing : Nat} (hmissing : 2 ≤ missing) {n : Nat} (hn : n < 16)
    (read : List Char) (high? : Option Nat) (value : Nat) :
    (Mode.code read high? missing value).step? (hexDigit n) =
      some ([], .code read high? (missing - 1) (16 * value + n)) := by
  simp only [Mode.step?, hexValue?_hexDigit n hn, Option.bind_eq_bind, Option.bind_some,
    if_neg (show ¬ missing ≤ 1 by omega)]

theorem finishCode?_of_lt {value : Nat} (h : value < 0xD800) (read : List Char) :
    finishCode? read none value = some (.text (Char.ofNat value :: read)) := by
  unfold finishCode?
  simp only
  rw [if_neg (by omega), if_neg (by omega)]

theorem step?_lastCode {n value : Nat} (hn : n < 16) (hvalue : 16 * value + n < 0xD800)
    (read : List Char) :
    (Mode.code read none 1 value).step? (hexDigit n) =
      some ([], .text (Char.ofNat (16 * value + n) :: read)) := by
  simp only [Mode.step?, hexValue?_hexDigit n hn, Option.bind_eq_bind, Option.bind_some,
    Nat.le_refl, if_true, finishCode?_of_lt hvalue]

/-- The escape of a control character is read as that character. -/
theorem scan_control {n : Nat} (hn : n < 0x20) (read rest : List Char) :
    scan (.text read)
        ('\\' :: 'u' :: '0' :: '0' :: hexDigit (n / 16) :: hexDigit (n % 16) :: rest) =
      scan (.text (Char.ofNat n :: read)) rest := by
  have hbegun : scan (.text read)
      ('\\' :: 'u' :: '0' :: '0' :: hexDigit (n / 16) :: hexDigit (n % 16) :: rest) =
      scan (.code read none 2 0) (hexDigit (n / 16) :: hexDigit (n % 16) :: rest) := rfl
  rw [hbegun, scan_silent (step?_code (Nat.le_refl 2) (by omega) read none 0),
    scan_silent (step?_lastCode (by omega) (by omega) read)]
  have hvalue : 16 * (16 * 0 + n / 16) + n % 16 = n := by omega
  rw [hvalue]

theorem char_eq_of_toNat {c : Char} {n : Nat} (h : c.toNat = n) : c = Char.ofNat n := by
  rw [← h, Char.ofNat_toNat]

/-- The written form of a character inside a text literal is read as that character. -/
theorem scan_escaped (c : Char) (read rest : List Char) :
    scan (.text read) (escaped c ++ rest) = scan (.text (c :: read)) rest := by
  unfold escaped
  split
  · next h => rw [h]; rfl
  · split
    · next h => rw [h]; rfl
    · split
      · next h => rw [char_eq_of_toNat h]; rfl
      · split
        · next h => rw [char_eq_of_toNat h]; rfl
        · split
          · next h => rw [char_eq_of_toNat h]; rfl
          · split
            · next h => rw [char_eq_of_toNat h]; rfl
            · split
              · next h => rw [char_eq_of_toNat h]; rfl
              · split
                · next h =>
                  have hcontrol := scan_control h read rest
                  rwa [Char.ofNat_toNat] at hcontrol
                · next hquote hbackslash _ _ _ _ _ hcontrol =>
                  have hstep : (Mode.text read).step? c = some ([], .text (c :: read)) := by
                    simp only [Mode.step?, hquote, hbackslash, hcontrol, if_false]
                  exact scan_silent hstep rest

theorem scan_flatMap_escaped (rest : List Char) :
    ∀ (cs read : List Char),
      scan (.text read) (cs.flatMap escaped ++ rest) = scan (.text (cs.reverse ++ read)) rest
  | [], _ => rfl
  | c :: cs, read => by
    rw [List.flatMap_cons, List.append_assoc, scan_escaped, scan_flatMap_escaped rest cs,
      List.reverse_cons, List.append_assoc, List.singleton_append]

/-- A text literal is one token. -/
theorem scan_quoted (s : String) (rest : List Char) :
    scan .between (quoted s ++ rest) = (scan .between rest).map (.text s :: ·) := by
  have hopen : Mode.between.step? '"' = some ([], .text []) := rfl
  rw [quoted, List.cons_append, scan_silent hopen, List.append_assoc, scan_flatMap_escaped,
    List.append_nil, List.singleton_append]
  have hclose : (Mode.text s.toList.reverse).step? '"' = some ([.text s], .between) := by
    simp only [Mode.step?, List.reverse_reverse, String.ofList_toList, if_true]
  exact scan_emit hclose rest

end Token

/-! ## Written values -/

mutual

/-- The tokens of a value. -/
def tokens : Value → List Token
  | .list [] => [.openList, .closeList]
  | .list (item :: rest) => .openList :: (tokens item ++ itemTokens rest ++ [.closeList])
  | .object [] => [.openObject, .closeObject]
  | .object ((key, item) :: rest) =>
    .openObject :: .text key :: .colon :: (tokens item ++ entryTokens rest ++ [.closeObject])
  | .text s => [.text s]
  | v => [.scalar v]

/-- The tokens of the further items of a list. -/
def itemTokens : List Value → List Token
  | [] => []
  | item :: rest => .comma :: (tokens item ++ itemTokens rest)

/-- The tokens of the further entries of an object. -/
def entryTokens : List (String × Value) → List Token
  | [] => []
  | (key, item) :: rest => .comma :: .text key :: .colon :: (tokens item ++ entryTokens rest)

end

/-- A value can be spelled when its integers fit 64 bits, its doubles are read back from their
texts, and nothing in it is foreign.  Only the value itself is meant and not its parts. -/
def Spelled : Value → Prop
  | .int n => NumberLiteral.inRange n = true
  | .float x => NumberLiteral.read? (writeScalar (.float x)) = some (.float x)
  | .foreign _ _ => False
  | _ => True

namespace Token

/-- The text of a value that is neither a list nor an object is one token. -/
theorem scan_writeScalar {v : Value} (hleaf : v.isLeaf = true) (hv : Spelled v)
    {rest : List Char} (hrest : Boundary rest) :
    scan .between (writeScalar v ++ rest) = (scan .between rest).map (tokens v ++ ·) := by
  cases v with
  | null => exact scan_null hrest
  | bool b =>
    cases b with
    | true => exact scan_true hrest
    | false => exact scan_false hrest
  | int n => exact scan_number (NumberLiteral.read?_write hv) hrest
  | float x => exact scan_number hv hrest
  | text s => exact scan_quoted s rest
  | list => exact absurd hleaf (by simp [Value.isLeaf])
  | object => exact absurd hleaf (by simp [Value.isLeaf])
  | foreign => exact hv.elim

theorem scan_line (layout : Layout) (level : Nat) (rest : List Char) :
    scan .between (layout.line level ++ rest) = scan .between rest := by
  refine scan_spaces (fun c hc => ?_) rest
  cases layout with
  | compact => exact absurd hc List.not_mem_nil
  | indented =>
    rcases List.mem_cons.mp hc with rfl | hc
    · rfl
    · rw [List.eq_of_mem_replicate hc]
      rfl

theorem boundary_line (layout : Layout) (level : Nat) {rest : List Char} (hrest : Boundary rest) :
    Boundary (layout.line level ++ rest) := by
  cases layout with
  | compact => exact hrest
  | indented => exact boundary_cons _ rfl rfl

theorem scan_colon (layout : Layout) (rest : List Char) :
    scan .between (layout.colon ++ rest) = (scan .between rest).map (.colon :: ·) := by
  have hcolon : Mode.between.step? ':' = some ([.colon], .between) := rfl
  cases layout with
  | compact => exact scan_emit hcolon rest
  | indented =>
    have hspace : Mode.between.step? ' ' = some ([], .between) := rfl
    have hrest : scan .between ([':', ' '] ++ rest) = (scan .between (' ' :: rest)).map _ :=
      scan_emit hcolon (' ' :: rest)
    rw [scan_silent hspace] at hrest
    exact hrest

/-- A value is read back before anything that does not go on with it. -/
def Scans (layout : Layout) (v : Value) : Prop :=
  ∀ (level : Nat) {rest : List Char}, Boundary rest →
    scan .between (write layout level v ++ rest) = (scan .between rest).map (tokens v ++ ·)

theorem boundary_writeItems (layout : Layout) (level : Nat) (items : List Value) {rest : List Char}
    (hrest : Boundary rest) : Boundary (writeItems layout level items ++ rest) := by
  cases items with
  | nil => exact hrest
  | cons => exact boundary_cons _ rfl rfl

theorem scan_writeItems {layout : Layout} (level : Nat) :
    ∀ {items : List Value}, (∀ v ∈ items, Scans layout v) → ∀ {rest : List Char}, Boundary rest →
      scan .between (writeItems layout level items ++ rest) =
        (scan .between rest).map (itemTokens items ++ ·)
  | [], _, rest, _ => by
    rw [writeItems, itemTokens, List.nil_append]
    simp
  | item :: items, h, rest, hrest => by
    have hcomma : Mode.between.step? ',' = some ([.comma], .between) := rfl
    have htail := scan_writeItems level (fun v hv => h v (List.mem_cons_of_mem _ hv)) hrest
    have hboundary := boundary_writeItems layout level items hrest
    rw [writeItems, itemTokens, List.cons_append, scan_emit hcomma, List.append_assoc,
      List.append_assoc, scan_line, h item List.mem_cons_self level hboundary, htail,
      Option.map_map, Option.map_map]
    refine congrArg (Option.map · _) ?_
    funext tokens
    simp

theorem boundary_writeEntries (layout : Layout) (level : Nat) (entries : Entries Value)
    {rest : List Char} (hrest : Boundary rest) :
    Boundary (writeEntries layout level entries ++ rest) := by
  cases entries with
  | nil => exact hrest
  | cons => exact boundary_cons _ rfl rfl

theorem scan_writeEntries {layout : Layout} (level : Nat) :
    ∀ {entries : Entries Value}, (∀ entry ∈ entries, Scans layout entry.2) →
      ∀ {rest : List Char}, Boundary rest →
      scan .between (writeEntries layout level entries ++ rest) =
        (scan .between rest).map (entryTokens entries ++ ·)
  | [], _, rest, _ => by
    rw [writeEntries, entryTokens, List.nil_append]
    simp
  | (key, item) :: entries, h, rest, hrest => by
    have hcomma : Mode.between.step? ',' = some ([.comma], .between) := rfl
    have htail := scan_writeEntries level
      (fun entry hentry => h entry (List.mem_cons_of_mem _ hentry)) hrest
    have hboundary := boundary_writeEntries layout level entries hrest
    have hitem := h (key, item) List.mem_cons_self level hboundary
    simp only [writeEntries, entryTokens, List.cons_append, List.append_assoc]
    rw [scan_emit hcomma, scan_line, scan_quoted, scan_colon, hitem, htail,
      Option.map_map, Option.map_map, Option.map_map, Option.map_map]
    refine congrArg (Option.map · _) ?_
    funext tokens
    simp

theorem scans_list {layout : Layout} {items : List Value} (h : ∀ v ∈ items, Scans layout v) :
    Scans layout (.list items) := by
  intro level rest hrest
  have hopen : Mode.between.step? '[' = some ([.openList], .between) := rfl
  have hclose : Mode.between.step? ']' = some ([.closeList], .between) := rfl
  cases items with
  | nil =>
    have hwrite : write layout level (.list []) ++ rest = '[' :: ']' :: rest := rfl
    rw [hwrite, scan_emit hopen, scan_emit hclose, Option.map_map]
    rfl
  | cons item items =>
    have hend : Boundary (layout.line level ++ ']' :: rest) :=
      boundary_line layout level (boundary_cons rest rfl rfl)
    have hfirst := h item List.mem_cons_self (level + 1)
      (boundary_writeItems layout (level + 1) items hend)
    have hothers := scan_writeItems (level + 1)
      (fun v hv => h v (List.mem_cons_of_mem _ hv)) hend
    simp only [write, tokens, List.cons_append, List.append_assoc, List.nil_append]
    rw [scan_emit hopen, scan_line, hfirst, hothers, scan_line, scan_emit hclose,
      Option.map_map, Option.map_map, Option.map_map]
    refine congrArg (Option.map · _) ?_
    funext tokens
    simp

theorem scans_object {layout : Layout} {entries : Entries Value}
    (h : ∀ entry ∈ entries, Scans layout entry.2) : Scans layout (.object entries) := by
  intro level rest hrest
  have hopen : Mode.between.step? '\x7b' = some ([.openObject], .between) := rfl
  have hclose : Mode.between.step? '\x7d' = some ([.closeObject], .between) := rfl
  cases entries with
  | nil =>
    have hwrite : write layout level (.object []) ++ rest = '\x7b' :: '\x7d' :: rest := rfl
    rw [hwrite, scan_emit hopen, scan_emit hclose, Option.map_map]
    rfl
  | cons entry entries =>
    obtain ⟨key, item⟩ := entry
    have hend : Boundary (layout.line level ++ '\x7d' :: rest) :=
      boundary_line layout level (boundary_cons rest rfl rfl)
    have hfirst := h (key, item) List.mem_cons_self (level + 1)
      (boundary_writeEntries layout (level + 1) entries hend)
    have hothers := scan_writeEntries (level + 1)
      (fun entry hentry => h entry (List.mem_cons_of_mem _ hentry)) hend
    simp only [write, tokens, List.cons_append, List.append_assoc, List.nil_append]
    rw [scan_emit hopen, scan_line, scan_quoted, scan_colon, hfirst, hothers, scan_line,
      scan_emit hclose, Option.map_map, Option.map_map, Option.map_map, Option.map_map,
      Option.map_map]
    refine congrArg (Option.map · _) ?_
    funext tokens
    simp

/-- **The tokens of a written value are those of the value.** -/
theorem scan_write (layout : Layout) {v : Value} (h : ∀ u, u.Within v → Spelled u) :
    Scans layout v := by
  induction v using Value.ind with
  | leaf v hv =>
    intro level rest hrest
    have hwrite : write layout level v = writeScalar v := by
      cases v <;> first | rfl | exact absurd hv (by simp [Value.isLeaf])
    rw [hwrite]
    exact scan_writeScalar hv (h v (.self v)) hrest
  | list items ih => exact scans_list fun v hv => ih v hv fun u hu => h u (.item hv hu)
  | object entries ih =>
    exact scans_object fun entry hentry =>
      ih entry hentry fun u hu => h u (.entry hentry hu)

end Token

end Json

end SymbolRecord
