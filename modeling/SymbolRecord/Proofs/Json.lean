import SymbolRecord.Json.Document
import SymbolRecord.Proofs.Token
import SymbolRecord.Proofs.Utf8
/-!
# Written documents are read back

The bytes of a value that may be written are read as that value, in either layout.  Reading puts
the value together from its tokens; the invariant is that the tokens of a value, read where a value
is awaited, place that value into the innermost open frame.

* `Json.check_list`, `Json.check_object`: when a list or an object may be written.
* `Json.check_sortKeys`: whether a value may be written does not depend on the order of its keys.
* `Json.assemble_tokens`: the tokens of a value place it.
* `Json.parse?_document`: written documents are read back.
-/

namespace SymbolRecord

namespace Json

/-! ## What may be written -/

theorem checkItems_ok_iff {depth : Nat} {items : List Value} :
    checkItems depth items = .ok () ↔ ∀ v ∈ items, check depth v = .ok () := by
  induction items with
  | nil => exact ⟨fun _ _ hmem => absurd hmem List.not_mem_nil, fun _ => rfl⟩
  | cons item rest ih =>
    rw [checkItems, List.forall_mem_cons, ← ih]
    cases check depth item with
    | error e => simp
    | ok u => exact ⟨fun h => ⟨rfl, h⟩, fun h => h.2⟩

theorem checkEntries_ok_iff {depth : Nat} {entries : Entries Value} :
    checkEntries depth entries = .ok () ↔ ∀ entry ∈ entries, check depth entry.2 = .ok () := by
  induction entries with
  | nil => exact ⟨fun _ _ hmem => absurd hmem List.not_mem_nil, fun _ => rfl⟩
  | cons entry rest ih =>
    rw [checkEntries, List.forall_mem_cons, ← ih]
    cases check depth entry.2 with
    | error e => simp
    | ok u => exact ⟨fun h => ⟨rfl, h⟩, fun h => h.2⟩

theorem check_list {depth : Nat} {items : List Value} :
    check depth (.list items) = .ok () ↔
      depth < writtenNestingLimit ∧ ∀ v ∈ items, check (depth + 1) v = .ok () := by
  rw [check]
  split
  · next h => rw [checkItems_ok_iff, and_iff_right h]
  · next h => exact ⟨fun heq => absurd heq (by simp), fun heq => absurd heq.1 h⟩

theorem check_object {depth : Nat} {entries : Entries Value} :
    check depth (.object entries) = .ok () ↔
      depth < writtenNestingLimit ∧ ∀ entry ∈ entries, check (depth + 1) entry.2 = .ok () := by
  rw [check]
  split
  · next h => rw [checkEntries_ok_iff, and_iff_right h]
  · next h => exact ⟨fun heq => absurd heq (by simp), fun heq => absurd heq.1 h⟩

/-- Whether a value may be written does not depend on the order of its keys. -/
theorem check_sortKeys (v : Value) :
    ∀ depth, check depth (sortKeys v) = .ok () ↔ check depth v = .ok () := by
  induction v using Value.ind with
  | leaf v hv =>
    intro depth
    rw [sortKeys_leaf hv]
  | list items ih =>
    intro depth
    rw [sortKeys_list, check_list, check_list, List.forall_mem_map]
    exact and_congr_right fun _ => forall₂_congr fun v hv => ih v hv (depth + 1)
  | object entries ih =>
    intro depth
    rw [sortKeys_object, check_object, check_object]
    refine and_congr_right fun _ => ?_
    have hperm := Entries.sorted_perm (Entries.mapValues sortKeys entries)
    constructor
    · intro h entry hentry
      have hmem : (entry.1, sortKeys entry.2) ∈
          Entries.sorted (Entries.mapValues sortKeys entries) :=
        hperm.mem_iff.mpr (List.mem_map.mpr ⟨entry, hentry, rfl⟩)
      exact (ih entry hentry (depth + 1)).mp (h _ hmem)
    · intro h entry hentry
      obtain ⟨e, he, rfl⟩ := List.mem_map.mp (hperm.mem_iff.mp hentry)
      exact (ih e he (depth + 1)).mpr (h e he)

/-- What may be written can be spelled, as far as its doubles can. -/
theorem spelled_of_check {v : Value} :
    ∀ {depth : Nat}, check depth v = .ok () → ∀ u, u.Within v →
      (∀ x, u = .float x → Spelled (.float x)) → Spelled u := by
  induction v using Value.ind with
  | leaf v hv =>
    intro depth h u hu hfloat
    rw [(Value.within_leaf hv).mp hu]
    cases v with
    | int n =>
      rw [check] at h
      split at h
      · next hn => exact hn
      · exact absurd h (by simp)
    | float x => exact hfloat x ((Value.within_leaf hv).mp hu)
    | foreign type spelling => exact absurd h (by simp [check])
    | list => exact absurd hv (by simp [Value.isLeaf])
    | object => exact absurd hv (by simp [Value.isLeaf])
    | _ => trivial
  | list items ih =>
    intro depth h u hu hfloat
    rcases Value.within_list.mp hu with rfl | ⟨v, hv, huv⟩
    · trivial
    · exact ih v hv ((check_list.mp h).2 v hv) u huv hfloat
  | object entries ih =>
    intro depth h u hu hfloat
    rcases Value.within_object.mp hu with rfl | ⟨entry, hentry, huv⟩
    · trivial
    · exact ih entry hentry ((check_object.mp h).2 entry hentry) u huv hfloat

/-! ## Tokens to values -/

theorem assemble_advance {frames frames' : List Frame} {expected expected' : Expected}
    {token : Token} (h : advance? frames expected token = some (frames', expected'))
    (rest : List Token) :
    assemble frames expected (token :: rest) = assemble frames' expected' rest := by
  rw [assemble, h]

/-- The first item of a list is read like any other value. -/
theorem assemble_firstItem (v : Value) (frames : List Frame) (rest : List Token) :
    assemble frames .firstItem (tokens v ++ rest) = assemble frames .value (tokens v ++ rest) := by
  have hstep : ∀ token more, advance? frames .firstItem token = advance? frames .value token →
      assemble frames .firstItem (token :: more) = assemble frames .value (token :: more) := by
    intro token more h
    rw [assemble, assemble, h]
  cases v with
  | list items => cases items <;> exact hstep _ _ rfl
  | object entries => cases entries <;> exact hstep _ _ rfl
  | _ => exact hstep _ _ rfl

/-- The tokens of a value place it into the innermost open frame. -/
def Assembles (v : Value) : Prop :=
  ∀ (frames : List Frame) (rest : List Token), check frames.length v = .ok () →
    assemble frames .value (tokens v ++ rest) = assemble (place v frames).1 (place v frames).2 rest

theorem assemble_itemTokens {frames : List Frame} (rest : List Token) :
    ∀ {items : List Value} (before : List Value),
      (∀ v ∈ items, Assembles v ∧ check (frames.length + 1) v = .ok ()) →
      assemble (.list before :: frames) .separator (itemTokens items ++ .closeList :: rest) =
        assemble (place (.list (before.reverse ++ items)) frames).1
          (place (.list (before.reverse ++ items)) frames).2 rest
  | [], before, _ => by
    rw [itemTokens, List.nil_append, List.append_nil]
    exact assemble_advance rfl rest
  | item :: items, before, h => by
    obtain ⟨hitem, hcheck⟩ := h item List.mem_cons_self
    have htail := assemble_itemTokens rest (item :: before)
      fun v hv => h v (List.mem_cons_of_mem _ hv)
    rw [itemTokens, List.cons_append, assemble_advance rfl, List.append_assoc,
      hitem (.list before :: frames) _ hcheck]
    refine htail.trans ?_
    rw [List.reverse_cons, List.append_assoc, List.singleton_append]

theorem assemble_entryTokens {frames : List Frame} (rest : List Token) :
    ∀ {entries before : Entries Value} (last : String),
      (∀ entry ∈ entries, Assembles entry.2 ∧ check (frames.length + 1) entry.2 = .ok ()) →
      (Entries.keys (before ++ entries)).Nodup →
      assemble (.object before last :: frames) .separator
          (entryTokens entries ++ .closeObject :: rest) =
        assemble (place (.object (before ++ entries)) frames).1
          (place (.object (before ++ entries)) frames).2 rest
  | [], before, last, _, _ => by
    rw [entryTokens, List.nil_append, List.append_nil]
    exact assemble_advance rfl rest
  | (key, item) :: entries, before, last, h, hnodup => by
    obtain ⟨hitem, hcheck⟩ := h (key, item) List.mem_cons_self
    have hkey : key ∉ Entries.keys before := by
      rw [Entries.keys_append, List.nodup_append] at hnodup
      exact fun hmem => hnodup.2.2 key hmem key List.mem_cons_self rfl
    have hput : Entries.put before key item = before ++ [(key, item)] :=
      Entries.put_of_notMem hkey item
    have happend : before ++ (key, item) :: entries = (before ++ [(key, item)]) ++ entries := by
      rw [List.append_assoc, List.singleton_append]
    rw [happend] at hnodup ⊢
    have htail := assemble_entryTokens rest key
      (fun entry hentry => h entry (List.mem_cons_of_mem _ hentry)) hnodup
    rw [entryTokens, List.cons_append, List.cons_append, List.cons_append, assemble_advance rfl,
      assemble_advance rfl, assemble_advance rfl, List.append_assoc,
      hitem (.object before key :: frames) _ hcheck]
    show assemble (.object (Entries.put before key item) key :: frames) .separator _ = _
    rw [hput]
    exact htail

theorem assembles_list {items : List Value} (h : ∀ v ∈ items, Assembles v) :
    Assembles (.list items) := by
  intro frames rest hcheck
  obtain ⟨hdepth, hitems⟩ := check_list.mp hcheck
  have hopen : advance? frames .value .openList = some (.list [] :: frames, .firstItem) :=
    if_pos (Nat.lt_trans hdepth (by decide))
  cases items with
  | nil =>
    have htokens : tokens (.list []) ++ rest = .openList :: .closeList :: rest := rfl
    rw [htokens, assemble_advance hopen]
    exact assemble_advance rfl rest
  | cons item items =>
    have htail := assemble_itemTokens rest [item] fun v hv =>
      ⟨h v (List.mem_cons_of_mem _ hv), hitems v (List.mem_cons_of_mem _ hv)⟩
    rw [tokens, List.cons_append, assemble_advance hopen, List.append_assoc, List.append_assoc,
      assemble_firstItem,
      h item List.mem_cons_self (.list [] :: frames) _ (hitems item List.mem_cons_self)]
    exact htail

theorem assembles_object {entries : Entries Value} (hnodup : (Entries.keys entries).Nodup)
    (h : ∀ entry ∈ entries, Assembles entry.2) : Assembles (.object entries) := by
  intro frames rest hcheck
  obtain ⟨hdepth, hentries⟩ := check_object.mp hcheck
  have hopen : advance? frames .value .openObject = some (frames, .firstKey) :=
    if_pos (Nat.lt_trans hdepth (by decide))
  cases entries with
  | nil =>
    have htokens : tokens (.object []) ++ rest = .openObject :: .closeObject :: rest := rfl
    rw [htokens, assemble_advance hopen]
    exact assemble_advance rfl rest
  | cons entry entries =>
    obtain ⟨key, item⟩ := entry
    have htail := @assemble_entryTokens frames rest entries [(key, item)] key (fun e he =>
      ⟨h e (List.mem_cons_of_mem _ he), hentries e (List.mem_cons_of_mem _ he)⟩) hnodup
    rw [tokens, List.cons_append, List.cons_append, List.cons_append, assemble_advance hopen,
      assemble_advance rfl, assemble_advance rfl, List.append_assoc, List.append_assoc,
      h (key, item) List.mem_cons_self (.object [] key :: frames) _
        (hentries (key, item) List.mem_cons_self)]
    exact htail

/-- **The tokens of a value that may be written place that value.**  By induction on the value; the
number of open frames is the depth at which the value may be written. -/
theorem assemble_tokens {v : Value} (hv : v.Proper) : Assembles v := by
  induction v using Value.ind with
  | leaf v hleaf =>
    intro frames rest _
    cases v with
    | list => exact absurd hleaf (by simp [Value.isLeaf])
    | object => exact absurd hleaf (by simp [Value.isLeaf])
    | _ => exact assemble_advance rfl rest
  | list items ih => exact assembles_list fun v h => ih v h (Value.proper_list.mp hv v h)
  | object entries ih =>
    obtain ⟨hnodup, hproper⟩ := Value.proper_object.mp hv
    exact assembles_object hnodup fun entry hentry => ih entry hentry (hproper entry hentry)

/-! ## Documents -/

theorem document_eq_ok_iff {layout : Layout} {v : Value} {bytes : Bytes} :
    document layout v = .ok bytes ↔
      check 0 v = .ok () ∧ bytes = Utf8.encode (write layout 0 v) := by
  rw [document]
  cases check 0 v with
  | error e => simp
  | ok u => simpa using eq_comm

/-- **A written document is read back**, also with white space behind it.  Doubles are read back if
their texts are. -/
theorem parse?_document {layout : Layout} {v : Value} {bytes : Bytes}
    (h : document layout v = .ok bytes) (hproper : v.Proper)
    (hdoubles : ∀ x, (Value.float x).Within v → Spelled (.float x)) {spaces : List Char}
    (hspaces : ∀ c ∈ spaces, isSpace c = true) :
    parse? (bytes ++ Utf8.encode spaces) = some v := by
  obtain ⟨hcheck, rfl⟩ := document_eq_ok_iff.mp h
  have hspelled : ∀ u, u.Within v → Spelled u := fun u hu =>
    spelled_of_check hcheck u hu fun x hx => hdoubles x (hx ▸ hu)
  have hscan := Token.scan_write layout hspelled 0 (boundary_spaces hspaces)
  have hend : Token.scan .between spaces = some [] := by
    have hsilent := Token.scan_spaces hspaces []
    rwa [List.append_nil] at hsilent
  have hassemble := assemble_tokens hproper [] [] hcheck
  rw [List.append_nil] at hassemble
  rw [parse?, ← Utf8.encode_append, Utf8.decode?_encode, Option.bind_some, parseText?, hscan, hend,
    Option.map_some, Option.bind_some, List.append_nil, hassemble]
  rfl

end Json

end SymbolRecord
