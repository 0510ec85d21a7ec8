import SymbolRecord.Symbol.Decode
import SymbolRecord.Proofs.Record
/-!
# Core fields are read back

The core fields are described in the order in which they are read and written in another order,
with the fields that may be missing at the end.  They are read from the core entries of a record
alone, so a mixin never changes them.

* `Core.wire_perm`: what is written is what the description says, in another order.
* `Symbol.readCore_of_alike`: the core fields are read back from every record that has them.
-/

namespace SymbolRecord

open Fields Json

namespace Core

/-- The keys under which core fields are sought. -/
def soughtKeys : List String :=
  ["identifier", "identifier", "kind", "kind", "pathComponents", "path_components", "type", "type",
    "names", "names", "docComment", "doc_comment", "accessLevel", "access_level"]

theorem recovers {core : Core}
    (h : KindIdentifier.parse core.kind.identifier.token = core.kind.identifier) :
    description.Recovers soughtKeys core core :=
  recovers_start Core.mk
    |>.required (Identifier.recovers _) (by decide)
    |>.required (Kind.recovers h) (by decide)
    |>.required (Codec.recovers_listOf fun _ _ => Codec.recovers_text _) (by decide)
    |>.optional (fun _ _ => Codec.recovers_text _) (by decide)
    |>.required (Names.recovers _) (by decide)
    |>.optional (fun comment _ => comment.recovers) (by decide)
    |>.required (Codec.recovers_text _) (by decide)

/-- What is written for each field, in the order of the description. -/
theorem description_wire (core : Core) :
    description.wire core =
      [("identifier", Identifier.codec.wire core.identifier), ("kind", Kind.codec.wire core.kind),
        ("pathComponents", Codec.text.listOf.wire core.pathComponents)]
      ++ (written (.same "type") (Codec.text.optional.wire core.type)
      ++ ([("names", Names.codec.wire core.names)]
      ++ (written (.same "docComment") (Comment.codec.optional.wire core.docComment)
      ++ [("accessLevel", .text core.accessLevel)]))) := by
  simp only [← List.append_assoc]
  rfl

/-- The fields are written in another order than that of their description. -/
theorem wire_perm (core : Core) : (wire core).Perm (description.wire core) := by
  rw [description_wire]
  generalize htype : written (.same "type") (Codec.text.optional.wire core.type) = typeEntries
  generalize hcomment :
    written (.same "docComment") (Comment.codec.optional.wire core.docComment) = commentEntries
  have hwire : wire core =
      [("identifier", Identifier.codec.wire core.identifier), ("kind", Kind.codec.wire core.kind),
        ("pathComponents", Codec.text.listOf.wire core.pathComponents)]
      ++ ([("names", Names.codec.wire core.names)]
      ++ ([("accessLevel", .text core.accessLevel)] ++ (typeEntries ++ commentEntries))) := by
    rw [wire, htype, hcomment]
    simp only [List.cons_append, List.nil_append]
  rw [hwire]
  refine List.Perm.append_left _ (List.Perm.trans ?_ List.perm_append_comm)
  rw [List.append_assoc]
  refine List.Perm.append_left _ ?_
  rw [List.append_assoc commentEntries, ← List.append_assoc _ typeEntries]
  exact List.perm_append_comm

theorem keys_written_sublist (slot : Slot) (v : Value) :
    (Entries.keys (written slot v)).Sublist [slot.key] := by
  unfold written
  split
  · exact List.nil_sublist _
  · exact List.Sublist.refl _

theorem keys_wire_sublist (core : Core) : (Entries.keys (wire core)).Sublist keys := by
  rw [wire, Entries.keys_append, Entries.keys_append, List.append_assoc]
  refine List.Sublist.append (List.Sublist.refl requiredKeys) ?_
  exact List.Sublist.append (keys_written_sublist (.same "type") _)
    (keys_written_sublist (.same "docComment") _)

theorem nodup_keys_wire (core : Core) : (Entries.keys (wire core)).Nodup :=
  List.Pairwise.sublist core.keys_wire_sublist (by decide : keys.Nodup)

/-- Nothing but core fields is written for core fields. -/
theorem isKey_of_mem_keys_wire {core : Core} {key : String}
    (h : key ∈ Entries.keys (wire core)) : isKey key = true :=
  decide_eq_true (core.keys_wire_sublist.mem h)

theorem plain_of_mem_written {slot : Slot} {v : Value} (hv : v.Plain) {entry : String × Value}
    (hentry : entry ∈ written slot v) : entry.2.Plain := by
  unfold written at hentry
  split at hentry
  · exact absurd hentry List.not_mem_nil
  · rw [List.mem_singleton.mp hentry]
    exact hv

theorem plain_optional {α : Type} {codec : Codec α} (h : ∀ a, (codec.wire a).Plain) :
    ∀ a? : Option α, (codec.optional.wire a?).Plain
  | none => Value.plain_of_isLeaf rfl rfl
  | some a => h a

/-- The wire forms of the core fields are plain, whatever the fields are. -/
theorem plain_of_mem_wire (core : Core) {entry : String × Value} (hentry : entry ∈ core.wire) :
    entry.2.Plain := by
  have htext : ∀ s : String, (Value.text s).Plain := fun _ => Value.plain_of_isLeaf rfl rfl
  have hkind : (Kind.codec.wire core.kind).Plain := by
    have hwire : Kind.codec.wire core.kind = .object
        [("identifier", .text core.kind.identifier.token),
          ("displayName", .text core.kind.displayName)] := rfl
    rw [hwire, Value.plain_object, List.forall_mem_cons, List.forall_mem_singleton]
    exact ⟨(by decide : ["identifier", "displayName"].Nodup), htext _, htext _⟩
  have hpath : (Codec.text.listOf.wire core.pathComponents).Plain :=
    (Codec.recovers_listOf fun _ _ => Codec.recovers_text _).plain
  rw [← core.wire_perm.symm.mem_iff, description_wire] at hentry
  simp only [List.mem_append, List.mem_cons, List.not_mem_nil, or_false] at hentry
  rcases hentry with (rfl | rfl | rfl) | htype | rfl | hcomment | rfl
  · exact (Identifier.recovers _).plain
  · exact hkind
  · exact hpath
  · exact plain_of_mem_written (plain_optional htext _) htype
  · exact (Names.recovers _).plain
  · exact plain_of_mem_written (plain_optional (fun comment => comment.recovers.plain) _) hcomment
  · exact htext _

theorem get?_wire (core : Core) (key : String) :
    Entries.get? (description.wire core) key = Entries.get? (wire core) key :=
  (Entries.get?_eq_of_perm core.nodup_keys_wire core.wire_perm key).symm

theorem get?_wire_of_not_isKey (core : Core) {key : String} (h : isKey key = false) :
    Entries.get? (wire core) key = none := by
  rw [Entries.get?_eq_none_iff]
  intro hmem
  rw [isKey_of_mem_keys_wire hmem] at h
  exact absurd h (by simp)

theorem get?_entries (record : Entries Value) (key : String) :
    Entries.get? (entries record) key =
      if isKey key then Entries.get? record key else none :=
  Entries.get?_filter isKey record key

end Core

namespace Symbol

/-- **The core fields are read back** from every record that has them, up to the order of keys
inside them, whatever else the record has. -/
theorem readCore_of_alike {core : Core}
    (hkind : KindIdentifier.parse core.kind.identifier.token = core.kind.identifier)
    {record : Entries Value}
    (h : ∀ key, Core.isKey key = true →
      (record.get? key).map sortKeys = (Entries.get? core.wire key).map sortKeys) :
    readCore record = .ok core := by
  have hread : Core.description.read (Core.entries record) = .accepted core := by
    refine (Core.recovers hkind).read _ fun key _ => ?_
    rw [Core.get?_wire, Core.get?_entries]
    cases hkey : Core.isKey key with
    | true => rw [if_pos rfl, h key hkey]
    | false =>
      rw [if_neg Bool.false_ne_true, core.get?_wire_of_not_isKey hkey]
  have hcodec : Core.codec.read (.object (Core.entries record)) = .accepted core := hread
  rw [readCore, hcodec]

end Symbol

end SymbolRecord
