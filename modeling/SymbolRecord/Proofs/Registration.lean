import SymbolRecord.Coder
/-!
# What registering leaves behind

A caller registers mixin types and descriptors in any number of calls, under any keys, and may
register a key again.  What is left is a table with one descriptor under each key, and the last
one registered under a key is the one it holds.  The table also remembers in which order its keys
came up, so two histories with the same last descriptors need not leave the same table; what they
leave is looked up alike.

A call that meets a type without a key fails there: what stands in front of that type is
registered, and the rest of the call is not.

* `Registration.accepted`: the descriptors that one call registers.
* `Registration.last?`: the last descriptor that a sequence of calls registers under a key.
* `Registration.descriptor?_type_eq_ok`: what is registered for a type.
* `Coder.fst_register`, `Coder.get?_registerAll`: what one call and a sequence of calls leave.
-/

namespace SymbolRecord

namespace Registration

/-- The descriptors that one call registers: those in front of the first type without a key. -/
def accepted : List Registration → List Descriptor
  | [] => []
  | registration :: rest =>
    match registration.descriptor? with
    | .error _ => []
    | .ok first => first :: accepted rest

theorem exists_of_mem_accepted {descriptor : Descriptor} :
    ∀ {call : List Registration}, descriptor ∈ accepted call →
      ∃ registration ∈ call, registration.descriptor? = .ok descriptor
  | [], h => absurd h List.not_mem_nil
  | registration :: rest, h => by
    rw [accepted] at h
    cases hfirst : registration.descriptor? with
    | error failure =>
      rw [hfirst] at h
      exact absurd h List.not_mem_nil
    | ok first =>
      rw [hfirst] at h
      rcases List.mem_cons.mp h with rfl | hrest
      · exact ⟨registration, List.mem_cons_self, hfirst⟩
      · obtain ⟨other, hother, hdescriptor⟩ := exists_of_mem_accepted hrest
        exact ⟨other, List.mem_cons_of_mem _ hother, hdescriptor⟩

/-- The descriptor that is registered for a type stands under the key of the type. -/
theorem descriptor?_type_eq_ok {type : MixinType} {descriptor : Descriptor}
    (h : (Registration.type type).descriptor? = .ok descriptor) :
    type.key? = some descriptor.key ∧ descriptor = type.descriptor descriptor.key := by
  rw [descriptor?] at h
  cases hkey : type.key? with
  | none =>
    rw [hkey] at h
    nomatch h
  | some key =>
    rw [hkey] at h
    obtain rfl := Except.ok.inj h
    exact ⟨rfl, rfl⟩

/-- The last of the given descriptors that has a key. -/
def lastOf? (descriptors : List Descriptor) (key : String) : Option Descriptor :=
  descriptors.reverse.find? fun descriptor => descriptor.key = key

theorem lastOf?_cons (descriptor : Descriptor) (rest : List Descriptor) (key : String) :
    lastOf? (descriptor :: rest) key =
      (lastOf? rest key).or (if descriptor.key = key then some descriptor else none) := by
  simp only [lastOf?, List.reverse_cons, List.find?_append, List.find?_singleton, decide_eq_true_eq]

/-- The last descriptor that a sequence of calls registers under a key. -/
def last? (calls : List (List Registration)) (key : String) : Option Descriptor :=
  lastOf? (calls.flatMap accepted) key

/-- It is one that was accepted, and has the key. -/
theorem mem_of_last?_eq_some {calls : List (List Registration)} {key : String}
    {descriptor : Descriptor} (h : last? calls key = some descriptor) :
    descriptor.key = key ∧ ∃ call ∈ calls, descriptor ∈ accepted call := by
  have hkey := List.find?_some h
  have hmem := List.mem_reverse.mp (List.mem_of_find?_eq_some h)
  exact ⟨of_decide_eq_true hkey, List.mem_flatMap.mp hmem⟩

/-- There is none exactly when no accepted descriptor has the key. -/
theorem last?_eq_none_iff {calls : List (List Registration)} {key : String} :
    last? calls key = none ↔ key ∉ (calls.flatMap accepted).map Descriptor.key := by
  simp [last?, lastOf?]

end Registration

namespace Coder

/-- Makes one call after another; a call that fails does not keep the next one from being made. -/
def registerAll (coder : Coder) (calls : List (List Registration)) : Coder :=
  calls.foldl (fun coder call => (coder.register call).1) coder

/-- One call registers what it accepts, one after another. -/
theorem fst_register : ∀ (registrations : List Registration) (coder : Coder),
    (coder.register registrations).1 = (Registration.accepted registrations).foldl add coder
  | [], _ => rfl
  | registration :: rest, coder => by
    rw [register, Registration.accepted]
    cases registration.descriptor? with
    | error failure => rfl
    | ok descriptor => exact fst_register rest (coder.add descriptor)

/-- A sequence of calls registers all that its calls accept. -/
theorem registerAll_eq (calls : List (List Registration)) (coder : Coder) :
    coder.registerAll calls = (calls.flatMap Registration.accepted).foldl add coder := by
  simp only [registerAll, fst_register, List.foldl_flatMap]

/-- Of what is registered under a key, the last stays; where nothing is, what was there stays. -/
theorem get?_foldl_add (key : String) : ∀ (descriptors : List Descriptor) (coder : Coder),
    (descriptors.foldl add coder).registered.get? key =
      (Registration.lastOf? descriptors key).or (coder.registered.get? key)
  | [], _ => rfl
  | descriptor :: rest, coder => by
    rw [List.foldl_cons, get?_foldl_add key rest, Registration.lastOf?_cons,
      Option.or_assoc, add, Table.get?_put]
    split
    · rfl
    · rfl

/-- **A coder holds under each key the last descriptor that was registered there.** -/
theorem get?_registerAll (indent : Bool) (calls : List (List Registration)) (key : String) :
    ((new indent).registerAll calls).registered.get? key =
      Registration.last? calls key := by
  rw [registerAll_eq, get?_foldl_add, new, Table.get?_empty, Option.or_none, Registration.last?]

end Coder

end SymbolRecord
