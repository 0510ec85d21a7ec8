import SymbolRecord.Entries
import SymbolRecord.Number.Double
/-!
# Values

A record file is JSON and a configuration file is TOML; both are read into one type of dynamic
values.  Integers have any size and stay apart from doubles, objects keep the order of their keys,
and a value that JSON cannot spell, such as a date, is kept as a foreign value with its type.

* `Value`: the values.
* `Value.typeName`: the word that error messages use for a value's type.
* `Value.get?`: the value under a key of an object.
-/

namespace SymbolRecord

/-- A dynamic value. -/
inductive Value where
  /-- The absent value. -/
  | null
  /-- A truth value. -/
  | bool (b : Bool)
  /-- An integer of any size. -/
  | int (n : Int)
  /-- A binary64 number. -/
  | float (x : Double)
  /-- A text. -/
  | text (s : String)
  /-- A list of values. -/
  | list (items : List Value)
  /-- An object, as pairs in the order of insertion. -/
  | object (entries : List (String × Value))
  /-- A value without a JSON form: the name of its type and its spelling. -/
  | foreign (type spelling : String)
  deriving Inhabited

namespace Value

mutual

/-- Decides whether two values are the same. -/
def same : Value → Value → Bool
  | .null, .null => true
  | .bool a, .bool b => a == b
  | .int a, .int b => a == b
  | .float a, .float b => a == b
  | .text a, .text b => a == b
  | .list a, .list b => sameItems a b
  | .object a, .object b => sameEntries a b
  | .foreign a b, .foreign c d => a == c && b == d
  | _, _ => false

/-- Decides whether two lists of values are the same. -/
def sameItems : List Value → List Value → Bool
  | [], [] => true
  | a :: as, b :: bs => same a b && sameItems as bs
  | _, _ => false

/-- Decides whether two lists of keyed values are the same. -/
def sameEntries : List (String × Value) → List (String × Value) → Bool
  | [], [] => true
  | (k, a) :: as, (l, b) :: bs => k == l && same a b && sameEntries as bs
  | _, _ => false

end

mutual

theorem same_eq : ∀ a b : Value, same a b = true → a = b
  | .null, b, h => by cases b <;> simp_all [same]
  | .bool _, b, h => by cases b <;> simp_all [same]
  | .int _, b, h => by cases b <;> simp_all [same]
  | .float _, b, h => by cases b <;> simp_all [same]
  | .text _, b, h => by cases b <;> simp_all [same]
  | .list as, b, h => by
    cases b with
    | list bs => rw [sameItems_eq as bs (by simpa [same] using h)]
    | _ => simp [same] at h
  | .object as, b, h => by
    cases b with
    | object bs => rw [sameEntries_eq as bs (by simpa [same] using h)]
    | _ => simp [same] at h
  | .foreign _ _, b, h => by cases b <;> simp_all [same]

theorem sameItems_eq : ∀ as bs : List Value, sameItems as bs = true → as = bs
  | [], bs, h => by cases bs <;> simp_all [sameItems]
  | a :: as, bs, h => by
    cases bs with
    | nil => simp [sameItems] at h
    | cons b bs =>
      simp only [sameItems, Bool.and_eq_true] at h
      rw [same_eq a b h.1, sameItems_eq as bs h.2]

theorem sameEntries_eq : ∀ as bs : List (String × Value), sameEntries as bs = true → as = bs
  | [], bs, h => by cases bs <;> simp_all [sameEntries]
  | (k, a) :: as, bs, h => by
    cases bs with
    | nil => simp [sameEntries] at h
    | cons b bs =>
      obtain ⟨l, b⟩ := b
      simp only [sameEntries, Bool.and_eq_true, beq_iff_eq] at h
      rw [h.1.1, same_eq a b h.1.2, sameEntries_eq as bs h.2]

end

mutual

theorem same_self : ∀ a : Value, same a a = true
  | .null => rfl
  | .bool _ => by simp [same]
  | .int _ => by simp [same]
  | .float _ => by simp [same]
  | .text _ => by simp [same]
  | .list as => by rw [same]; exact sameItems_self as
  | .object as => by rw [same]; exact sameEntries_self as
  | .foreign _ _ => by simp [same]

theorem sameItems_self : ∀ as : List Value, sameItems as as = true
  | [] => rfl
  | a :: as => by rw [sameItems, same_self a, sameItems_self as]; rfl

theorem sameEntries_self : ∀ as : List (String × Value), sameEntries as as = true
  | [] => rfl
  | (k, a) :: as => by simp [sameEntries, same_self a, sameEntries_self as]

end

instance : DecidableEq Value := fun a b =>
  if h : same a b = true then isTrue (same_eq a b h)
  else isFalse fun he => h (he ▸ same_self a)

/-- The word for the type of a value in messages. -/
def typeName : Value → String
  | .null => "NoneType"
  | .bool _ => "bool"
  | .int _ => "int"
  | .float _ => "float"
  | .text _ => "str"
  | .list _ => "list"
  | .object _ => "dict"
  | .foreign type _ => type

/-- Whether a value is absent. -/
def isNull : Value → Bool
  | .null => true
  | _ => false

/-- The value under a key, when the value is an object that has it. -/
def get? : Value → String → Option Value
  | .object entries, key => Entries.get? entries key
  | _, _ => none

/-- A text, or the absent value. -/
def ofText? : Option String → Value
  | some s => .text s
  | none => .null

end Value

end SymbolRecord
