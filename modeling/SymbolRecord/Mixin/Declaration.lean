import SymbolRecord.Record.Naming
/-!
# Declarations and function signatures

The declaration of a symbol is a list of fragments.  The signature of a function lists its
parameters and the fragments of its return type; a parameter that is itself a function has
parameters of its own, to any depth in memory and to a limited depth in a record that is read.  The
signature that a parameter stands in counts as one level.

* `DeclarationFragments`: the mixin; its payload is the list of fragments.
* `FunctionParameter`: the tree of a parameter, with `FunctionParameter.codecWithin`, which reads a
  tree of at most the given height.
* `FunctionSignature`: the mixin.
-/

namespace SymbolRecord

/-- The declaration of a symbol. -/
structure DeclarationFragments where
  /-- Its fragments. -/
  fragments : List DeclarationFragment
  deriving DecidableEq

namespace DeclarationFragments

/-- Declarations. -/
def codec : Codec DeclarationFragments :=
  .bare "fragments" DeclarationFragment.codec.listOf mk fragments

/-- The text of the declaration. -/
def text (declaration : DeclarationFragments) : String :=
  String.join (declaration.fragments.map DeclarationFragment.spelling)

end DeclarationFragments

/-- A parameter of a function, with the parameters of a parameter that is a function. -/
structure FunctionParameter where
  /-- The name that callers use. -/
  name : String
  /-- The name inside the function. -/
  internalName : Option String
  /-- The fragments of its declaration. -/
  declarationFragments : Option (List DeclarationFragment)
  /-- Its own parameters. -/
  children : Option (List FunctionParameter)

namespace FunctionParameter

/-! ## Equality -/

mutual

/-- Decides whether two parameters are the same. -/
def same : FunctionParameter → FunctionParameter → Bool
  | ⟨n, i, d, cs⟩, ⟨n', i', d', cs'⟩ => n == n' && i == i' && d == d' && sameChildren cs cs'

/-- Decides whether two parameters have the same children. -/
def sameChildren : Option (List FunctionParameter) → Option (List FunctionParameter) → Bool
  | none, none => true
  | some ps, some qs => sameAll ps qs
  | _, _ => false

/-- Decides whether two lists of parameters are the same. -/
def sameAll : List FunctionParameter → List FunctionParameter → Bool
  | [], [] => true
  | p :: ps, q :: qs => same p q && sameAll ps qs
  | _, _ => false

end

mutual

theorem same_eq : ∀ p q : FunctionParameter, same p q = true → p = q
  | ⟨n, i, d, cs⟩, ⟨n', i', d', cs'⟩, h => by
    simp only [same, Bool.and_eq_true, beq_iff_eq] at h
    obtain ⟨⟨⟨rfl, rfl⟩, rfl⟩, h⟩ := h
    rw [sameChildren_eq cs cs' h]

theorem sameChildren_eq : ∀ cs cs' : Option (List FunctionParameter),
    sameChildren cs cs' = true → cs = cs'
  | none, cs', h => by cases cs' <;> simp_all [sameChildren]
  | some ps, cs', h => by
    cases cs' with
    | none => simp [sameChildren] at h
    | some qs => rw [sameAll_eq ps qs (by simpa [sameChildren] using h)]

theorem sameAll_eq : ∀ ps qs : List FunctionParameter, sameAll ps qs = true → ps = qs
  | [], qs, h => by cases qs <;> simp_all [sameAll]
  | p :: ps, qs, h => by
    cases qs with
    | nil => simp [sameAll] at h
    | cons q qs =>
      simp only [sameAll, Bool.and_eq_true] at h
      rw [same_eq p q h.1, sameAll_eq ps qs h.2]

end

mutual

theorem same_self : ∀ p : FunctionParameter, same p p = true
  | ⟨_, _, _, cs⟩ => by simp [same, sameChildren_self cs]

theorem sameChildren_self : ∀ cs : Option (List FunctionParameter), sameChildren cs cs = true
  | none => rfl
  | some ps => by rw [sameChildren]; exact sameAll_self ps

theorem sameAll_self : ∀ ps : List FunctionParameter, sameAll ps ps = true
  | [] => rfl
  | p :: ps => by rw [sameAll, same_self p, sameAll_self ps]; rfl

end

instance : DecidableEq FunctionParameter := fun p q =>
  if h : same p q = true then isTrue (same_eq p q h)
  else isFalse fun he => h (he ▸ same_self p)

/-! ## Reading and writing -/

/-- The slot of the internal name. -/
def internalNameSlot : Slot := ⟨"internalName", "internal_name"⟩

/-- The slot of the declaration. -/
def fragmentsSlot : Slot := ⟨"declarationFragments", "declaration_fragments"⟩

/-- The codec of the declaration of a parameter. -/
def fragmentsCodec : Codec (Option (List DeclarationFragment)) :=
  DeclarationFragment.codec.listOf.optional

mutual

/-- The wire form of a parameter. -/
def wire : FunctionParameter → Value
  | ⟨name, internalName, declarationFragments, children⟩ =>
    .object (Fields.written (.same "name") (.text name)
      ++ Fields.written internalNameSlot (Value.ofText? internalName)
      ++ Fields.written fragmentsSlot (fragmentsCodec.wire declarationFragments)
      ++ Fields.written (.same "children") (wireChildren children))

/-- The wire form of the children of a parameter. -/
def wireChildren : Option (List FunctionParameter) → Value
  | none => .null
  | some ps => .list (wireAll ps)

/-- The wire forms of a list of parameters. -/
def wireAll : List FunctionParameter → List Value
  | [] => []
  | p :: ps => wire p :: wireAll ps

end

mutual

/-- All fields of a parameter. -/
def fields : FunctionParameter → Value
  | ⟨name, internalName, declarationFragments, children⟩ =>
    .object [("name", .text name), (internalNameSlot.name, Value.ofText? internalName),
      (fragmentsSlot.name, fragmentsCodec.fields declarationFragments),
      ("children", fieldsOfChildren children)]

/-- All fields of the children of a parameter. -/
def fieldsOfChildren : Option (List FunctionParameter) → Value
  | none => .null
  | some ps => .list (fieldsOfAll ps)

/-- All fields of each of a list of parameters. -/
def fieldsOfAll : List FunctionParameter → List Value
  | [] => []
  | p :: ps => fields p :: fieldsOfAll ps

end

/-- The fields of a parameter whose children have a given codec. -/
def description (child : Codec FunctionParameter) : Fields FunctionParameter FunctionParameter :=
  Fields.start mk
    |>.required (.same "name") Codec.text name
    |>.optional internalNameSlot Codec.text internalName
    |>.optional fragmentsSlot DeclarationFragment.codec.listOf declarationFragments
    |>.optional (.same "children") child.listOf children

/-- Reads a parameter tree of at most a given height. -/
def readWithin : Nat → Value → Reading FunctionParameter
  | 0, v => .fail .depth v
  | height + 1, v =>
    ((description ⟨readWithin height, wire, fields⟩).codec "FunctionParameter").read v

/-- Parameter trees that are read up to a given height. -/
def codecWithin (height : Nat) : Codec FunctionParameter := ⟨readWithin height, wire, fields⟩

/-- The greatest height of a parameter tree that is read. -/
def heightLimit : Nat := 255

/-- Parameters that stand by themselves. -/
def codec : Codec FunctionParameter := codecWithin heightLimit

/-- Parameters of a signature, which is one level itself. -/
def codecInSignature : Codec FunctionParameter := codecWithin (heightLimit - 1)

end FunctionParameter

/-- The signature of a function. -/
structure FunctionSignature where
  /-- Its parameters. -/
  parameters : List FunctionParameter
  /-- The fragments of its return type. -/
  returns : List DeclarationFragment
  deriving DecidableEq

namespace FunctionSignature

/-- Signatures. -/
def codec : Codec FunctionSignature :=
  (Fields.start mk
    |>.list (.same "parameters") FunctionParameter.codecInSignature parameters
    |>.list (.same "returns") DeclarationFragment.codec returns).codec "FunctionSignature"

end FunctionSignature

end SymbolRecord
