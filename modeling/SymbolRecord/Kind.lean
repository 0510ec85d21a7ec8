import SymbolRecord.Codec
/-!
# Symbol kinds

A record names its kind by a token, either bare, as in `func`, or with a language in front, as in
`swift.func`.  Both spellings of a well-known kind are the same kind; a token that names no
well-known kind is kept verbatim as a kind of its own.

Some tokens have a full stop of their own, such as `type.method`.  So a token is first looked up as
it stands, and only then without its first part.

* `KnownKind`: the well-known kinds, with `KnownKind.token` and `KnownKind.ofToken?`.
* `KindIdentifier`: the token of any kind, with `KindIdentifier.parse`.
* `Kind`: the kind of a record, with its display name.
* `KnownKind.ofToken?_eq_some_iff`: looking up a token inverts `KnownKind.token`.
-/

namespace SymbolRecord

/-- The well-known kinds of symbols. -/
inductive KnownKind where
  | associatedType | classType | deinitializer | enumType | enumCase | function | operator
  | initializer | instanceVariable | macroDecl | method | property | protocol | snippet
  | snippetGroup | structType | subscript | typeMethod | typeProperty | typeSubscript | typeAlias
  | variable | module | extension
  deriving DecidableEq

namespace KnownKind

/-- The well-known kinds in their customary order. -/
def all : List KnownKind :=
  [.associatedType, .classType, .deinitializer, .enumType, .enumCase, .function, .operator,
    .initializer, .instanceVariable, .macroDecl, .method, .property, .protocol, .snippet,
    .snippetGroup, .structType, .subscript, .typeMethod, .typeProperty, .typeSubscript,
    .typeAlias, .variable, .module, .extension]

/-- The token of a well-known kind, without a language. -/
def token : KnownKind → String
  | .associatedType => "associatedtype"
  | .classType => "class"
  | .deinitializer => "deinit"
  | .enumType => "enum"
  | .enumCase => "enum.case"
  | .function => "func"
  | .operator => "func.op"
  | .initializer => "init"
  | .instanceVariable => "ivar"
  | .macroDecl => "macro"
  | .method => "method"
  | .property => "property"
  | .protocol => "protocol"
  | .snippet => "snippet"
  | .snippetGroup => "snippetGroup"
  | .structType => "struct"
  | .subscript => "subscript"
  | .typeMethod => "type.method"
  | .typeProperty => "type.property"
  | .typeSubscript => "type.subscript"
  | .typeAlias => "typealias"
  | .variable => "var"
  | .module => "module"
  | .extension => "extension"

/-- The well-known kind with a given token. -/
def ofToken? (s : String) : Option KnownKind := all.find? fun kind => kind.token = s

/-- A token determines its kind. -/
theorem token_injective {a b : KnownKind} (h : a.token = b.token) : a = b := by
  revert h
  cases a <;> cases b <;> decide

@[simp] theorem ofToken?_token (kind : KnownKind) : ofToken? kind.token = some kind := by
  cases kind <;> decide

/-- Looking up a token inverts `token`. -/
theorem ofToken?_eq_some_iff {s : String} {kind : KnownKind} :
    ofToken? s = some kind ↔ s = kind.token := by
  constructor
  · intro h
    have := List.find?_some h
    simpa using (of_decide_eq_true this).symm
  · rintro rfl
    exact ofToken?_token kind

end KnownKind

/-- The identifier of a kind: its token, without a language for the well-known kinds. -/
structure KindIdentifier where
  /-- The token. -/
  token : String
  deriving DecidableEq

namespace KindIdentifier

/-- The text behind the first full stop of a token, if it has one. -/
def remainder? (raw : String) : Option String :=
  match raw.toList.dropWhile (· ≠ '.') with
  | [] => none
  | _ :: rest => some (String.ofList rest)

/-- The well-known kind that a token names, as it stands or without its first part. -/
def known? (raw : String) : Option KnownKind :=
  match KnownKind.ofToken? raw with
  | some kind => some kind
  | none => (remainder? raw).bind KnownKind.ofToken?

/-- The identifier of a well-known kind. -/
def ofKnown (kind : KnownKind) : KindIdentifier := ⟨kind.token⟩

/-- The kind that a token names; a token that names no well-known kind is kept as it is. -/
def parse (raw : String) : KindIdentifier :=
  match known? raw with
  | some kind => ofKnown kind
  | none => ⟨raw⟩

/-- Whether a token names a well-known kind, with or without a language. -/
def isKnown (raw : String) : Bool := (known? raw).isSome

/-- Whether the identifier is not the token of a well-known kind. -/
def isCustom (kind : KindIdentifier) : Bool := (KnownKind.ofToken? kind.token).isNone

/-- Reads a kind.  What is no text is at fault both as a kind and as a token. -/
def read : Value → Reading KindIdentifier
  | .text raw => .accepted (parse raw)
  | v =>
    .rejected
      ⟨[.key "is-instance[KindIdentifier]"], .instanceOf "KindIdentifier", v.typeName⟩
      [⟨[.key "chain[str,function-plain[parse()]]"], .text, v.typeName⟩]

/-- Kind identifiers. -/
def codec : Codec KindIdentifier := .scalar read fun kind => .text kind.token

end KindIdentifier

/-- The kind of a symbol together with its name for readers. -/
structure Kind where
  /-- Which kind it is. -/
  identifier : KindIdentifier
  /-- Its name for readers. -/
  displayName : String
  deriving DecidableEq

namespace Kind

/-- Kinds. -/
def codec : Codec Kind :=
  (Fields.start mk
    |>.required (.same "identifier") KindIdentifier.codec identifier
    |>.defaulted ⟨"displayName", "display_name"⟩ Codec.text "" displayName).codec "Kind"

end Kind

end SymbolRecord
