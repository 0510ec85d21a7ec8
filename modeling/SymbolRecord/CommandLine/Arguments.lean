import SymbolRecord.Text.Digit
import SymbolRecord.Uri.Host
/-!
# Command-line arguments

A command has options and one positional argument, which is a single word, several words, or a
subcommand with all that follows it.  Options may stand anywhere before a subcommand; a long option
may be shortened as long as it stays unambiguous, and may have its value behind an equals sign;
several short switches may be written as one word, all of which must be known.  After a double dash
every word is positional.  Negative numbers and words with spaces are positional as well.

Arguments are read in two passes.  The first says of each word what role it plays, the second goes
through the words and takes options with their values and the positional argument out of them.
What is left over is handed back.

* `OptionSpec`, `CommandSpec`: what a command understands.
* `UsageError`: what is wrong with arguments, with the words for it.
* `CommandSpec.classify`, `CommandSpec.parse`: the two passes.
-/

namespace SymbolRecord

/-- An option of a command. -/
structure OptionSpec where
  /-- Its spellings. -/
  names : List String
  /-- Whether it has a value. -/
  takesValue : Bool

/-- The words of an option in messages. -/
def OptionSpec.label (option : OptionSpec) : String := String.intercalate "/" option.names

/-- What the positional argument of a command is. -/
inductive PositionalShape where
  /-- One word. -/
  | one
  /-- One or more words. -/
  | many
  /-- A subcommand and all that follows it. -/
  | subcommand
  deriving DecidableEq

/-- What a command understands. -/
structure CommandSpec where
  /-- The name of the command in messages. -/
  name : String
  /-- Its options. -/
  options : List OptionSpec
  /-- The name of its positional argument. -/
  positional : String
  /-- What the positional argument is. -/
  shape : PositionalShape

/-- What is wrong with arguments. -/
inductive UsageError where
  /-- Nothing: help was asked for. -/
  | help
  /-- A command cannot use its arguments. -/
  | unusable (command message : String)
  deriving DecidableEq

/-- The line that is shown for an error. -/
def UsageError.line : UsageError → String
  | .unusable command message => command ++ ": error: " ++ message
  | _ => ""

/-- An option that a word spells, and what stands behind it in the same word. -/
structure OptionUse where
  /-- The option, if the command has it. -/
  option? : Option OptionSpec
  /-- The spelling of the option. -/
  spelling : String
  /-- The value in the same word. -/
  value? : Option String

/-- The role of a word. -/
inductive Role where
  /-- A positional word. -/
  | plain
  /-- The double dash that ends the options. -/
  | dashes
  /-- An option. -/
  | option (use : OptionUse)

/-- A word and its role. -/
structure Word where
  /-- The word. -/
  text : String
  /-- Its role. -/
  role : Role

/-- What the second pass has taken out of the words. -/
structure Arguments where
  /-- The options by their last spelling, with their values. -/
  settings : List (String × Option String)
  /-- The words of the positional argument, once it was found. -/
  positional? : Option (List String)
  /-- The words that were not understood. -/
  extras : List String

namespace CommandSpec

/-- The spelling of the option that asks for help. -/
def helpName : String := "--help"

/-- The option with a spelling. -/
def find? (spec : CommandSpec) (name : String) : Option OptionSpec :=
  spec.options.find? fun option => option.names.contains name

/-- An error about the arguments of a command. -/
def unusable {α : Type} (spec : CommandSpec) (message : String) : Except UsageError α :=
  .error (.unusable spec.name message)

/-! ## Roles -/

/-- Whether a text is one or more digits; a line feed may stand behind them. -/
def isDigits (cs : List Char) : Bool :=
  !(cs.takeWhile Text.isDecimalDigit).isEmpty
    && (cs.dropWhile Text.isDecimalDigit = [] || cs.dropWhile Text.isDecimalDigit = ['\n'])

/-- Whether a word is a negative number: digits of any script behind a minus sign, with a point
among or in front of them. -/
def isNegativeNumber (cs : List Char) : Bool :=
  match cs with
  | '-' :: rest =>
    isDigits rest || match rest.dropWhile Text.isDecimalDigit with
      | '.' :: fraction => isDigits fraction
      | _ => false
  | _ => false

/-- The uses of options that a word may be short for. -/
def candidates (spec : CommandSpec) (word : List Char) : List OptionUse :=
  let names := spec.options.flatMap fun option => option.names.map fun name => (name, option)
  match word with
  | '-' :: '-' :: _ =>
    let (beginning, value?) := Uri.cutFirst '=' word
    names.filterMap fun (name, option) =>
      if beginning.isPrefixOf name.toList then
        some ⟨some option, name, value?.map String.ofList⟩
      else none
  | _ =>
    names.filterMap fun (name, option) =>
      if name.toList = word.take 2 then
        some ⟨some option, name, some (String.ofList (word.drop 2))⟩
      else if word.isPrefixOf name.toList then some ⟨some option, name, none⟩
      else none

/-- The option that a word spells in full in front of an equals sign. -/
def assigned? (spec : CommandSpec) (word : List Char) : Option OptionUse :=
  match Uri.cutFirst '=' word with
  | (name, some value) =>
    (spec.find? (String.ofList name)).map fun option =>
      ⟨some option, String.ofList name, some (String.ofList value)⟩
  | (_, none) => none

/-- The role of a word before any double dash. -/
def role (spec : CommandSpec) (text : String) : Except UsageError Role :=
  let word := text.toList
  if word.head? ≠ some '-' then .ok .plain
  else
    match spec.find? text with
    | some option => .ok (.option ⟨some option, text, none⟩)
    | none =>
      if word.length = 1 then .ok .plain
      else
        match spec.assigned? word, spec.candidates word with
        | some use, _ => .ok (.option use)
        | none, [use] => .ok (.option use)
        | none, [] =>
          if isNegativeNumber word || ' ' ∈ word then .ok .plain
          else .ok (.option ⟨none, text, none⟩)
        | none, uses =>
          spec.unusable ("ambiguous option: " ++ text ++ " could match "
            ++ String.intercalate ", " (uses.map OptionUse.spelling))

/-- The words with their roles. -/
def classify (spec : CommandSpec) : List String → Except UsageError (List Word)
  | [] => .ok []
  | text :: rest =>
    if text = "--" then .ok (⟨text, .dashes⟩ :: rest.map (⟨·, .plain⟩))
    else
      match spec.role text with
      | .error error => .error error
      | .ok role => (classify spec rest).map (⟨text, role⟩ :: ·)

/-! ## Options -/

/-- The error of a switch that is given a value. -/
def ignoredValue {α : Type} (spec : CommandSpec) (option : OptionSpec) (value : String) :
    Except UsageError α :=
  spec.unusable ("argument " ++ option.label ++ ": ignored explicit argument "
    ++ Text.quote value)

/-- What a word with options comes to. -/
structure Expansion where
  /-- The settings that are complete. -/
  settings : List (String × Option String)
  /-- An option whose value, if it takes one, is behind the word. -/
  last? : Option (OptionSpec × String)

/-- The value of an option in its own word.  A double dash is no value. -/
def ownValue? (value : String) : Option String := if value = "--" then none else some value

/-- Expands the use of an option: its value in the same word, or else further short switches.  The
first argument bounds the number of switches. -/
def expand (spec : CommandSpec) : Nat → OptionSpec → OptionUse → Except UsageError Expansion
  | 0, option, use => spec.ignoredValue option (use.value?.getD "")
  | fuel + 1, option, use =>
    match use.value? with
    | none => .ok ⟨[], some (option, use.spelling)⟩
    | some value =>
      if option.takesValue then .ok ⟨[(use.spelling, ownValue? value)], none⟩
      else
        match use.spelling.toList, value.toList with
        | _ :: second :: _, first :: rest =>
          let name := String.ofList ['-', first]
          match if second = '-' then none else spec.find? name with
          | none => spec.ignoredValue option value
          | some next =>
            let rest? := if rest.isEmpty then none else some (String.ofList rest)
            (expand spec fuel next ⟨some next, name, rest?⟩).map fun inner =>
              { inner with settings := (use.spelling, none) :: inner.settings }
        | _, _ => spec.ignoredValue option value

/-- The settings of an option without a value in the same word, and the words behind it. -/
def takeBare (spec : CommandSpec) (option : OptionSpec) (spelling : String) (rest : List Word) :
    Except UsageError (List (String × Option String) × List Word) :=
  if option.takesValue then
    match rest with
    | ⟨text, .plain⟩ :: after => .ok ([(spelling, some text)], after)
    | _ => spec.unusable ("argument " ++ option.label ++ ": expected one argument")
  else .ok ([(spelling, none)], rest)

/-- What a word with an option of the command comes to, and the words behind it. -/
def takeOption (spec : CommandSpec) (option : OptionSpec) (use : OptionUse) (rest : List Word) :
    Except UsageError (Expansion × List Word) :=
  match spec.expand ((use.value?.getD "").length + 1) option use with
  | .error error => .error error
  | .ok found =>
    match found.last? with
    | none => .ok (found, rest)
    | some (last, spelling) =>
      (spec.takeBare last spelling rest).map fun (more, rest) =>
        ({ found with settings := found.settings ++ more }, rest)

/-- Whether settings ask for help. -/
def asksHelp (settings : List (String × Option String)) : Bool :=
  settings.any fun setting => setting.1 = helpName || setting.1 = "-h"

/-! ## The positional argument -/

/-- Whether a word is the double dash. -/
def isDashes (word : Word) : Bool :=
  match word.role with
  | .dashes => true
  | _ => false

/-- Whether a word is positional. -/
def isPlain (word : Word) : Bool :=
  match word.role with
  | .plain => true
  | _ => false

/-- The number of words at the beginning that make up the positional argument; none if it does not
begin there.  A double dash may stand in front. -/
def positionalLength (shape : PositionalShape) (words : List Word) : Nat :=
  let front := (words.takeWhile isDashes).length
  match words.drop front with
  | [] => 0
  | word :: rest =>
    if !isPlain word then 0
    else
      match shape with
      | .one => front + 1 + (rest.takeWhile isDashes).length
      | .many => front + 1 + (rest.takeWhile fun w => isPlain w || isDashes w).length
      | .subcommand => words.length

/-- The words of a positional argument, without the first double dash unless they begin a
subcommand. -/
def positionalTexts (shape : PositionalShape) (words : List Word) : List String :=
  let texts := words.map Word.text
  if shape = .subcommand then texts else texts.erase "--"

/-! ## The second pass -/

/-- Goes through the words; the first argument bounds their number. -/
def consume (spec : CommandSpec) : Nat → Arguments → List Word → Except UsageError Arguments
  | 0, found, _ => .ok found
  | _ + 1, found, [] => .ok found
  | fuel + 1, found, word :: rest =>
    match word.role with
    | .option use =>
      match use.option? with
      | none => consume spec fuel { found with extras := found.extras ++ [word.text] } rest
      | some option =>
        match spec.takeOption option use rest with
        | .error error => .error error
        | .ok (taken, rest) =>
          if asksHelp taken.settings then .error .help
          else
            consume spec fuel { found with settings := found.settings ++ taken.settings } rest
    | _ =>
      let length :=
        if found.positional?.isSome then 0 else positionalLength spec.shape (word :: rest)
      if length = 0 then
        consume spec fuel { found with extras := found.extras ++ [word.text] } rest
      else
        let texts := positionalTexts spec.shape ((word :: rest).take length)
        consume spec fuel { found with positional? := some texts } ((word :: rest).drop length)

/-- Reads the arguments of a command. -/
def parse (spec : CommandSpec) (texts : List String) : Except UsageError Arguments :=
  match spec.classify texts with
  | .error error => .error error
  | .ok words => spec.consume (words.length + 1) ⟨[], none, []⟩ words

/-- The words of the positional argument, which a command requires. -/
def require (spec : CommandSpec) (found : Arguments) : Except UsageError (List String) :=
  match found.positional? with
  | some texts => .ok texts
  | none => spec.unusable ("the following arguments are required: " ++ spec.positional)

end CommandSpec

namespace Arguments

/-- What an option was given last, if it was given: a value, or a double dash for none. -/
def value? (found : Arguments) (names : List String) : Option (Option String) :=
  (found.settings.reverse.find? fun setting => names.contains setting.1).map Prod.snd

/-- Whether a switch was given. -/
def isSet (found : Arguments) (names : List String) : Bool :=
  found.settings.any fun setting => names.contains setting.1

end Arguments

end SymbolRecord
