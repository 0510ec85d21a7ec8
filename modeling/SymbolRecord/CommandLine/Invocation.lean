import SymbolRecord.CommandLine.Arguments
/-!
# Invocations

The program has three commands: one validates a file, one puts a file into its normal form, and
one shows which kinds tokens name.  Two options come before the command: the directory of the
configuration, and whether to show what decoding leaves out.

* `Target`: where the normal form of a file goes.
* `Command`, `Invocation`: what the program is asked to do.
* `Invocation.parse`: the invocation that arguments spell.
-/

namespace SymbolRecord

/-- Where the normal form of a file goes. -/
inductive Target where
  /-- To the output. -/
  | output
  /-- To a file. -/
  | file (path : String)
  /-- To a file for which a double dash was given in place of a path. -/
  | unnamed
  deriving DecidableEq

/-- What the program is asked to do. -/
inductive Command where
  /-- Validate a file, strictly if asked to. -/
  | validate (path : String) (strict : Bool)
  /-- Give the normal form of a file, indented if asked to. -/
  | normalize (path : String) (target : Target) (indent : Bool)
  /-- Show which kinds tokens name. -/
  | kind (tokens : List String)
  deriving DecidableEq

/-- A command with the options before it. -/
structure Invocation where
  /-- The directory of the configuration, unless a double dash was given for it. -/
  root? : Option String
  /-- Whether to show what decoding leaves out. -/
  verbose : Bool
  /-- The command. -/
  command : Command
  deriving DecidableEq

namespace Invocation

/-- The option that every command has. -/
def helpOption : OptionSpec := ⟨["-h", "--help"], false⟩

/-- The option for the directory of the configuration. -/
def rootOption : OptionSpec := ⟨["--root"], true⟩

/-- The option to show what decoding leaves out. -/
def verboseOption : OptionSpec := ⟨["-v", "--verbose"], false⟩

/-- The option to validate strictly. -/
def strictOption : OptionSpec := ⟨["--strict"], false⟩

/-- The option for the file to write. -/
def outOption : OptionSpec := ⟨["--out"], true⟩

/-- The option to indent. -/
def indentOption : OptionSpec := ⟨["--indent"], false⟩

/-- The program itself. -/
def program : CommandSpec :=
  ⟨"symbolgraph", [helpOption, rootOption, verboseOption], "command", .subcommand⟩

/-- The command that validates. -/
def validateSpec : CommandSpec :=
  ⟨"symbolgraph validate", [helpOption, strictOption], "path", .one⟩

/-- The command that gives the normal form. -/
def normalizeSpec : CommandSpec :=
  ⟨"symbolgraph normalize", [helpOption, outOption, indentOption], "path", .one⟩

/-- The command that shows kinds. -/
def kindSpec : CommandSpec := ⟨"symbolgraph kind", [helpOption], "tokens", .many⟩

/-- The names of the commands. -/
def commandNames : List String := ["validate", "normalize", "kind"]

/-- The target that the option for it gives. -/
def target : Option (Option String) → Target
  | none => .output
  | some (some path) => .file path
  | some none => .unnamed

/-- The error of a word that is no command. -/
def unknownCommand (name : String) : UsageError :=
  .unusable program.name ("argument command: invalid choice: " ++ Text.quote name
    ++ " (choose from " ++ String.intercalate ", " (commandNames.map Text.quote) ++ ")")

/-- Reads the arguments of a command with the word that names it, and hands back what was not
understood. -/
def parseCommand (name : String) (texts : List String) :
    Except UsageError (Command × List String) :=
  if name = "validate" then do
    let found ← validateSpec.parse texts
    let words ← validateSpec.require found
    return (.validate (words.headD "") (found.isSet strictOption.names), found.extras)
  else if name = "normalize" then do
    let found ← normalizeSpec.parse texts
    let words ← normalizeSpec.require found
    return (.normalize (words.headD "") (target (found.value? outOption.names))
      (found.isSet indentOption.names), found.extras)
  else if name = "kind" then do
    let found ← kindSpec.parse texts
    let words ← kindSpec.require found
    return (.kind words, found.extras)
  else .error (unknownCommand name)

/-- The invocation that arguments spell. -/
def parse (texts : List String) : Except UsageError Invocation := do
  let found ← program.parse texts
  let words ← program.require found
  let (command, extras) ← parseCommand (words.headD "") (words.drop 1)
  match found.extras ++ extras with
  | [] =>
    return ⟨(found.value? rootOption.names).getD (some "."), found.isSet verboseOption.names,
      command⟩
  | unknown =>
    program.unusable ("unrecognized arguments: " ++ String.intercalate " " unknown)

end Invocation

end SymbolRecord
