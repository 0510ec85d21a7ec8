import SymbolRecord.CommandLine.Invocation
import SymbolRecord.Config
import SymbolRecord.Home
import SymbolRecord.Validation
/-!
# The program

The program is a function from a world, which is a file tree with a working directory, the homes of
users and the mixin types that can be referred to, to what it writes, how it exits, and the file
tree it leaves behind.  A file is written only when the whole of its new content is known.

* `World`: what the program finds.
* `Escape`, `Exit`: how it can end.
* `Outcome`: what it leaves behind.
* `Coder.normalize`: the normal form of a content.
* `World.run`: the program.
-/

namespace SymbolRecord

/-- What the program finds. -/
structure World where
  /-- The files. -/
  tree : FileTree
  /-- The working directory. -/
  directory : Path
  /-- Where users are at home. -/
  homes : Homes
  /-- The mixin types that can be referred to. -/
  catalogue : Catalogue

/-- A failure that the program does not report. -/
inductive Escape where
  /-- An argument that is not used as a path. -/
  | path (fault : PathFault)
  /-- A failure of the configuration. -/
  | config (escape : ConfigEscape)
  /-- A failure of code behind a mixin type. -/
  | run (failure : Failure)
  deriving DecidableEq

/-- How the program exits. -/
inductive Exit where
  /-- With a code. -/
  | code (n : Nat)
  /-- Because of its arguments. -/
  | usage (error : UsageError)
  /-- By a failure that it does not report. -/
  | escaped (escape : Escape)
  deriving DecidableEq

/-- The words for a failure that the program does not report, if there are any. -/
def Escape.message? : Escape → Option String
  | .path fault => some fault.message
  | .config escape => escape.message?
  | .run failure => failure.message?

namespace Exit

/-- The status that the program hands to its caller. -/
def status : Exit → UInt32
  | .code n => UInt32.ofNat n
  | .usage .help => 0
  | .usage (.unusable ..) => 2
  | .escaped _ => 1

/-- The last words of the program, if its exit has any. -/
def lastWords? : Exit → Option String
  | .code _ => none
  | .usage error => some error.line
  | .escaped escape => escape.message?

end Exit

/-- What the program leaves behind. -/
structure Outcome where
  /-- How it exits. -/
  exit : Exit
  /-- What it wrote as its output. -/
  stdout : Bytes
  /-- What it wrote as messages. -/
  stderr : String
  /-- The files. -/
  tree : FileTree

namespace Coder

variable [Wording]

/-- The normal form of a content with one record to a line.  What reading registers is in force for
writing. -/
def normalizeLines (coder : Coder) (content : Bytes) : Run Bytes :=
  let run := coder.decodeLines content
  run.andThen (coder.absorb run.events).encodeLines

/-- The normal form of a content that is one document; it ends with a line feed. -/
def normalizeDocument (coder : Coder) (content : Bytes) : Run Bytes :=
  let run := coder.decodeDocument content
  (run.andThen (coder.absorb run.events).encodeDocument).andThen fun bytes => .ok (bytes ++ [0x0A])

/-- The normal form of the content of a file. -/
def normalize (coder : Coder) (path : Path) (content : Bytes) : Run Bytes :=
  if Verdict.isLines path then coder.normalizeLines content else coder.normalizeDocument content

end Coder

/-! ## Messages -/

/-- A line of text. -/
def messageLine (s : String) : String := s ++ "\n"

/-- The line for an event. -/
def Event.line : Event → String
  | .log logger message => messageLine ("DEBUG " ++ logger ++ ": " ++ message)
  | .register _ => ""

/-- The lines for events, if they are shown. -/
def shownEvents (verbose : Bool) (events : List Event) : String :=
  if verbose then String.join (events.map Event.line) else ""

namespace World

/-- The path that a text names. -/
def pathOf (world : World) (s : String) : Except PathFault Path := Path.named world.homes s

/-- The absolute path that a text stands for. -/
def locate (world : World) (s : String) : Except PathFault Path :=
  (world.pathOf s).map world.directory.resolve

/-- The directory of the configuration. -/
def locateRoot (world : World) : Option String → Except PathFault Path
  | some s => world.locate s
  | none => .error .unnamed

/-- An exit that changes no file. -/
def exit (world : World) (exit : Exit) (stdout : Bytes) (stderr : String) : Outcome :=
  ⟨exit, stdout, stderr, world.tree⟩

/-- The exit for an error that is reported behind earlier messages. -/
def exitError (world : World) (stderr message : String) : Outcome :=
  world.exit (.code 1) [] (stderr ++ messageLine ("error: " ++ message))

/-- The exit for a failure of the configuration. -/
def exitConfig (world : World) (failure : ConfigFailure) : Outcome :=
  match failure with
  | .error error => world.exit (.code 2) [] (messageLine ("config: " ++ error.message))
  | .escape escape => world.exit (.escaped (.config escape)) [] ""

/-- The exit for an argument that is not used as a path. -/
def exitPath (world : World) (stderr : String) (fault : PathFault) : Outcome :=
  world.exit (.escaped (.path fault)) [] stderr

/-- The exit for a failed run. -/
def exitFailure (world : World) (stderr : String) (failure : Failure) : Outcome :=
  match failure with
  | .decode error => world.exitError stderr error.message
  | .encode error => world.exitError stderr error.message
  | failure => world.exit (.escaped (.run failure)) [] stderr

/-! ## Configuration -/

/-- Why there are no settings. -/
inductive SetupFailure where
  /-- The configuration file cannot be looked up. -/
  | file (error : FileError)
  /-- The configuration is at fault. -/
  | config (failure : ConfigFailure)

/-- The exit for missing settings. -/
def exitSetup (world : World) : SetupFailure → Outcome
  | .file error => world.exitError "" error.message
  | .config failure => world.exitConfig failure

/-- The content of a configuration file, if it is a file. -/
def configContent? : Option FileNode → Option Bytes
  | some (.file content) => some content
  | _ => none

variable [Wording]

/-- The settings of a directory and the mixin types they name. -/
def configure (world : World) (root : Path) : Except SetupFailure (Config × List MixinType) :=
  let path := root.child Config.filename
  match world.tree.lookUp world.directory path with
  | .error error => .error (.file error)
  | .ok node? =>
    match Config.load path.text (configContent? node?) with
    | .error failure => .error (.config failure)
    | .ok config =>
      match config.mixinTypes world.catalogue with
      | .error failure => .error (.config failure)
      | .ok types => .ok (config, types)

/-- A coder on which mixin types are registered, and what registering them noted. -/
def coderOf (indent : Bool) (types : List MixinType) : Coder × Run Unit :=
  (Coder.new indent).register (types.map Registration.type)

/-! ## Commands -/

/-- The line for a remark. -/
def remarkLine (label : String) (remark : Remark) : String :=
  messageLine (remark.location ++ label ++ remark.message)

/-- The messages of a verdict: the warnings, then the errors. -/
def verdictLines (verdict : Verdict) : String :=
  String.join (verdict.warnings.map (remarkLine ": warning: "))
    ++ String.join (verdict.errors.map (remarkLine ": "))

/-- Validates what stands at a path. -/
def validateAt (world : World) (registry : Registry) (strict : Bool) (path : Path) :
    Except FileError (Run Verdict) :=
  (world.tree.lookUp world.directory path).map (Verdict.ofFile registry strict path)

/-- Reports a verdict behind earlier messages. -/
def reportVerdict (world : World) (stderr : String) (verdict : Verdict) : Outcome :=
  let stderr := stderr ++ verdictLines verdict
  if verdict.ok then
    world.exit (.code 0) (Utf8.encode (toString verdict.count ++ " symbols OK\n").toList) stderr
  else world.exit (.code 1) [] stderr

/-- Validates a file. -/
def runValidate (world : World) (verbose : Bool) (config : Config) (types : List MixinType)
    (path : String) (strict : Bool) : Outcome :=
  let (coder, registering) := coderOf config.indent types
  let stderr := shownEvents verbose registering.events
  match world.locate path with
  | .error fault => world.exitPath stderr fault
  | .ok file =>
    match world.validateAt coder.snapshot (strict || config.strict) file with
    | .error error => world.exitError stderr error.message
    | .ok run =>
      let stderr := stderr ++ shownEvents verbose run.events
      match run.outcome with
      | .error failure => world.exitFailure stderr failure
      | .ok verdict => world.reportVerdict stderr verdict

/-- Hands out the normal form of a file, as output or as the content of a file. -/
def deliver (world : World) (stderr : String) (target : Target) (content : Bytes) : Outcome :=
  match target with
  | .output => world.exit (.code 0) content stderr
  | .unnamed => world.exitPath stderr .unnamed
  | .file out =>
    match world.pathOf out with
    | .error fault => world.exitPath stderr fault
    | .ok path =>
      match world.tree.write world.directory path content with
      | .ok tree => ⟨.code 0, [], stderr, tree⟩
      | .error error => world.exitError stderr error.message

/-- Puts a file into its normal form, and delivers that. -/
def runNormalize (world : World) (verbose : Bool) (config : Config) (types : List MixinType)
    (path : String) (target : Target) (indent : Bool) : Outcome :=
  let (coder, registering) := coderOf (indent || config.indent) types
  let stderr := shownEvents verbose registering.events
  match world.locate path with
  | .error fault => world.exitPath stderr fault
  | .ok file =>
    match world.tree.read world.directory file with
    | .error error => world.exitError stderr error.message
    | .ok content =>
      let run := coder.normalize file content
      let stderr := stderr ++ shownEvents verbose run.events
      match run.outcome with
      | .error failure => world.exitFailure stderr failure
      | .ok bytes => world.deliver stderr target bytes

/-- The line for a token. -/
def kindLine (token : String) : String :=
  let kind := KindIdentifier.parse token
  messageLine (token ++ "\t" ++ kind.token ++ "\t" ++ if kind.isCustom then "custom" else "known")

/-- Carries out a command; the directory of the configuration is given. -/
def carryOut (world : World) (verbose : Bool) (root : Path) : Command → Outcome
  | .kind tokens =>
    world.exit (.code 0) (Utf8.encode (String.join (tokens.map kindLine)).toList) ""
  | .validate path strict =>
    match world.configure root with
    | .error failure => world.exitSetup failure
    | .ok (config, types) => world.runValidate verbose config types path strict
  | .normalize path target indent =>
    match world.configure root with
    | .error failure => world.exitSetup failure
    | .ok (config, types) => world.runNormalize verbose config types path target indent

/-- Runs the program with arguments. -/
def run (world : World) (arguments : List String) : Outcome :=
  match Invocation.parse arguments with
  | .error error => world.exit (.usage error) [] ""
  | .ok invocation =>
    match world.locateRoot invocation.root? with
    | .error fault => world.exitPath "" fault
    | .ok root => world.carryOut invocation.verbose root invocation.command

end World

end SymbolRecord
