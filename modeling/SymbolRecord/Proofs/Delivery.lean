import SymbolRecord.Proofs.Configuration
import SymbolRecord.Proofs.FileTree
import SymbolRecord.Proofs.Judgment
import SymbolRecord.Proofs.Normal
import SymbolRecord.Proofs.Registration
/-!
# Normalizing is all or nothing

A file is put into its normal form in stages: the configuration is read, the mixin types it names
are registered, the file is found and read, its records are decoded and written again, and only
then is anything handed out.  Each stage can end the program, and in the middle of a file with many
records as well as before it.  Whatever ends it, nothing was handed out by then, so the output is
empty and the files are what they were.  When nothing ends it, what is handed out is the normal form
of the content that was read, and that stays so when the file to write is the very file that was
read.

The normal form is stated here apart from the code that computes it, for each of the three shapes
that a content has.

* `Coder.Normalizes`, `Coder.outcome_normalize_iff`: the normal form of a content.
* `World.Normal`: the normal form of what stands at a path, under the configuration of a directory.
* `World.Delivers`: what is left behind when it is handed out.
* `World.run_normalize_cases`: each run either delivers the normal form or leaves nothing behind.
* `World.normalize_all_or_nothing`: what both come to.
-/

namespace SymbolRecord

open Json

/-! ## Normal forms -/

namespace Coder

variable {coder : Coder}

/-- A value is decoded, and its symbol is written as an object. -/
def Rewrites (coder : Coder) (v : Value) (container : Entries Value) : Prop :=
  ∃ symbol, (Symbol.decode coder.snapshot v).outcome = .ok symbol ∧
    (symbol.encode coder.snapshot).outcome = .ok container

/-- A record is rewritten as a line: compactly, with its keys in ascending order, and with a line
feed behind it. -/
def RewritesLine (coder : Coder) (record line : Bytes) : Prop :=
  ∃ v container text, parse? record = some v ∧ coder.Rewrites v container ∧
    document .compact (sortKeys (.object container)) = .ok text ∧ line = text ++ [0x0A]

/-- The normal form of a content.  Every record of it is rewritten, and they are put together as
they were: in lines, as one document, or as a list in one document. -/
inductive Normalizes (coder : Coder) (path : Path) (content : Bytes) : Bytes → Prop where
  /-- The content has one record to a line. -/
  | lines {written : List Bytes} (hpath : Verdict.isLines path = true)
      (hwritten : List.Forall₂ coder.RewritesLine content.records written) :
      Normalizes coder path content written.flatten
  /-- The content is one record. -/
  | single {record container : Entries Value} {text : Bytes}
      (hpath : Verdict.isLines path = false) (hparse : parse? content = some (.object record))
      (hrewrites : coder.Rewrites (.object record) container)
      (hwritten : document coder.layout (sortKeys (.object container)) = .ok text) :
      Normalizes coder path content (text ++ [0x0A])
  /-- The content is a list of records. -/
  | several {items : List Value} {containers : List (Entries Value)} {text : Bytes}
      (hpath : Verdict.isLines path = false) (hparse : parse? content = some (.list items))
      (hrewrites : List.Forall₂ coder.Rewrites items containers)
      (hwritten : document coder.layout (sortKeys (.list (containers.map .object))) = .ok text) :
      Normalizes coder path content (text ++ [0x0A])

variable [Wording]

theorem rewritesLine_iff {record line : Bytes} :
    coder.RewritesLine record line ↔
      ∃ symbol, (coder.decodeLine record).outcome = .ok symbol ∧
        (coder.encodeLine symbol).outcome = .ok line := by
  constructor
  · rintro ⟨v, container, text, hparse, ⟨symbol, hdecode, hencode⟩, htext, rfl⟩
    exact ⟨symbol, Run.andThen_eq_ok.mpr ⟨v, parse_eq_ok.mpr hparse, hdecode⟩,
      encodeLine_eq_ok.mpr ⟨container, text, hencode, print_eq_ok.mpr htext, rfl⟩⟩
  · rintro ⟨symbol, hdecode, hencode⟩
    obtain ⟨v, hparse, hsymbol⟩ := Run.andThen_eq_ok.mp hdecode
    obtain ⟨container, text, hcontainer, htext, rfl⟩ := encodeLine_eq_ok.mp hencode
    exact ⟨v, container, text, parse_eq_ok.mp hparse, ⟨symbol, hsymbol, hcontainer⟩,
      print_eq_ok.mp htext, rfl⟩

/-- Lines are normalized record by record. -/
theorem outcome_normalizeLines_iff (h : coder.snapshot.Standard) {content bytes : Bytes} :
    (coder.normalizeLines content).outcome = .ok bytes ↔
      ∃ written, List.Forall₂ coder.RewritesLine content.records written ∧
        bytes = written.flatten := by
  have hlines : ∀ written : List Bytes,
      List.Forall₂ coder.RewritesLine content.records written ↔
        ∃ symbols, (coder.decodeLines content).outcome = .ok symbols ∧
          (Run.forAll coder.encodeLine symbols).outcome = .ok written := by
    intro written
    rw [decodeLines_eq, Run.forAll_forAll_eq_ok_iff]
    simp only [← rewritesLine_iff]
  simp only [normalizeLines_eq_ok h, encodeLines_eq_ok, hlines]
  constructor
  · rintro ⟨symbols, hdecode, written, hencode, rfl⟩
    exact ⟨written, ⟨symbols, hdecode, hencode⟩, rfl⟩
  · rintro ⟨written, ⟨symbols, hdecode, hencode⟩, rfl⟩
    exact ⟨symbols, hdecode, written, hencode, rfl⟩

/-- **Normalizing yields the normal form**, and yields nothing when there is none. -/
theorem outcome_normalize_iff (h : coder.snapshot.Standard) {path : Path} {content bytes : Bytes} :
    (coder.normalize path content).outcome = .ok bytes ↔ coder.Normalizes path content bytes := by
  rw [normalize]
  cases hpath : Verdict.isLines path with
  | true =>
    rw [if_pos rfl, outcome_normalizeLines_iff h]
    constructor
    · rintro ⟨written, hwritten, rfl⟩
      exact .lines hpath hwritten
    · intro hnormal
      cases hnormal with
      | lines _ hwritten => exact ⟨_, hwritten, rfl⟩
      | single hdocument => exact absurd (hpath.symm.trans hdocument) (by decide)
      | several hdocument => exact absurd (hpath.symm.trans hdocument) (by decide)
  | false =>
    rw [if_neg Bool.false_ne_true, normalizeDocument_eq_ok h]
    constructor
    · rintro ⟨document, written, hdecode, hencode, rfl⟩
      rcases decodeDocument_cases hdecode with
        ⟨items, symbols, hparse, hsymbols, rfl⟩ | ⟨record, symbol, hparse, hsymbol, rfl⟩
      · obtain ⟨containers, hcontainers, hprint⟩ := Run.andThen_eq_ok.mp hencode
        exact .several hpath hparse
          (Run.forAll_forAll_eq_ok_iff.mp ⟨symbols, hsymbols, hcontainers⟩) (print_eq_ok.mp hprint)
      · obtain ⟨container, hcontainer, hprint⟩ := Run.andThen_eq_ok.mp hencode
        exact .single hpath hparse ⟨symbol, hsymbol, hcontainer⟩ (print_eq_ok.mp hprint)
    · intro hnormal
      cases hnormal with
      | lines hlines => exact absurd (hpath.symm.trans hlines) (by decide)
      | single _ hparse hrewrites hwritten =>
        obtain ⟨symbol, hsymbol, hcontainer⟩ := hrewrites
        exact ⟨_, _, decodeDocument_object hparse hsymbol,
          Run.andThen_eq_ok.mpr ⟨_, hcontainer, print_eq_ok.mpr hwritten⟩, rfl⟩
      | several _ hparse hrewrites hwritten =>
        obtain ⟨symbols, hsymbols, hcontainers⟩ := Run.forAll_forAll_eq_ok_iff.mpr hrewrites
        exact ⟨_, _, decodeDocument_list hparse hsymbols,
          Run.andThen_eq_ok.mpr ⟨_, hcontainers, print_eq_ok.mpr hwritten⟩, rfl⟩

end Coder

namespace World

variable {world : World}

/-- The coder of a configuration registers mixin types only. -/
theorem standard_coderOf (indent : Bool) (types : List MixinType) :
    (coderOf indent types).1.snapshot.Standard := by
  refine Coder.standard_snapshot fun key descriptor hget => ?_
  have hlast : Registration.last? [types.map Registration.type] key = some descriptor :=
    (Coder.get?_registerAll indent [types.map Registration.type] key).symm.trans hget
  obtain ⟨rfl, call, hcall, haccepted⟩ := Registration.mem_of_last?_eq_some hlast
  obtain rfl := List.mem_singleton.mp hcall
  obtain ⟨registration, hmem, hdescriptor⟩ := Registration.exists_of_mem_accepted haccepted
  obtain ⟨type, -, rfl⟩ := List.mem_map.mp hmem
  obtain ⟨-, hown⟩ := Registration.descriptor?_type_eq_ok hdescriptor
  exact ⟨type, hown ▸ type.isOf_descriptor _⟩

/-- The normal form of what stands at a path, under the configuration of a directory: there are a
configuration and a file with a content, and the content has the normal form. -/
def Normal [Wording] (world : World) (root? : Option String) (path : String) (indent : Bool)
    (bytes : Bytes) : Prop :=
  ∃ root config types source content,
    world.locateRoot root? = .ok root ∧ world.configure root = .ok (config, types) ∧
      world.locate path = .ok source ∧ world.tree.read world.directory source = .ok content ∧
        (coderOf (indent || config.indent) types).1.Normalizes source content bytes

/-! ## Exits that leave nothing behind -/

/-- An exit that is no success and leaves nothing behind but messages. -/
structure Spares (world : World) (outcome : Outcome) : Prop where
  /-- The program does not exit with code 0. -/
  exit : outcome.exit ≠ .code 0
  /-- The output is empty. -/
  stdout : outcome.stdout = []
  /-- The files are what they were. -/
  tree : outcome.tree = world.tree

theorem spares_code {n : Nat} (h : n ≠ 0) (stderr : String) :
    world.Spares (world.exit (.code n) [] stderr) :=
  ⟨fun heq => h (Exit.code.inj heq), rfl, rfl⟩

theorem spares_escaped (escape : Escape) (stderr : String) :
    world.Spares (world.exit (.escaped escape) [] stderr) :=
  ⟨(fun heq => nomatch heq), rfl, rfl⟩

theorem spares_exitError (stderr message : String) :
    world.Spares (world.exitError stderr message) :=
  spares_code Nat.one_ne_zero _

theorem spares_exitPath (stderr : String) (fault : PathFault) :
    world.Spares (world.exitPath stderr fault) :=
  spares_escaped _ _

theorem spares_exitSetup (failure : SetupFailure) : world.Spares (world.exitSetup failure) := by
  cases failure with
  | file error => exact spares_exitError _ _
  | config failure =>
    cases failure with
    | error error => exact spares_code (by decide) _
    | escape escape => exact spares_escaped _ _

theorem spares_exitFailure (stderr : String) (failure : Failure) :
    world.Spares (world.exitFailure stderr failure) := by
  cases failure with
  | decode error => exact spares_exitError _ _
  | encode error => exact spares_exitError _ _
  | _ => exact spares_escaped _ _

/-! ## Handing out -/

/-- What a target leaves behind when a content is handed out to it: the content as the output and
the files as they were, or no output and one file with the content. -/
def Delivers (world : World) (content : Bytes) (outcome : Outcome) : Target → Prop
  | .output => outcome.stdout = content ∧ outcome.tree = world.tree
  | .unnamed => False
  | .file out => outcome.stdout = [] ∧ ∃ path place, world.pathOf out = .ok path ∧
      world.tree.follow world.directory path = .ok place ∧
        FileTree.Stored world.tree outcome.tree place content

/-- A target takes a content: the output always does, and a file where a path leads, unless a
directory stands there. -/
def Takes (world : World) : Target → Prop
  | .output => True
  | .unnamed => False
  | .file out => ∃ path place, world.pathOf out = .ok path ∧
      world.tree.follow world.directory path = .ok place ∧ world.tree.find? place ≠ some .directory

/-- **A content is handed out as a whole or not at all**, and it is when its target takes it. -/
theorem deliver_cases (world : World) (stderr : String) (target : Target) (content : Bytes) :
    (world.Takes target ∧ (world.deliver stderr target content).exit = .code 0 ∧
      world.Delivers content (world.deliver stderr target content) target) ∨
    (¬ world.Takes target ∧ world.Spares (world.deliver stderr target content)) := by
  cases target with
  | output => exact Or.inl ⟨trivial, rfl, rfl, rfl⟩
  | unnamed => exact Or.inr ⟨id, spares_exitPath _ _⟩
  | file out =>
    cases hpath : world.pathOf out with
    | error fault =>
      refine Or.inr ⟨?_, ?_⟩
      · rintro ⟨path, place, hok, -⟩
        exact absurd (hpath.symm.trans hok) (by simp)
      · simp only [deliver, hpath]
        exact spares_exitPath _ _
    | ok path =>
      cases hwrite : world.tree.write world.directory path content with
      | error error =>
        refine Or.inr ⟨?_, ?_⟩
        · rintro ⟨other, place, hother, hfollow, hfree⟩
          obtain rfl := Except.ok.inj (hpath.symm.trans hother)
          have hok : world.tree.write world.directory path content = .ok _ :=
            FileTree.write_eq_ok_iff.mpr ⟨place, hfollow, hfree, rfl⟩
          exact absurd (hwrite.symm.trans hok) (by simp)
        · simp only [deliver, hpath, hwrite]
          exact spares_exitError _ _
      | ok after =>
        obtain ⟨place, hfollow, hfree, rfl⟩ := FileTree.write_eq_ok_iff.mp hwrite
        refine Or.inl ⟨⟨path, place, hpath, hfollow, hfree⟩, ?_⟩
        simp only [deliver, hpath, hwrite]
        exact ⟨trivial, rfl, path, place, hpath, hfollow,
          FileTree.stored_put (FileTree.clear_of_follow hfollow) content⟩

/-! ## The program -/

section Stages

variable [Wording] {arguments : List String} {root? : Option String} {verbose : Bool}
  {path : String} {target : Target} {indent : Bool}

/-- With a configuration, a run that normalizes delivers the normal form, or there is none. -/
theorem runNormalize_cases {root : Path} {config : Config} {types : List MixinType}
    (hroot : world.locateRoot root? = .ok root)
    (hconfigure : world.configure root = .ok (config, types)) :
    (∃ bytes stderr, world.Normal root? path indent bytes ∧
      world.runNormalize verbose config types path target indent =
        world.deliver stderr target bytes) ∨
    ((¬ ∃ bytes, world.Normal root? path indent bytes) ∧
      world.Spares (world.runNormalize verbose config types path target indent)) := by
  have hnormal : ∀ bytes, world.Normal root? path indent bytes ↔
      ∃ source content, world.locate path = .ok source ∧
        world.tree.read world.directory source = .ok content ∧
          ((coderOf (indent || config.indent) types).1.normalize source content).outcome =
            .ok bytes := by
    intro bytes
    constructor
    · rintro ⟨root', config', types', source, content, hroot', hconfigure', hlocate, hread, hform⟩
      obtain rfl := Except.ok.inj (hroot.symm.trans hroot')
      obtain ⟨rfl, rfl⟩ := Prod.mk.inj (Except.ok.inj (hconfigure.symm.trans hconfigure'))
      exact ⟨source, content, hlocate, hread,
        (Coder.outcome_normalize_iff (standard_coderOf _ _)).mpr hform⟩
    · rintro ⟨source, content, hlocate, hread, hform⟩
      exact ⟨root, config, types, source, content, hroot, hconfigure, hlocate, hread,
        (Coder.outcome_normalize_iff (standard_coderOf _ _)).mp hform⟩
  simp only [hnormal, runNormalize]
  cases hlocate : world.locate path with
  | error fault => exact Or.inr ⟨by simp, spares_exitPath _ _⟩
  | ok source =>
    simp only
    cases hread : world.tree.read world.directory source with
    | error error => exact Or.inr ⟨by simp [hread], spares_exitError _ _⟩
    | ok content =>
      simp only
      cases hform :
          ((coderOf (indent || config.indent) types).1.normalize source content).outcome with
      | error failure => exact Or.inr ⟨by simp [hread, hform], spares_exitFailure _ _⟩
      | ok bytes => exact Or.inl ⟨bytes, _, ⟨source, content, rfl, hread, hform⟩, rfl⟩

/-- **A run that normalizes delivers the normal form, or there is none** and nothing is left
behind. -/
theorem run_normalize_cases (world : World)
    (hparse : Invocation.parse arguments = .ok ⟨root?, verbose, .normalize path target indent⟩) :
    (∃ bytes stderr, world.Normal root? path indent bytes ∧
      world.run arguments = world.deliver stderr target bytes) ∨
    ((¬ ∃ bytes, world.Normal root? path indent bytes) ∧ world.Spares (world.run arguments)) := by
  simp only [run, hparse]
  cases hroot : world.locateRoot root? with
  | error fault =>
    refine Or.inr ⟨?_, spares_exitPath _ _⟩
    rintro ⟨bytes, root, config, types, source, content, hok, -⟩
    exact absurd (hroot.symm.trans hok) (by simp)
  | ok root =>
    simp only [carryOut]
    cases hconfigure : world.configure root with
    | error failure =>
      refine Or.inr ⟨?_, spares_exitSetup _⟩
      rintro ⟨bytes, root', config, types, source, content, hroot', hok, -⟩
      obtain rfl := Except.ok.inj (hroot.symm.trans hroot')
      exact absurd (hconfigure.symm.trans hok) (by simp)
    | ok found => exact runNormalize_cases hroot hconfigure

end Stages

/-- **Normalizing is all or nothing.**  When the program does not exit with code 0, by another code
or by a failure that it does not report, its output is empty and all files are what they were.  When
it does, there is a normal form of the content that stood at the path, and without a file to write
it is the output and no file changes, and with one the output is empty and that file alone changes
and has the normal form as its content, whether or not it is the file that was read.  It exits with
code 0 whenever there is a normal form and the target takes it. -/
theorem normalize_all_or_nothing [Wording] (world : World) (arguments : List String)
    (root? : Option String) (verbose : Bool) (path : String) (target : Target) (indent : Bool)
    (hparse : Invocation.parse arguments = .ok ⟨root?, verbose, .normalize path target indent⟩) :
    ((world.run arguments).exit ≠ .code 0 →
      (world.run arguments).stdout = [] ∧ (world.run arguments).tree = world.tree) ∧
    ((world.run arguments).exit = .code 0 →
      ∃ bytes, world.Normal root? path indent bytes ∧
        world.Delivers bytes (world.run arguments) target) ∧
    ((world.run arguments).exit = .code 0 ↔
      (∃ bytes, world.Normal root? path indent bytes) ∧ world.Takes target) := by
  rcases run_normalize_cases world hparse with
    ⟨bytes, stderr, hnormal, hrun⟩ | ⟨hnone, hspares⟩
  · rw [hrun]
    rcases deliver_cases world stderr target bytes with
      ⟨htakes, hexit, hdelivers⟩ | ⟨hrefuses, hspares⟩
    · exact ⟨fun hne => absurd hexit hne, fun _ => ⟨bytes, hnormal, hdelivers⟩,
        iff_of_true hexit ⟨⟨bytes, hnormal⟩, htakes⟩⟩
    · exact ⟨fun _ => ⟨hspares.stdout, hspares.tree⟩, fun hexit => absurd hexit hspares.exit,
        iff_of_false hspares.exit fun h => hrefuses h.2⟩
  · exact ⟨fun _ => ⟨hspares.stdout, hspares.tree⟩, fun hexit => absurd hexit hspares.exit,
      iff_of_false hspares.exit fun h => hnone h.1⟩

/-! ## A file in its own place -/

/-- Three files: a list of one symbol, loosely spelled, two lines of which the second is no JSON,
and one in the directory where whoever runs the program is at home. -/
def shelf : World where
  tree := ⟨[(["kit.json"], .file (Utf8.encode (write .indented 0 Coder.loose))),
    (["torn.jsonl"], .file (Utf8.encode (write .compact 0 (Coder.recordWith .null)) ++
      [0x0A, 0x7B])),
    (["attic", "old.json"], .file [])]⟩
  directory := ⟨"/", []⟩
  homes name := if name.isEmpty then some "/attic/" else none
  catalogue := Catalogue.standard

attribute [local instance] Wording.plain

/-- The first file is replaced by its normal form, or stored at home.  For the second nothing is
replaced, and nothing is stored in the home of a user that nobody knows. -/
theorem run_normalize_on_shelf :
    (∃ bytes place, shelf.Normal (some ".") "kit.json" false bytes ∧
      shelf.tree.follow shelf.directory (Path.ofText "kit.json") = .ok place ∧
      FileTree.Stored shelf.tree (shelf.run ["normalize", "kit.json", "--out", "kit.json"]).tree
        place bytes) ∧
    (∃ bytes, shelf.Normal (some ".") "kit.json" false bytes ∧
      FileTree.Stored shelf.tree (shelf.run ["normalize", "kit.json", "--out", "~/kit.json"]).tree
        ["attic", "kit.json"] bytes) ∧
    ((shelf.run ["normalize", "torn.jsonl", "--out", "kit.json"]).stdout = [] ∧
      (shelf.run ["normalize", "torn.jsonl", "--out", "kit.json"]).tree = shelf.tree) ∧
    (shelf.run ["normalize", "kit.json", "--out", "~nobody/kit.json"]).exit =
        .escaped (.path .homeless) ∧
      (shelf.run ["normalize", "kit.json", "--out", "~nobody/kit.json"]).tree = shelf.tree := by
  refine ⟨?_, ?_, ?_, ?_⟩
  · obtain ⟨-, hdelivered, -⟩ := normalize_all_or_nothing shelf
      ["normalize", "kit.json", "--out", "kit.json"] (some ".") false "kit.json"
      (.file "kit.json") false (by decide +kernel)
    obtain ⟨bytes, hnormal, -, path, place, hpath, hfollow, hstored⟩ :=
      hdelivered (by decide +kernel)
    have hown : shelf.pathOf "kit.json" = .ok (Path.ofText "kit.json") := by decide +kernel
    obtain rfl := Except.ok.inj (hown.symm.trans hpath)
    exact ⟨bytes, place, hnormal, hfollow, hstored⟩
  · obtain ⟨-, hdelivered, -⟩ := normalize_all_or_nothing shelf
      ["normalize", "kit.json", "--out", "~/kit.json"] (some ".") false "kit.json"
      (.file "~/kit.json") false (by decide +kernel)
    obtain ⟨bytes, hnormal, -, path, place, hpath, hfollow, hstored⟩ :=
      hdelivered (by decide +kernel)
    have hhome : shelf.pathOf "~/kit.json" = .ok ⟨"/", ["attic", "kit.json"]⟩ := by
      decide +kernel
    obtain rfl := Except.ok.inj (hhome.symm.trans hpath)
    have hplace : shelf.tree.follow shelf.directory ⟨"/", ["attic", "kit.json"]⟩ =
        .ok ["attic", "kit.json"] := by decide +kernel
    obtain rfl := Except.ok.inj (hplace.symm.trans hfollow)
    exact ⟨bytes, hnormal, hstored⟩
  · obtain ⟨hnothing, -, -⟩ := normalize_all_or_nothing shelf
      ["normalize", "torn.jsonl", "--out", "kit.json"] (some ".") false "torn.jsonl"
      (.file "kit.json") false (by decide +kernel)
    exact hnothing (by decide +kernel)
  · obtain ⟨hnothing, -, -⟩ := normalize_all_or_nothing shelf
      ["normalize", "kit.json", "--out", "~nobody/kit.json"] (some ".") false "kit.json"
      (.file "~nobody/kit.json") false (by decide +kernel)
    have hexit : (shelf.run ["normalize", "kit.json", "--out", "~nobody/kit.json"]).exit =
        .escaped (.path .homeless) := by decide +kernel
    exact ⟨hexit, (hnothing (by rw [hexit]; decide)).2⟩

end World

end SymbolRecord
