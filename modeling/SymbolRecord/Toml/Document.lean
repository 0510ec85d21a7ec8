import SymbolRecord.Toml.Scalar
import SymbolRecord.Text.Utf8
/-!
# TOML documents

A document is a sequence of settings and headings, one to a line.  A heading names the table that
the settings after it go into; a heading in double brackets begins a further table of a list.  Keys
with full stops name tables inside tables.

What has been said may not be said again in another way.  Which tables are closed to further
settings is kept beside the values, as *seals* on key paths: a table that was headed, or that was
made by a key with full stops, may not be headed or made again, and a table or list that was
written as a value may not be touched at all.

* `Toml.readValue`: the value at the beginning of a text.
* `Toml.Seal`, `Toml.Draft`: the closed paths, and a document that is being read.
* `Toml.parse`: the table of a document.
-/

namespace SymbolRecord

namespace Toml

/-! ## Nested tables -/

/-- Changes the entries at a path, making the tables on the way.  A list on the way stands for its
last table if `throughLists` is set. -/
def updateAt (throughLists : Bool) (change : Entries Value → Option (Entries Value)) :
    List String → Entries Value → Option (Entries Value)
  | [], entries => change entries
  | key :: path, entries =>
    match Entries.get? entries key with
    | none => (updateAt throughLists change path []).map fun inner =>
      Entries.put entries key (.object inner)
    | some (.object inner) => (updateAt throughLists change path inner).map fun inner =>
      Entries.put entries key (.object inner)
    | some (.list items) =>
      match throughLists, items.getLast? with
      | true, some (.object inner) => (updateAt throughLists change path inner).map fun inner =>
        Entries.put entries key (.list (items.dropLast ++ [.object inner]))
      | _, _ => none
    | some _ => none

/-- Stores a value under a new key. -/
def store (key : String) (v : Value) (entries : Entries Value) : Option (Entries Value) :=
  if Entries.has entries key then none else some (Entries.put entries key v)

/-- Appends an empty table to the list under a key, or begins one. -/
def appendTable (key : String) (entries : Entries Value) : Option (Entries Value) :=
  match Entries.get? entries key with
  | none => some (Entries.put entries key (.list [.object []]))
  | some (.list items) => some (Entries.put entries key (.list (items ++ [.object []])))
  | some _ => none

/-! ## Seals -/

/-- A closed path. -/
structure Seal where
  /-- The path. -/
  path : List String
  /-- Whether everything at the path is closed, and not only its heading. -/
  frozen : Bool

/-- Whether a path may not be headed or made again. -/
def isHeaded (seals : List Seal) (path : List String) : Bool :=
  seals.any fun s => !s.frozen && s.path == path

/-- Whether a path lies in a table or list that was written as a value. -/
def isFrozen (seals : List Seal) (path : List String) : Bool :=
  seals.any fun s => s.frozen && s.path.isPrefixOf path

/-- Breaks the seals at a path and below it. -/
def breakSeals (seals : List Seal) (path : List String) : List Seal :=
  seals.filter fun s => !path.isPrefixOf s.path

/-! ## Values -/

/-- The text behind a comment, if there is one. -/
def skipComment (cs : List Char) : Except Fault (List Char) :=
  match cs with
  | '#' :: rest =>
    if (rest.takeWhile (· ≠ '\n')).any isControl then .error .malformed
    else .ok (rest.dropWhile (· ≠ '\n'))
  | _ => .ok cs

/-- The text behind space, line feeds and comments; the first argument bounds their number. -/
def skipGaps : Nat → List Char → Except Fault (List Char)
  | 0, cs => .ok cs
  | fuel + 1, cs =>
    match cs.dropWhile isGap with
    | '#' :: rest =>
      match skipComment ('#' :: rest) with
      | .ok after => skipGaps fuel after
      | .error fault => .error fault
    | rest => .ok rest

/-- Whether a value holds others. -/
def isContainer : Value → Bool
  | .list _ => true
  | .object _ => true
  | _ => false

/-- Reads the equals sign of a setting. -/
def readEquals (cs : List Char) : Except Fault (List Char) :=
  match cs with
  | '=' :: rest => .ok (skipSpace rest)
  | _ => .error .malformed

/-- What a list costs of the room for nesting. -/
def listCost : Nat := 2

/-- What a table costs of the room for nesting. -/
def tableCost : Nat := 3

mutual

/-- Reads a value.  The first argument bounds the number of steps and the second one is the room
that is left for nesting. -/
def readValue : Nat → Nat → List Char → Step Value
  | 0, _, _ => .error .malformed
  | _ + 1, _, [] => .error .malformed
  | fuel + 1, room, c :: rest =>
    if c = '"' ∨ c = '\'' then (readText c rest).map fun (s, after) => (.text s, after)
    else if c = '[' then
      if room < listCost then .error .nesting
      else
        match skipGaps rest.length rest with
        | .error fault => .error fault
        | .ok (']' :: after) => .ok (.list [], after)
        | .ok after =>
          (readItems fuel (room - listCost) after).map fun (items, after) => (.list items, after)
    else if c = '\x7b' then
      if room < tableCost then .error .nesting
      else
        match skipSpace rest with
        | '\x7d' :: after => .ok (.object [], after)
        | after =>
          (readSettings fuel (room - tableCost) [] [] after).map fun (entries, after) =>
            (.object entries, after)
    else readPlain (c :: rest)

/-- Reads the items of a list from one item on up to the closing bracket. -/
def readItems : Nat → Nat → List Char → Step (List Value)
  | 0, _, _ => .error .malformed
  | fuel + 1, room, cs =>
    match readValue fuel room cs with
    | .error fault => .error fault
    | .ok (item, rest) =>
      match skipGaps rest.length rest with
      | .error fault => .error fault
      | .ok (']' :: after) => .ok ([item], after)
      | .ok (',' :: after) =>
        match skipGaps after.length after with
        | .error fault => .error fault
        | .ok (']' :: after) => .ok ([item], after)
        | .ok after => (readItems fuel room after).map fun (items, after) => (item :: items, after)
      | .ok _ => .error .malformed

/-- Reads the settings of a table between braces from one setting on up to the closing brace. -/
def readSettings : Nat → Nat → List Seal → Entries Value → List Char → Step (Entries Value)
  | 0, _, _, _, _ => .error .malformed
  | fuel + 1, room, seals, entries, cs =>
    match readKey cs with
    | .error fault => .error fault
    | .ok (path, rest) =>
      match readEquals rest with
      | .error fault => .error fault
      | .ok rest =>
        match readValue fuel room rest with
        | .error fault => .error fault
        | .ok (v, rest) =>
          if isFrozen seals path then .error .malformed
          else
            match updateAt false (store (path.getLastD "") v) path.dropLast entries with
            | none => .error .malformed
            | some entries =>
              match skipSpace rest with
              | '\x7d' :: after => .ok (entries, after)
              | ',' :: after =>
                let seals := if isContainer v then ⟨path, true⟩ :: seals else seals
                readSettings fuel room seals entries (skipSpace after)
              | _ => .error .malformed

end

/-- How much room there is for nesting. -/
def nestingRoom : Nat := 980

/-! ## Documents -/

/-- A document that is being read. -/
structure Draft where
  /-- The table so far. -/
  table : Entries Value
  /-- The closed paths. -/
  seals : List Seal
  /-- The paths made by keys with full stops since the last heading; they close at the next. -/
  pending : List (List String)
  /-- The path of the last heading. -/
  heading : List String

/-- Closes the paths that wait for a heading. -/
def Draft.settle (draft : Draft) : Draft :=
  { draft with
    seals := draft.pending.map (⟨·, false⟩) ++ draft.seals
    pending := [] }

/-- Adds a setting to the table of the last heading. -/
def Draft.set (draft : Draft) (path : List String) (v : Value) : Except Fault Draft :=
  let made := (List.range (path.length - 1)).map fun i => draft.heading ++ path.take (i + 1)
  let parent := draft.heading ++ path.dropLast
  if made.any (isHeaded draft.seals) then .error .malformed
  else if isFrozen draft.seals parent then .error .malformed
  else
    match updateAt true (store (path.getLastD "") v) parent draft.table with
    | none => .error .malformed
    | some table =>
      .ok { draft with
        table := table
        seals := if isContainer v then ⟨draft.heading ++ path, true⟩ :: draft.seals
          else draft.seals
        pending := made ++ draft.pending }

/-- Reads a heading of a table behind its bracket. -/
def Draft.headTable (draft : Draft) (cs : List Char) : Step Draft :=
  match readKey (skipSpace cs) with
  | .error fault => .error fault
  | .ok (path, rest) =>
    if isHeaded draft.seals path || isFrozen draft.seals path then .error .malformed
    else
      match updateAt true some path draft.table, rest with
      | some table, ']' :: after =>
        .ok ({ draft with
          table := table, seals := ⟨path, false⟩ :: draft.seals, heading := path }, after)
      | _, _ => .error .malformed

/-- Reads a heading of a further table of a list behind its brackets. -/
def Draft.headItem (draft : Draft) (cs : List Char) : Step Draft :=
  match readKey (skipSpace cs) with
  | .error fault => .error fault
  | .ok (path, rest) =>
    if isFrozen draft.seals path then .error .malformed
    else
      match updateAt true (appendTable (path.getLastD "")) path.dropLast draft.table, rest with
      | some table, ']' :: ']' :: after =>
        .ok ({ draft with
          table := table, seals := ⟨path, false⟩ :: breakSeals draft.seals path, heading := path },
          after)
      | _, _ => .error .malformed

/-- Reads a setting. -/
def Draft.readSetting (draft : Draft) (cs : List Char) : Step Draft :=
  match readKey cs with
  | .error fault => .error fault
  | .ok (path, rest) =>
    match readEquals rest with
    | .error fault => .error fault
    | .ok rest =>
      match readValue (2 * rest.length + 2) nestingRoom rest with
      | .error fault => .error fault
      | .ok (v, after) => (draft.set path v).map fun draft => (draft, after)

/-- Reads what a line says, if it says anything. -/
def Draft.readStatement (draft : Draft) (cs : List Char) : Step Draft :=
  match cs with
  | [] => .ok (draft, [])
  | '[' :: '[' :: rest => draft.settle.headItem rest
  | '[' :: rest => draft.settle.headTable rest
  | c :: _ =>
    if isBare c ∨ c = '"' ∨ c = '\'' then draft.readSetting cs
    else if c = '#' ∨ c = '\n' then .ok (draft, cs)
    else .error .malformed

/-- Reads a document line by line; the first argument bounds the number of lines. -/
def Draft.readLines : Nat → Draft → List Char → Except Fault (Entries Value)
  | 0, _, _ => .error .malformed
  | fuel + 1, draft, cs =>
    match draft.readStatement (skipSpace cs) with
    | .error fault => .error fault
    | .ok (draft, rest) =>
      match skipComment (skipSpace rest) with
      | .error fault => .error fault
      | .ok [] => .ok draft.table
      | .ok ('\n' :: after) => readLines fuel draft after
      | .ok _ => .error .malformed

/-- A text with a line feed in the place of every carriage return and line feed. -/
def unifyFeeds : List Char → List Char
  | [] => []
  | '\r' :: '\n' :: rest => '\n' :: unifyFeeds rest
  | c :: rest => c :: unifyFeeds rest

/-- The table of a document. -/
def parse (text : List Char) : Except Fault Value :=
  let cs := unifyFeeds text
  (Draft.readLines (cs.length + 1) ⟨[], [], [], []⟩ cs).map .object

end Toml

end SymbolRecord
