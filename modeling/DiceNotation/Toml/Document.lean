import DiceNotation.Toml.Scalar

/-! # TOML documents

`parse` reads a document into its top table.  Keys may be dotted, tables may be opened by a
header, by dotted keys or inline, and a header in double brackets adds a table to an array.

What is written once must not be changed later: `Marks` remember which paths are declared by a
header or by dotted keys, and which are frozen because an inline table or an array stands
there.  A violation makes the document malformed like any other mistake. -/

namespace DiceNotation.Toml

open Reader

/-- A path of keys from the top table. -/
abbrev Path := List String

/-! ## Tables -/

namespace Entries

/-- Put another value in the place of the value of a key, or behind all entries. -/
def put (key : String) (value : Value) : Entries → Entries
  | [] => [(key, value)]
  | entry :: rest => if entry.1 = key then (key, value) :: rest else entry :: put key value rest

/-- Add an entry of a new key. -/
def add? (key : String) (value : Value) (entries : Entries) : Option Entries :=
  if (entries.lookup key).isSome then none else some (entries ++ [(key, value)])

/-- Add an empty table to the array of a key, which is made if it is not there. -/
def extend? (key : String) (entries : Entries) : Option Entries :=
  match entries.lookup key with
  | none => some (entries ++ [(key, .array [.table []])])
  | some (.array items) => some (put key (.array (items ++ [.table []])) entries)
  | some _ => none

/-- Change the table at a path.  Tables on the way are made if they are not there; an array on the
    way stands for its last table if `throughArrays` is set.  Any other value is in the way. -/
def update? (throughArrays : Bool) (change : Entries → Option Entries) :
    Path → Entries → Option Entries
  | [], entries => change entries
  | key :: path, entries =>
    match entries.lookup key with
    | none => (update? throughArrays change path []).map fun table =>
        entries ++ [(key, .table table)]
    | some (.table table) => (update? throughArrays change path table).map fun table =>
        put key (.table table) entries
    | some (.array items) =>
      match throughArrays, items.getLast? with
      | true, some (.table table) => (update? throughArrays change path table).map fun table =>
          put key (.array (items.dropLast ++ [.table table])) entries
      | _, _ => none
    | some _ => none

end Entries

/-! ## Marks -/

/-- What must not happen to a path again. -/
inductive MarkKind where
  /-- The table is declared and must not be declared again. -/
  | declared
  /-- The value is complete, with all that is below it. -/
  | frozen
deriving DecidableEq, Repr

/-- A mark on a path. -/
structure Mark where
  path : Path
  kind : MarkKind
deriving DecidableEq, Repr

/-- All marks of a document. -/
abbrev Marks := List Mark

namespace Marks

/-- Whether a path is declared. -/
def isDeclared (marks : Marks) (path : Path) : Bool := marks.contains ⟨path, .declared⟩

/-- Whether a path is frozen, by itself or by a path above it.  The top table never is. -/
def isFrozen (marks : Marks) (path : Path) : Bool :=
  marks.any fun mark => mark.kind == .frozen && mark.path.isPrefixOf path

/-- Take away the marks on a path and on all paths below it. -/
def release (marks : Marks) (path : Path) : Marks :=
  marks.filter fun mark => !path.isPrefixOf mark.path

/-- Set a mark. -/
def set (marks : Marks) (path : Path) (kind : MarkKind) : Marks := ⟨path, kind⟩ :: marks

end Marks

/-! ## Values -/

/-- The characters of keys without quotes. -/
def isBareKey (c : Char) : Bool := c.isAlphanum || c == '-' || c == '_'

/-- Read one part of a key. -/
def keyPart : Reader String := do
  if ← accept "\"" then basic false
  else if ← accept "'" then literal false
  else
    let part ← takeWhile isBareKey
    if part.isEmpty then fail else return String.ofList part

/-- Read the further parts of a dotted key, at most `steps` of them. -/
def keyTail : (steps : Nat) → Reader Path
  | 0 => return []
  | steps + 1 => do
    spaces
    if ← accept "." then
      spaces
      let part ← keyPart
      return part :: (← keyTail steps)
    else return []

/-- Read a key, dotted or not, and the spaces behind it. -/
def key : Reader Path := do
  let first ← keyPart
  return first :: (← keyTail (← remaining))

/-- Read a key, an equals sign and a value. -/
def keyValue (inner : Reader Value) : Reader (Path × Value) := do
  let path ← key
  expect "="
  spaces
  return (path, ← inner)

/-- Read the items of an array, at most `steps` of them; the opening bracket is read already. -/
def itemsWithin (inner : Reader Value) : (steps : Nat) → Reader (List Value)
  | 0 => fail
  | steps + 1 => do
    layout
    if ← accept "]" then return []
    else
      let item ← inner
      layout
      if ← accept "," then return item :: (← itemsWithin inner steps)
      else
        expect "]"
        return [item]

/-- Whether a value is an array or a table. -/
def Value.isContainer : Value → Bool
  | .array _ | .table _ => true
  | _ => false

/-- Read the entries of an inline table, at most `steps` of them. -/
def inlineWithin (inner : Reader Value) : (steps : Nat) → Marks → Entries → Reader Entries
  | 0, _, _ => fail
  | steps + 1, marks, entries => do
    let (path, value) ← keyValue inner
    if marks.isFrozen path then fail
    match entries.update? false (Entries.add? (path.getLastD "") value) path.dropLast with
    | none => fail
    | some entries =>
      spaces
      if ← accept "\x7d" then return entries
      else
        expect ","
        spaces
        let marks := if value.isContainer then marks.set path .frozen else marks
        inlineWithin inner steps marks entries

/-- Read an inline table; the opening brace is read already. -/
def inlineTable (inner : Reader Value) : Reader Entries := do
  spaces
  if ← accept "\x7d" then return []
  else inlineWithin inner ((← remaining) + 1) [] []

/-- Read a value, given how to read the values inside it. -/
def value (inner : Reader Value) : Reader Value := do
  match ← string? with
  | some s => return .string s
  | none =>
    if ← accept "true" then return .boolean true
    else if ← accept "false" then return .boolean false
    else if ← accept "[" then return .array (← itemsWithin inner ((← remaining) + 1))
    else if ← accept "\x7b" then return .table (← inlineTable inner)
    else
      match ← dateTime? with
      | some v => return v
      | none =>
        match ← number? with
        | some n => return .number n
        | none =>
          match ← special? with
          | some n => return .number n
          | none => fail

/-- Read a value that goes down at most `levels` levels. -/
def valueWithin : (levels : Nat) → Reader Value
  | 0 => fail
  | levels + 1 => value (valueWithin levels)

/-! ## Statements -/

/-- A document that is being read. -/
structure Document where
  /-- The top table. -/
  entries : Entries
  marks : Marks
  /-- Paths that count as declared as soon as the next header comes. -/
  pending : List Path
  /-- The table that keys without a header of their own belong to. -/
  header : Path

namespace Document

/-- The document before its first line. -/
def empty : Document := ⟨[], [], [], []⟩

/-- Put the outcome of a change to the top table into the document. -/
def withEntries (document : Document) : Option Entries → Reader Document
  | none => fail
  | some entries => return { document with entries := entries }

/-- Make the pending declarations take effect. -/
def declarePending (document : Document) : Document :=
  { document with
    marks := document.pending.foldl (fun marks path => marks.set path .declared) document.marks
    pending := [] }

/-- Read the header of a table behind its opening bracket. -/
def table (document : Document) : Reader Document := do
  spaces
  let path ← key
  if document.marks.isDeclared path || document.marks.isFrozen path then fail
  let document := { document with marks := document.marks.set path .declared, header := path }
  let document ← document.withEntries (document.entries.update? true some path)
  expect "]"
  return document

/-- Read the header of a table in an array behind its opening brackets. -/
def arrayTable (document : Document) : Reader Document := do
  spaces
  let path ← key
  if document.marks.isFrozen path then fail
  -- The new table of the array starts without what was declared below the one before it.
  let marks := (document.marks.release path).set path .declared
  let document := { document with marks := marks, header := path }
  let document ← document.withEntries
    (document.entries.update? true (Entries.extend? (path.getLastD "")) path.dropLast)
  expect "]]"
  return document

/-- The paths of the tables that a dotted key opens below a header. -/
def opened (header path : Path) : List Path :=
  (List.range (path.length - 1)).map fun i => header ++ path.take (i + 1)

/-- Read a key with its value. -/
def entry (document : Document) : Reader Document := do
  let (path, value) ← keyValue (valueWithin (← remaining))
  let parent := document.header ++ path.dropLast
  let tables := opened document.header path
  if tables.any document.marks.isDeclared then fail
  if document.marks.isFrozen parent then fail
  let document ← document.withEntries
    (document.entries.update? true (Entries.add? (path.getLastD "") value) parent)
  let marks := if value.isContainer then document.marks.set (document.header ++ path) .frozen
    else document.marks
  return { document with marks := marks, pending := document.pending ++ tables }

/-- Read one statement, if one comes next. -/
def statement (document : Document) : Reader Document := do
  if ← accept "[[" then arrayTable document.declarePending
  else if ← accept "[" then table document.declarePending
  else
    match ← peek with
    | none => return document
    | some c =>
      if c = '\n' ∨ c = '#' then return document
      else entry document

/-- Read all lines of a document, at most `steps` of them. -/
def linesWithin : (steps : Nat) → Document → Reader Document
  | 0, _ => fail
  | steps + 1, document => do
    spaces
    let document ← statement document
    spaces
    comment
    if (← peek).isNone then return document
    else
      expect "\n"
      linesWithin steps document

end Document

/-- Read a document; its lines end in line feeds. -/
def parse (text : String) : Except ReadError Entries :=
  let characters := text.toList
  ((Document.linesWithin (characters.length + 1) .empty).run characters).map fun result =>
    result.1.entries

end DiceNotation.Toml
