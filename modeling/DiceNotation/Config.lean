import DiceNotation.Limits
import DiceNotation.Toml.Document

/-! # Configuration files

Limits can be kept in a TOML file, in its table `dicelang` or else in `tool.dicelang`; a file
with neither stands for the default limits.  `Config.readTable` finds the table in the bytes of
a file, and `Config.limits` makes limits of it. -/

namespace DiceNotation

/-- What is found under the name of a file. -/
inductive FileContent where
  /-- There is no such file. -/
  | missing
  /-- The file holds these bytes. -/
  | bytes (content : ByteArray)

namespace Config

/-- Every line end as a line feed; carriage returns end a line alone or before a line feed. -/
def unifyLineEnds : List Char → List Char
  | '\r' :: '\n' :: rest => '\n' :: unifyLineEnds rest
  | '\r' :: rest => '\n' :: unifyLineEnds rest
  | c :: rest => c :: unifyLineEnds rest
  | [] => []

/-- The text that bytes stand for. -/
def decode (content : ByteArray) : Except ConfigFault String :=
  match String.fromUTF8? content with
  | some text => .ok (String.ofList (unifyLineEnds text.toList))
  | none => .error .undecodable

/-- The value under a key as a table; without a value it is empty. -/
def subtable (name : String) : Option Toml.Value → Except ConfigFault Toml.Entries
  | none => .ok []
  | some value =>
    match value.entries? with
    | some entries => .ok entries
    | none => .error (.invalid (.notATable name))

/-- The table of a document that holds the settings. -/
def findTable (document : Toml.Entries) : Except ConfigFault Toml.Entries := do
  match document.lookup "dicelang" with
  | some value => subtable "dicelang" (some value)
  | none =>
    let tool ← subtable "tool" (document.lookup "tool")
    subtable "tool.dicelang" (tool.lookup "dicelang")

/-- The table that holds the settings in the file at a path. -/
def readTable (path : String) : FileContent → Except ConfigFault Toml.Entries
  | .missing => .error (.invalid (.notFound path))
  | .bytes content => do
    match Toml.parse (← decode content) with
    | .ok document => findTable document
    | .error .malformed => throw (.invalid (.malformed path))
    | .error .tooManyDigits => throw .tooManyDigits

/-- A value as a setting. -/
def setting : Toml.Value → Setting
  | .number (.int n) => .whole n
  | _ => .other

/-- The limits that a table states. -/
def limits (table : Toml.Entries) : Except ConfigFault Limits :=
  Limits.ofSettings (.ofList (table.map fun entry => (entry.1, setting entry.2)))

/-- The limits that the file at a path states. -/
def load (path : String) (file : FileContent) : Except ConfigFault Limits := do
  limits (← readTable path file)

end Config

end DiceNotation
