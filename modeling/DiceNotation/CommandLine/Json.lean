import DiceNotation.Roll
import DiceNotation.Text.Quoted

/-! # JSON

`Json.print` writes a JSON value over several lines, each level two columns further to the
right, with ASCII characters only.  The members of an object keep their order.

A result is written with the whole tree; numbers are written as in every other text, only what
is not finite has names of its own. -/

namespace DiceNotation.CommandLine

/-- A JSON value. -/
inductive Json where
  | null
  | boolean (b : Bool)
  | number (n : Number)
  | string (s : String)
  | array (items : List Json)
  | object (members : List (String × Json))

namespace Json

/-- A code unit of UTF-16 as an escape. -/
def unit (n : Nat) : List Char := '\\' :: 'u' :: Text.hex 4 n

/-- A character inside a string. -/
def escape (c : Char) : List Char :=
  if c = '"' ∨ c = '\\' then ['\\', c]
  else if c = '\n' then ['\\', 'n']
  else if c = '\r' then ['\\', 'r']
  else if c = '\t' then ['\\', 't']
  else if c = '\x08' then ['\\', 'b']
  else if c = '\x0c' then ['\\', 'f']
  else if ' ' ≤ c ∧ c ≤ '~' then [c]
  else if c.toNat < 0x10000 then unit c.toNat
  else
    let offset := c.toNat - 0x10000
    unit (0xD800 + offset / 0x400) ++ unit (0xDC00 + offset % 0x400)

/-- A string between quotation marks. -/
def quote (s : String) : String :=
  String.ofList ('"' :: s.toList.flatMap escape ++ ['"'])

/-- A number. -/
def numeral : Number → String
  | .int n => toString n
  | .real x =>
    if x.isNaN then "NaN"
    else if x.isFinite then Decimal.text x
    else if x < 0 then "-Infinity" else "Infinity"

/-- The start of a line at a level. -/
def indent (level : Nat) : String := String.ofList (List.replicate (2 * level) ' ')

/-- Items between brackets, each on a line of its own. -/
def enclose (opening closing : String) (level : Nat) (items : List String) : String :=
  if items.isEmpty then opening ++ closing
  else
    let separator := ",\n" ++ indent (level + 1)
    opening ++ "\n" ++ indent (level + 1) ++ separator.intercalate items ++ "\n" ++
      indent level ++ closing

mutual

/-- A value whose first line starts at a level. -/
def printAt (level : Nat) : Json → String
  | null => "null"
  | boolean b => if b then "true" else "false"
  | number n => numeral n
  | string s => quote s
  | array items => enclose "[" "]" level (printItems (level + 1) items)
  | object members => enclose "\x7b" "\x7d" level (printMembers (level + 1) members)

/-- Several values at the same level. -/
def printItems (level : Nat) : List Json → List String
  | [] => []
  | item :: rest => printAt level item :: printItems level rest

/-- Several members at the same level. -/
def printMembers (level : Nat) : List (String × Json) → List String
  | [] => []
  | (key, value) :: rest => (quote key ++ ": " ++ printAt level value) :: printMembers level rest

end

/-- The text of a value. -/
def print (json : Json) : String := printAt 0 json

mutual

/-- Whether no number of a value has too many digits. -/
def isWritable : Json → Bool
  | number n => n.isWritable
  | array items => areWritable items
  | object members => membersAreWritable members
  | _ => true

/-- Whether no number of several values has too many digits. -/
def areWritable : List Json → Bool
  | [] => true
  | item :: rest => isWritable item && areWritable rest

/-- Whether no number of several members has too many digits. -/
def membersAreWritable : List (String × Json) → Bool
  | [] => true
  | (_, value) :: rest => isWritable value && membersAreWritable rest

end

/-- An attribute value as JSON. -/
def ofValue : Value → Json
  | .number n => number n
  | .text s => string s
  | .truth b => boolean b
  | .nothing => null

/-- The members that describe a node, without its children. -/
def describe (kind : NodeKind) (attributes : OrderedMap Value) : List (String × Json) :=
  let members := attributes.entries.map fun entry => (entry.1, ofValue entry.2)
  ("type", string kind.name) ::
    (if members.isEmpty then [] else [("attributes", object members)])

mutual

/-- A tree as JSON; attributes and children are left out where there are none. -/
def ofNode : Node → Json
  | ⟨kind, attributes, children⟩ =>
    let members := if children.isEmpty then [] else [("children", array (ofNodes children))]
    object (describe kind attributes ++ members)

/-- Several trees as JSON. -/
def ofNodes : List Node → List Json
  | [] => []
  | node :: rest => ofNode node :: ofNodes rest

end

/-- A result as JSON. -/
def ofResult (result : RollResult) : Json :=
  object
    [("total", ofValue result.total), ("successes", number (.int result.successes)),
      ("fails", number (.int result.failures)), ("errors", array (result.errors.map string)),
      ("tree", ofNode result.tree)]

end Json

end DiceNotation.CommandLine
