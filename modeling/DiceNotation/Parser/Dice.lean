import DiceNotation.Parser.Basic

/-! # Dice rolls and their modifiers

A dice roll is a count, the letter `d` and the sides, followed by modifiers: `4d6kh3!`.
Modifiers are letters without separators, so a word such as `khdl` is cut into the spellings
it starts with.  Where two spellings fit, the longer one is taken. -/

namespace DiceNotation.Parser

/-- The comparison that a token stands for. -/
def comparison? : TokenKind → Option Comparison
  | .equals => some .equal
  | .greater => some .greater
  | .greaterOrEqual => some .greaterOrEqual
  | .less => some .less
  | .lessOrEqual => some .lessOrEqual
  | _ => none

/-- A modifier that is spelled with letters. -/
structure Spelling where
  letters : String
  modifier : Modifier
  attributes : List (String × Value)

/-- All spellings; of two with a common beginning the longer one comes first. -/
def spellings : List Spelling :=
  [⟨"kh", .keep, [("type", "highest")]⟩,
    ⟨"kl", .keep, [("type", "lowest")]⟩,
    ⟨"k", .keep, [("type", "highest")]⟩,
    ⟨"dh", .drop, [("type", "highest")]⟩,
    ⟨"dl", .drop, [("type", "lowest")]⟩,
    ⟨"d", .drop, [("type", "lowest")]⟩,
    ⟨"ro", .reroll, [("once", "yes")]⟩,
    ⟨"r", .reroll, [("once", "no")]⟩,
    ⟨"cs", .critical, [("type", "success")]⟩,
    ⟨"cf", .critical, [("type", "failure")]⟩,
    ⟨"c", .critical, [("type", "success")]⟩,
    ⟨"sa", .sort, [("direction", "ascending")]⟩,
    ⟨"sd", .sort, [("direction", "descending")]⟩,
    ⟨"s", .sort, [("direction", "ascending")]⟩]

/-- The spelling that a word starts with. -/
def spelling? (token : Token) : Option Spelling :=
  spellings.find? fun s => startsWith token s.letters

/-- Read the condition of a modifier, if there is one: a comparison sign and a numeral. -/
def condition : ParseM (Option Node) := do
  match comparison? (← nextKind) with
  | none => return none
  | some op =>
    advance
    return some (.make (.comparison op) [] [← literal])

/-- Read the number of dice that a modifier keeps or drops, if there is one. -/
def amount : ParseM (Option Node) := do
  if (← nextKind) = .integer then return some (← literal) else return none

/-- Read the exclamation mark of a roll that explodes, the letter `p` for penetrating ones, and
    the condition. -/
def explosion (operand : Node) : ParseM Node := do
  advance
  let token ← peek
  let penetrating := token.kind = .identifier ∧ startsWith token "p"
  if penetrating then advanceBy 1
  let limit ← condition
  return .make (.modifier .explode) [("penetrate", if penetrating then "yes" else "no")]
    (operand :: limit.toList)

/-- Read a modifier that is spelled with letters. -/
def spelled (s : Spelling) (operand : Node) : ParseM Node := do
  advanceBy s.letters.length
  let argument ← match s.modifier with
    | .keep | .drop => amount
    | .reroll | .critical => condition
    | _ => pure none
  return .make (.modifier s.modifier) s.attributes (operand :: argument.toList)

/-- Read modifiers as long as there are any, at most `steps` of them. -/
def modifiersWithin : (steps : Nat) → Node → ParseM Node
  | 0, roll => pure roll
  | steps + 1, roll => do
    let token ← peek
    if token.kind = .exclamation then
      modifiersWithin steps (← explosion roll)
    else if token.kind = .identifier then
      match spelling? token with
      | some s => modifiersWithin steps (← spelled s roll)
      | none => return roll
    else return roll

/-- Read all modifiers of a roll. -/
def modifiers (roll : Node) : ParseM Node := do
  modifiersWithin (← weight) roll

/-- Whether a word starts a dice roll that has no count. -/
def isDiceWord (token : Token) : Bool :=
  token.text == "d" || startsWith token "dF"

/-- Read the sides of a dice roll: `d` and a numeral, `d%` for a hundred sides, or `dF` for fate
    dice.  Zero sides stand in for missing ones. -/
def sides : ParseM Value := do
  let token ← peek
  if token.kind = .identifier ∧ startsWith token "dF" then
    advanceBy 2
    return .fate
  else
    match ← expect .identifier with
    | none => return .int 0
    | some word =>
      if word.text ≠ "d" then
        record (.unknownDiceType word.text) word.position
        return .int 0
      else if (← nextKind) = .percent then
        advance
        return .int 100
      else return .int (← integer)

/-- Read the `d` and the sides of a roll of `count` dice. -/
def plainRoll (count : Node) : ParseM Node := do
  return .make .dice [] [count, .diceSides (← sides)]

/-- Read the rest of a roll of `count` dice, modifiers included. -/
def roll (count : Node) : ParseM Node := do
  modifiers (← plainRoll count)

end DiceNotation.Parser
