import DiceNotation.Parser.Dice

/-! # Expressions

The grammar, from the loosest to the tightest binding:

* an `expression` is a simple expression, or a comparison of two of them;
* a `simple` expression is a sum of terms, the first of which may have a sign;
* a `term` is a product of powers;
* a `power` is a factor, or a factor raised to a power;
* a `factor` is a literal, a dice roll, a function call, a group in braces, or an expression in
  parentheses.

Each rule takes the parser of the expressions inside parentheses, braces and argument lists as
its parameter `inner`; `expressionWithin` ties the knot, going down at most as many levels as
there is text.  These levels limit nothing, since each one reads a token before it goes further
down; and there is no other limit, as the call stack is taken to be unbounded.

A problem is recorded, and the literal zero stands in for what is missing. -/

namespace DiceNotation.Parser

/-- The operator that a token stands for between terms. -/
def additive? : TokenKind → Option Operator
  | .plus => some .add
  | .minus => some .subtract
  | _ => none

/-- The operator that a token stands for between factors. -/
def multiplicative? : TokenKind → Option Operator
  | .asterisk => some .multiply
  | .slash => some .divide
  | .percent => some .modulo
  | _ => none

/-- The tokens that a missing factor leaves for the rule around it. -/
def isClosing : TokenKind → Bool
  | .endOfInput | .parenthesisClose | .braceClose | .comma => true
  | _ => false

/-- Read operators and operands as long as there are any, at most `steps` of them.  They
    associate to the left. -/
def tailWithin (operator? : TokenKind → Option Operator) (operand : ParseM Node) :
    (steps : Nat) → Node → ParseM Node
  | 0, left => pure left
  | steps + 1, left => do
    match operator? (← nextKind) with
    | none => return left
    | some op =>
      advance
      let right ← operand
      tailWithin operator? operand steps (.make (.operator op) [] [left, right])

/-- Read all further operators and operands behind a first operand. -/
def tail (operator? : TokenKind → Option Operator) (operand : ParseM Node) (first : Node) :
    ParseM Node := do
  tailWithin operator? operand (← weight) first

/-- Read members separated by commas behind a first one, at most `steps` of them. -/
def membersWithin (inner : ParseM Node) : (steps : Nat) → List Node → ParseM (List Node)
  | 0, members => pure members
  | steps + 1, members => do
    if (← nextKind) = .comma then
      advance
      let member ← inner
      membersWithin inner steps (members ++ [member])
    else return members

/-- Read the members of a list up to its closing token, which is left.  The list may be empty. -/
def members (inner : ParseM Node) (closing : TokenKind) : ParseM (List Node) := do
  if (← nextKind) = closing then return []
  else
    let first ← inner
    membersWithin inner (← weight) [first]

/-- Read a function call; the word that names the function is next. -/
def functionCall (inner : ParseM Node) : ParseM Node := do
  let name ← peek
  advance
  let attributes := [("name", Value.text name.text)]
  match ← expect .parenthesisOpen with
  | none => return .make .function attributes []
  | some _ =>
    let arguments ← members inner .parenthesisClose
    let _ ← expect .parenthesisClose
    return .make .function attributes arguments

/-- Read an expression in parentheses; the opening one is next. -/
def bracketed (inner : ParseM Node) : ParseM Node := do
  advance
  let root ← inner
  let _ ← expect .parenthesisClose
  return root

/-- Read a group in braces and its number of repeats; the opening brace is next. -/
def group (inner : ParseM Node) : ParseM Node := do
  advance
  let items ← members inner .braceClose
  let _ ← expect .braceClose
  if (← nextKind) = .ellipsis then
    advance
    return .make .group [("repeat", .int (← integer))] items
  else return .make .group [] items

/-- Read a literal, a dice roll, a function call, a group or an expression in parentheses. -/
def factor (inner : ParseM Node) : ParseM Node := do
  let token ← peek
  match token.kind with
  | .identifier =>
    if isDiceWord token then roll (.integer 1) else functionCall inner
  | .parenthesisOpen =>
    let root ← bracketed inner
    if (← nextKind) = .identifier then roll root else return root
  | .braceOpen => group inner
  | .integer =>
    let number ← literal
    if (← nextKind) = .identifier then roll number else return number
  | kind =>
    unexpected token .integer
    if !isClosing kind then advance
    return .integer 0

/-- Read a factor and its exponents, at most `steps` of them.  They associate to the right. -/
def powerWithin (inner : ParseM Node) : (steps : Nat) → ParseM Node
  | 0 => factor inner
  | steps + 1 => do
    let base ← factor inner
    if (← nextKind) = .doubleAsterisk then
      advance
      let exponent ← powerWithin inner steps
      return .make (.operator .exponent) [] [base, exponent]
    else return base

/-- Read a factor and all its exponents. -/
def power (inner : ParseM Node) : ParseM Node := do
  powerWithin inner (← weight)

/-- Read a product. -/
def term (inner : ParseM Node) : ParseM Node := do
  tail multiplicative? (power inner) (← power inner)

/-- Read a sum.  A minus in front applies to the whole first term, a plus to nothing. -/
def simple (inner : ParseM Node) : ParseM Node := do
  let sign ← nextKind
  if (additive? sign).isSome then advance
  let first ← term inner
  let first := if sign = .minus then .make .negate [] [first] else first
  tail additive? (term inner) first

/-- Read a simple expression or a comparison of two of them. -/
def comparing (inner : ParseM Node) : ParseM Node := do
  let left ← simple inner
  match comparison? (← nextKind) with
  | none => return left
  | some op =>
    advance
    let right ← simple inner
    return .make (.comparison op) [] [left, right]

/-- Read an expression that goes down at most `levels` levels. -/
def expressionWithin : (levels : Nat) → ParseM Node
  | 0 => pure (.integer 0)
  | levels + 1 => comparing (expressionWithin levels)

/-- Read an expression. -/
def expression : ParseM Node := do
  expressionWithin (← weight)

/-- Read a whole dice roll.  If its count is not given, it is the numeral or the expression in
    parentheses that comes next, or one. -/
def plainRollWithCount (count : Option Node) : ParseM Node := do
  match count with
  | some count => plainRoll count
  | none =>
    let token ← peek
    match token.kind with
    | .integer => plainRoll (← literal)
    | .parenthesisOpen => plainRoll (← bracketed expression)
    | _ =>
      if token.kind = .identifier ∧ isDiceWord token then plainRoll (.integer 1)
      else
        unexpected token .integer
        plainRoll (.integer 0)

/-- Read a whole dice roll with its modifiers. -/
def rollWithCount (count : Option Node) : ParseM Node := do
  modifiers (← plainRollWithCount count)

end DiceNotation.Parser

namespace DiceNotation

/-- What a text was read as, and what was wrong with it. -/
structure ParseResult where
  root : Node
  diagnostics : List Diagnostic

/-- Whether nothing was wrong. -/
def ParseResult.ok (result : ParseResult) : Bool := result.diagnostics.isEmpty

namespace Parser

/-- Read an expression up to the end of the input. -/
def whole : ParseM ParseResult := do
  let root ← expression
  let token ← peek
  if token.kind ≠ .endOfInput then
    record (.trailingInput token) token.position
  return ⟨root, (← get).diagnostics⟩

end Parser

/-- Read a text as a dice expression. -/
def parse (text : String) : Except Numeral.ReadError ParseResult :=
  match Parser.whole.run (.ofText text) with
  | .ok result _ => .ok result
  | .error e _ => .error e

end DiceNotation
