import DiceNotation.Node.Basic

/-! # Writing trees as expressions

`Node.render` writes a tree in canonical form: `4d6kh3 + 2`.  Parentheses stand only where the
operators' precedence asks for them.  A rolled `dice` node shows its dice, `[6, 4*, (1)]`:
dropped dice in parentheses, critical dice with a star.

Rendering fails on a number with too many digits and on a node that lacks children
(`RenderFault`).  `render` recurses on the tree: `assemble` puts together the text of one
node from the texts of its children.  As elsewhere, the call stack is taken to be unbounded. -/

namespace DiceNotation

/-- Why a tree has no text. -/
inductive RenderFault where
  /-- An integer has too many digits to be written. -/
  | tooManyDigits
  /-- A child that belongs to the node is missing. -/
  | missingChild
  /-- A binary operator does not have two children. -/
  | notBinary
deriving DecidableEq, Repr

/-- A text, or the reason why there is none. -/
abbrev Rendered := Except RenderFault String

/-- The sign of an operator. -/
def Operator.symbol : Operator → String
  | add => "+"
  | subtract => "-"
  | multiply => "*"
  | divide => "/"
  | modulo => "%"
  | exponent => "**"

/-- The sign of a comparison. -/
def Comparison.symbol : Comparison → String
  | equal => "="
  | greater => ">"
  | greaterOrEqual => ">="
  | less => "<"
  | lessOrEqual => "<="

/-- How tightly an operator binds. -/
def Operator.precedence : Operator → Nat
  | add | subtract => 2
  | multiply | divide | modulo => 3
  | exponent => 4

/-- How tightly the text of a node holds together; what needs no parentheses has the most. -/
def NodeKind.precedence : NodeKind → Nat
  | comparison _ => 1
  | negate => 2
  | operator op => op.precedence
  | _ => 5

namespace Rendering

/-- The text of a value, unless it has too many digits. -/
def valueText (value : Option Value) : Rendered :=
  if value.all Value.isWritable then .ok (Value.optionText value) else .error .tooManyDigits

/-- The text of a value in which a double without fractional part is written as an integer. -/
def numberText (value : Option Value) : Rendered :=
  match value with
  | some (.number n) => valueText (some (.number n.normalize))
  | other => valueText other

/-- The texts of all children, separated by commas. -/
def listText (parts : List Rendered) : Rendered := do
  return ", ".intercalate (← parts.mapM id)

/-- The text of child `i`. -/
def part (parts : List Rendered) (i : Nat) : Rendered :=
  (parts[i]?).getD (.error .missingChild)

/-- Put a text into parentheses. -/
def parenthesize (text : String) : String := "(" ++ text ++ ")"

/-- The text of an operand of kind `kind` where at least the precedence `minimum` is needed. -/
def operand (kind : NodeKind) (minimum : Nat) (text : Rendered) : Rendered := do
  let text ← text
  return if kind.precedence < minimum then parenthesize text else text

/-- A binary operator between its operands.  All operators associate to the left, except that
    `rightward` ones associate to the right. -/
def binary (symbol : String) (precedence : Nat) (rightward : Bool) (children : List Node)
    (parts : List Rendered) : Rendered :=
  match children, parts with
  | [left, right], [leftText, rightText] => do
    let leftText ← operand left.kind (if rightward then precedence + 1 else precedence) leftText
    let rightText ← operand right.kind (if rightward then precedence else precedence + 1) rightText
    return leftText ++ " " ++ symbol ++ " " ++ rightText
  | _, _ => .error .notBinary

/-- A dice roll: count and sides, or the dice if it has been rolled. -/
def dice (children : List Node) (parts : List Rendered) : Rendered :=
  match children, parts with
  | [count, ⟨.diceSides, attributes, below⟩], [countText, sidesText] => do
    let countText ← countText
    let countText := if count.kind = .integer then countText else parenthesize countText
    if (Node.value? ⟨.diceSides, attributes, below⟩).any Value.isFate then
      return countText ++ "dF"
    else return countText ++ "d" ++ (← sidesText)
  | _, _ => do return "[" ++ (← listText parts) ++ "]"

/-- One die: a star if it is critical, parentheses if it is dropped. -/
def die (node : Node) : Rendered := do
  let text ← numberText node.value?
  let text := if node.has "critical" then text ++ "*" else text
  return if node.isDropped then parenthesize text else text

/-- The letters of a modifier. -/
def modifierLetters (node : Node) : Modifier → String
  | .explode => if node.hasText "penetrate" "yes" then "!p" else "!"
  | .keep => if node.hasText "type" "highest" then "kh" else "kl"
  | .drop => if node.hasText "type" "highest" then "dh" else "dl"
  | .critical => if node.hasText "type" "success" then "cs" else "cf"
  | .reroll => if node.hasText "once" "yes" then "ro" else "r"
  | .sort => if node.hasText "direction" "descending" then "sd" else "sa"

/-- The text of a node from the texts of its children.  A modifier's argument follows its letters;
    sorting has none, so what stands in its place is not written. -/
def assemble (node : Node) (parts : List Rendered) : Rendered :=
  match node.kind with
  | .integer => numberText node.value?
  | .diceSides =>
    if node.value?.any Value.isFate then .ok "F" else numberText node.value?
  | .dice => dice node.children parts
  | .diceRoll => die node
  | .negate =>
    match node.children with
    | [] => .error .missingChild
    | child :: _ => do
      return "-" ++ (← operand child.kind (NodeKind.negate.precedence + 1) (part parts 0))
  | .comparison op =>
    if node.children.length = 1 then do return op.symbol ++ (← part parts 0)
    else binary op.symbol node.kind.precedence false node.children parts
  | .operator op =>
    binary op.symbol node.kind.precedence (op == .exponent) node.children parts
  | .function => do
    let arguments ← listText parts
    return (← valueText (node.get? "name")) ++ "(" ++ arguments ++ ")"
  | .group => do
    let items ← listText parts
    match (node.get? "repeat").filter fun times => !times.isNothing with
    | none => return "\x7b" ++ items ++ "\x7d"
    | some times => return "\x7b" ++ items ++ "\x7d..." ++ (← valueText (some times))
  | .modifier m => do
    let roll ← part parts 0
    let argument ← if 1 < node.children.length then part parts 1 else .ok ""
    return roll ++ modifierLetters node m ++ (if m = .sort then "" else argument)

end Rendering

namespace Node

mutual

/-- The text of a tree. -/
def render : Node → Rendered
  | ⟨kind, attributes, children⟩ =>
    Rendering.assemble ⟨kind, attributes, children⟩ (renderAll children)

/-- The texts of several trees. -/
def renderAll : List Node → List Rendered
  | [] => []
  | node :: rest => render node :: renderAll rest

end

/-- Rendering a list of nodes renders each of them. -/
theorem renderAll_eq_map (nodes : List Node) : renderAll nodes = nodes.map render := by
  induction nodes with
  | nil => rfl
  | cons node rest ih => simp [renderAll, ih]

end Node

end DiceNotation
