import DiceNotation.OrderedMap
import DiceNotation.Value

/-! # Expression trees

A `Node` has a kind, attributes and children.  The value computed for a node is its attribute
`value`; a node counts as evaluated as soon as the attribute is there.

Indices are integers: negative ones count from the end. -/

namespace DiceNotation

/-- The arithmetic operators. -/
inductive Operator where
  | add
  | subtract
  | multiply
  | divide
  | modulo
  | exponent
deriving DecidableEq, Repr

/-- The comparison operators. -/
inductive Comparison where
  | equal
  | greater
  | greaterOrEqual
  | less
  | lessOrEqual
deriving DecidableEq, Repr

/-- The modifiers of dice rolls. -/
inductive Modifier where
  | explode
  | keep
  | drop
  | critical
  | reroll
  | sort
deriving DecidableEq, Repr

/-- The kinds of nodes. -/
inductive NodeKind where
  | integer
  | diceSides
  | dice
  | diceRoll
  | operator (op : Operator)
  | negate
  | comparison (op : Comparison)
  | function
  | group
  | modifier (m : Modifier)
deriving DecidableEq, Repr

/-- The name of an operator. -/
def Operator.name : Operator → String
  | add => "Add"
  | subtract => "Subtract"
  | multiply => "Multiply"
  | divide => "Divide"
  | modulo => "Modulo"
  | exponent => "Exponent"

/-- The name of a comparison. -/
def Comparison.name : Comparison → String
  | equal => "Equal"
  | greater => "Greater"
  | greaterOrEqual => "GreaterOrEqual"
  | less => "Less"
  | lessOrEqual => "LessOrEqual"

/-- The name of a modifier. -/
def Modifier.name : Modifier → String
  | explode => "Explode"
  | keep => "Keep"
  | drop => "Drop"
  | critical => "Critical"
  | reroll => "Reroll"
  | sort => "Sort"

namespace NodeKind

/-- The name of a kind, as it stands in messages and in written trees. -/
def name : NodeKind → String
  | integer => "Integer"
  | diceSides => "DiceSides"
  | dice => "Dice"
  | diceRoll => "DiceRoll"
  | operator op => op.name
  | negate => "Negate"
  | comparison op => op.name
  | function => "Function"
  | group => "Group"
  | modifier m => m.name

/-- Every kind of node. -/
def all : List NodeKind :=
  [integer, diceSides, dice, diceRoll, operator .add, operator .subtract, operator .multiply,
    operator .divide, operator .modulo, operator .exponent, negate, comparison .equal,
    comparison .greater, comparison .greaterOrEqual, comparison .less, comparison .lessOrEqual,
    function, group, modifier .explode, modifier .keep, modifier .drop, modifier .critical,
    modifier .reroll, modifier .sort]

/-- The kind with the given name. -/
def ofName? (name : String) : Option NodeKind :=
  all.find? (·.name == name)

/-- No kind of node is missing from the list. -/
theorem mem_all (kind : NodeKind) : kind ∈ all := by
  cases kind with
  | operator op => cases op <;> decide
  | comparison op => cases op <;> decide
  | modifier m => cases m <;> decide
  | _ => decide

/-- Whether dice can be found below a node of this kind by following first children. -/
def isRoll : NodeKind → Bool
  | dice => true
  | modifier _ => true
  | _ => false

end NodeKind

/-- A node of an expression tree. -/
structure Node where
  kind : NodeKind
  attributes : OrderedMap Value
  children : List Node

namespace Node

instance : Inhabited Node := ⟨⟨.integer, .empty, []⟩⟩

/-- A node with the given attributes and children. -/
def make (kind : NodeKind) (attributes : List (String × Value)) (children : List Node) : Node :=
  ⟨kind, .ofList attributes, children⟩

/-- The literal `n`. -/
def integer (n : Int) : Node := make .integer [("value", .int n)] []

/-- The sides of a dice roll. -/
def diceSides (sides : Value) : Node := make .diceSides [("value", sides)] []

/-! ## Attributes -/

/-- The attribute of a name. -/
def get? (node : Node) (key : String) : Option Value := node.attributes.get? key

/-- Whether the node has an attribute of this name. -/
def has (node : Node) (key : String) : Bool := node.attributes.contains key

/-- Set an attribute. -/
def set (node : Node) (key : String) (value : Value) : Node :=
  { node with attributes := node.attributes.insert key value }

/-- Forget an attribute. -/
def unset (node : Node) (key : String) : Node :=
  { node with attributes := node.attributes.erase key }

/-- Whether an attribute is the given text. -/
def hasText (node : Node) (key text : String) : Bool :=
  (node.get? key).any (·.isText text)

/-- The computed value of the node. -/
def value? (node : Node) : Option Value := node.get? "value"

/-- The computed value of the node, if it is a number. -/
def number? (node : Node) : Option Number := node.value?.bind Value.number?

/-- Whether the die is dropped: it no longer counts. -/
def isDropped (die : Node) : Bool := die.hasText "drop" "yes"

/-! ## Children -/

/-- Put another child in the place of child `i`. -/
def setChild (node : Node) (i : Nat) (child : Node) : Node :=
  { node with children := node.children.set i child }

/-- Put other children in the place of all children. -/
def withChildren (node : Node) (children : List Node) : Node :=
  { node with children := children }

/-- The number of children. -/
def childCount (node : Node) : Nat := node.children.length

/-- Add a last child. -/
def addChild (node : Node) (child : Node) : Node :=
  { node with children := node.children ++ [child] }

/-- The place among `count` that an index stands for, if it is in range. -/
def position? (count : Nat) (index : Int) : Option Nat :=
  let place := if index < 0 then index + count else index
  if 0 ≤ place ∧ place < count then some place.toNat else none

/-- The child at an index. -/
def child? (node : Node) (index : Int) : Option Node :=
  (position? node.childCount index).bind fun i => node.children[i]?

/-- Insert a child before the one at an index; an index out of range means the nearer end. -/
def insertChild (node : Node) (index : Int) (child : Node) : Node :=
  let count := node.childCount
  let place := (if index < 0 then index + count else index).toNat
  { node with children := node.children.take place ++ child :: node.children.drop place }

@[simp] theorem kind_set (node : Node) (key : String) (value : Value) :
    (node.set key value).kind = node.kind := rfl

@[simp] theorem children_set (node : Node) (key : String) (value : Value) :
    (node.set key value).children = node.children := rfl

/-- A name that was set finds its value, and every other name what it found before. -/
@[simp] theorem get?_set (node : Node) (key name : String) (value : Value) :
    (node.set key value).get? name = if name = key then some value else node.get? name :=
  OrderedMap.get?_insert node.attributes key name value

/-- A name that was unset finds nothing, and every other name what it found before. -/
@[simp] theorem get?_unset (node : Node) (key name : String) :
    (node.unset key).get? name = if name = key then none else node.get? name :=
  OrderedMap.get?_erase node.attributes key name

@[simp] theorem get?_withChildren (node : Node) (children : List Node) (name : String) :
    (node.withChildren children).get? name = node.get? name := rfl

/-! ## Comparing trees -/

mutual

/-- Whether two trees are equal: the same kinds, the same children in the same order, and the
    same attributes in any order. -/
def same : Node → Node → Bool
  | ⟨kind, attributes, children⟩, ⟨kind', attributes', children'⟩ =>
    kind == kind' && sameAll children children' && attributes.agrees Value.same attributes'

/-- Whether two lists of trees are equal one by one. -/
def sameAll : List Node → List Node → Bool
  | [], [] => true
  | node :: rest, node' :: rest' => same node node' && sameAll rest rest'
  | _, _ => false

end

end Node

end DiceNotation
