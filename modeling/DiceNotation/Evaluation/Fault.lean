import DiceNotation.Node.Basic

/-! # Faults

A fault ends an evaluation.  It comes from a tree that is not well formed, from a function that
is not known or gives up, or from a number outside the range of a computation that has no
fallback.  Everything else that goes wrong is a `Problem`: it is collected, and the evaluation
goes on. -/

namespace DiceNotation

/-- Why an evaluation has no value. -/
inductive Fault where
  /-- The node does not have exactly the children it needs. -/
  | wrongChildCount (kind : NodeKind) (needed found : Nat)
  /-- The node has no child or more than it may have. -/
  | childCountOutOfRange (kind : NodeKind) (most found : Nat)
  /-- A literal without its value. -/
  | noValue (kind : NodeKind)
  /-- A dice roll without sides. -/
  | noSides
  /-- A comparison is needed, and this is none. -/
  | notAComparison (kind : NodeKind)
  /-- A comparison without anything to compare with. -/
  | noOperand (kind : NodeKind)
  /-- Following first children from this node leads to no dice roll. -/
  | noDice (kind : NodeKind)
  /-- There is no function of this name. -/
  | unknownFunction (name : Option Value)
  /-- A function gives up. -/
  | raised (message : String)
  /-- A number is out of the range of a computation. -/
  | outOfRange (e : NumberError)
  /-- An integer has too many digits to be written into a message. -/
  | tooManyDigits
  /-- Something that is no number is computed with. -/
  | notANumber
  /-- There is no child at this place. -/
  | missingChild
  /-- The evaluation went below the bottom of the tree. -/
  | tooDeep
deriving Inhabited

/-- Whether the evaluation refuses the tree or a function gives up, rather than breaking down on
    a number or a place that is not there. -/
def Fault.isRefusal : Fault → Bool
  | outOfRange _ | tooManyDigits | notANumber | missingChild | tooDeep => false
  | _ => true

/-- What is said of a fault. -/
def Fault.message : Fault → String
  | wrongChildCount kind needed found =>
    s!"{kind.name} node requires exactly {needed} children, found {found}"
  | childCountOutOfRange kind most found =>
    s!"{kind.name} node requires 1 to {most} children, found {found}"
  | noValue kind => s!"{kind.name} node has no value"
  | noSides => "Dice node requires a valued DiceSides child"
  | notAComparison kind => s!"{kind.name} is not a comparison"
  | noOperand kind => s!"{kind.name} node has no operand"
  | noDice kind => s!"No dice node found under {kind.name}"
  | unknownFunction name => "Unknown function: " ++ Value.optionText name
  | raised message => message
  | outOfRange e => e.message
  | tooManyDigits => "integer has too many digits"
  | notANumber => "not a number"
  | missingChild => "missing child"
  | tooDeep => "tree is too deep"

end DiceNotation
