import DiceNotation.Node.Basic

/-! # Problems and notes

A `Problem` is something that goes wrong in an evaluation without ending it: the node in
question counts zero or is cut off, and the problem is collected.  A `Note` is a line of the
evaluation's log. -/

namespace DiceNotation

/-- What can go wrong without ending an evaluation. -/
inductive Problem where
  /-- A division or a remainder by zero. -/
  | divisionByZero
  /-- An operation that fails on its operands. -/
  | invalidOperation (op : Operator) (left right : Value) (reason : NumberError)
  /-- An operation whose result is not finite. -/
  | overflow (op : Operator) (left right : Value)
  /-- A roll of fewer than no dice. -/
  | negativeRolls (count : Int)
  /-- A roll of more dice than allowed. -/
  | tooManyRolls (count : Int) (limit : Nat)
  /-- Dice without sides. -/
  | tooFewSides (sides : Int)
  /-- Dice with more sides than allowed. -/
  | tooManySides (sides : Int) (limit : Nat)
  /-- A group with more repeats than allowed. -/
  | tooManyRepeats (times : Value) (limit : Nat)
  /-- A due explosion is left undone. -/
  | explosionLimit (limit : Nat)
  /-- A due reroll is left undone. -/
  | rerollLimit (limit : Nat)
  /-- A function that needs one argument and has another number of them. -/
  | argumentCount (name : Option Value) (found : Nat)
  /-- A square root of a negative number. -/
  | negativeRoot (value : Number)
  /-- A problem that a function or a caller reports. -/
  | reported (message : String)

namespace Problem

/-- The message of a problem. -/
def message : Problem → String
  | divisionByZero => "Division by zero."
  | invalidOperation op left right reason =>
    s!"Invalid {op.name.toLower} of {left.toText} and {right.toText}: {reason.message}."
  | overflow op left right =>
    s!"Numeric overflow in {op.name.toLower} of {left.toText} and {right.toText}."
  | negativeRolls count => s!"Invalid number of rolls: {count}. Minimum allowed: 0."
  | tooManyRolls count limit => s!"Invalid number of rolls: {count}. Maximum allowed: {limit}."
  | tooFewSides sides => s!"Invalid number of dice sides: {sides}. Minimum allowed: 1."
  | tooManySides sides limit =>
    s!"Invalid number of dice sides: {sides}. Maximum allowed: {limit}."
  | tooManyRepeats times limit =>
    s!"Invalid number of repeats: {times.toText}. Maximum allowed: {limit}."
  | explosionLimit limit => s!"Maximum number of explosions reached: {limit}."
  | rerollLimit limit => s!"Maximum number of rerolls reached: {limit}."
  | argumentCount name found =>
    s!"Function {Value.optionText name} expects 1 argument, got {found}."
  | negativeRoot value => s!"Cannot take the square root of {value.text}."
  | reported message => message

/-- The values that stand in the message of a problem. -/
def values : Problem → List Value
  | invalidOperation _ left right _ => [left, right]
  | overflow _ left right => [left, right]
  | negativeRolls count => [.int count]
  | tooManyRolls count limit => [.int count, .int limit]
  | tooFewSides sides => [.int sides]
  | tooManySides sides limit => [.int sides, .int limit]
  | tooManyRepeats times limit => [times, .int limit]
  | explosionLimit limit => [.int limit]
  | rerollLimit limit => [.int limit]
  | argumentCount name _ => name.toList
  | negativeRoot value => [value]
  | _ => []

/-- Whether the message of a problem can be written: no number in it has too many digits. -/
def isWritable (problem : Problem) : Bool := problem.values.all Value.isWritable

end Problem

/-- A line of the log of an evaluation. -/
inductive Note where
  /-- Dice were rolled. -/
  | rolled (count : Int) (sides : Value) (faces : List Int)
  /-- Dice have exploded so many times. -/
  | exploded (times : Nat)
  /-- A problem was collected. -/
  | collected (problem : Problem)
  /-- A roll has more dice than allowed. -/
  | rollsAboveLimit (count : Int) (limit : Nat)
  /-- Dice have more sides than allowed. -/
  | sidesAboveLimit (sides : Int) (limit : Nat)
  /-- A group has more repeats than allowed. -/
  | repeatsAboveLimit (times : Value) (limit : Nat)
  /-- Explosions were cut off. -/
  | explosionCap (limit : Nat)
  /-- Rerolls were cut off. -/
  | rerollCap (limit : Nat)

/-- How important a line of a log is. -/
inductive LogLevel where
  | debug
  | warning
deriving DecidableEq, Repr

/-- The name of a level. -/
def LogLevel.name : LogLevel → String
  | debug => "DEBUG"
  | warning => "WARNING"

namespace Note

/-- The level of a note: reaching a limit is a warning. -/
def level : Note → LogLevel
  | rolled .. | exploded _ | collected _ => .debug
  | _ => .warning

/-- The text of a note. -/
def message : Note → String
  | rolled count sides faces =>
    let shown := ", ".intercalate (faces.map toString)
    s!"rolled {count}d{sides.toText}: [{shown}]"
  | exploded times => s!"exploded {times} time(s)"
  | collected problem => "collected error: " ++ problem.message
  | rollsAboveLimit count limit => s!"roll count {count} exceeds limit {limit}"
  | sidesAboveLimit sides limit => s!"dice sides {sides} exceed limit {limit}"
  | repeatsAboveLimit times limit => s!"group repeat {times.toText} exceeds limit {limit}"
  | explosionCap limit => s!"explosion cap of {limit} reached"
  | rerollCap limit => s!"reroll cap of {limit} reached"

end Note

end DiceNotation
