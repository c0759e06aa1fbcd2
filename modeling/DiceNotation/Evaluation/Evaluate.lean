import DiceNotation.Evaluation.Functions
import DiceNotation.Evaluation.Rolling
import DiceNotation.Node.Walk

/-! # Evaluating trees

`evaluate` computes the value of the node in focus and stores it there.  A node that has a
value is left as it is, so nothing below it is computed or rolled twice.

The rule for each kind of node takes the step that evaluates a node as a parameter.
`evaluateWithin` ties the knot for trees up to a given depth; an evaluation never makes a tree
deeper, so the depth at the start is enough.  The call stack is taken to be unbounded: trees of
every depth are evaluated, and a recursion limit of the machine is not part of the model. -/

namespace DiceNotation

/-- Apply an operator to two numbers. -/
def Operator.apply : Operator → Number → Number → Except NumberError Number
  | add => Number.add
  | subtract => Number.subtract
  | multiply => Number.multiply
  | divide => Number.divide
  | modulo => Number.modulo
  | exponent => Number.power

namespace EvalM

/-- Evaluate an operation.  Where it fails or is not finite, it counts zero and a problem is
    collected. -/
def arithmetic (op : Operator) (evaluate : EvalM Value) : EvalM Value := do
  requireChildren 2
  let left ← onChild 0 evaluate
  let right ← onChild 1 evaluate
  match left.number?, right.number? with
  | some a, some b =>
    match op.apply a b with
    | .ok result =>
      if result.isUnbounded then
        report (.overflow op left right)
        return .int 0
      else return .number result
    | .error .divisionByZero =>
      report .divisionByZero
      return .int 0
    | .error e =>
      report (.invalidOperation op left right e)
      return .int 0
  | _, _ => throw .notANumber

/-- Evaluate a negation. -/
def negation (evaluate : EvalM Value) : EvalM Value := do
  requireChildren 1
  return .number (← onChild 0 (number evaluate)).negate

/-- Put as many copies of a group's members in their place as its repeats say.  If there are too
    many repeats, the group is emptied and a problem is collected. -/
def expandGroup (limits : Limits) : EvalM Unit := do
  let group ← node
  match group.get? "repeat" with
  | none => pure ()
  | some repeats =>
    -- The repeats are forgotten before anything can fail, so a group is expanded only once.
    modifyNode fun n => n.unset "repeat"
    match repeats.number? with
    | none => throw .notANumber
    | some times =>
      let excess := limits.maxRolls.filter fun (limit : Nat) => (Number.int limit).lt times
      match excess with
      | some limit =>
        note (.repeatsAboveLimit repeats limit)
        report (.tooManyRepeats repeats limit)
        modifyNode fun n => n.withChildren []
      | none =>
        modifyNode fun n => n.withChildren []
        let count ← ofNumber times.truncate
        let copies := (List.replicate count.toNat group.children).flatten
        modifyNode fun n => (n.withChildren copies).set "repeated" repeats

/-- Evaluate a group: the sum of its members, from left to right. -/
def group (limits : Limits) (evaluate : EvalM Value) : EvalM Value := do
  expandGroup limits
  let sum ← foldChildren (fun acc => do ofNumber (acc.add (← number evaluate))) (Number.int 0)
  return .number sum

/-- Evaluate a function call. -/
def function (functions : FunctionTable) (evaluate : EvalM Value) : EvalM Value := do
  let name := (← node).get? "name"
  let known := match name with
    | some (.text s) => functions.get? s
    | _ => none
  match known with
  | none => throw (.unknownFunction name)
  | some f => f.run evaluate

/-- The value of the node in focus, which has none yet, given how to evaluate a node. -/
def compute (rules : Rules) (evaluate : EvalM Value) : EvalM Value := do
  let kind := (← node).kind
  match kind with
  | .integer | .diceSides | .diceRoll => throw (.noValue kind)
  | .operator op => arithmetic op evaluate
  | .negate => negation evaluate
  | .comparison _ => comparison evaluate
  | .dice => roll rules evaluate
  | .function => function rules.functions evaluate
  | .group => group rules.limits evaluate
  | .modifier m => modifier rules evaluate m

/-- Evaluate the node in focus, going down at most `levels` levels. -/
def evaluateWithin (rules : Rules) : (levels : Nat) → EvalM Value
  | 0 => throw .tooDeep
  | levels + 1 => do
    match (← node).value? with
    | some value => return value
    | none =>
      let value ← compute rules (evaluateWithin rules levels)
      setAttribute "value" value.normalize
      return value.normalize

/-- Evaluate the node in focus. -/
def evaluate (rules : Rules) : EvalM Value := do
  evaluateWithin rules (← node).depth

/-- A node is evaluated with as many levels as it is deep. -/
theorem evaluate_eq (rules : Rules) (node : Node) (record : Record) :
    evaluate rules ⟨node, record⟩ = evaluateWithin rules node.depth ⟨node, record⟩ := rfl

end EvalM

/-! ## Whole expressions -/

/-- What an evaluation of an expression comes to. -/
structure Outcome where
  /-- The expression, with all dice rolled. -/
  tree : Node
  total : Value
  successes : Nat
  failures : Nat
  problems : List Problem

/-- Evaluate a copy of a tree, starting without problems.  The record is kept on a failure. -/
def interpret (rules : Rules) (tree : Node) (record : Record) : Except Fault Outcome × Record :=
  match (EvalM.evaluate rules).run ⟨tree, { record with problems := #[] }⟩ with
  | .error e t => (.error e, t.record)
  | .ok total t =>
    (.ok ⟨t.node, total, t.node.successes, t.node.failures, t.record.problems.toList⟩, t.record)

/-- An interpretation is an evaluation within the depth of the tree. -/
theorem interpret_eq (rules : Rules) (tree : Node) (record : Record) :
    interpret rules tree record =
      match EvalM.evaluateWithin rules tree.depth ⟨tree, { record with problems := #[] }⟩ with
      | .error e t => (.error e, t.record)
      | .ok total t => (.ok ⟨t.node, total, t.node.successes, t.node.failures,
          t.record.problems.toList⟩, t.record) := rfl

end DiceNotation
