import DiceNotation.Evaluation.Focus
import DiceNotation.Limits

/-! # The rules of an evaluation

An evaluation depends on its limits, on the functions that expressions may call, and on where
random numbers come from.  A `Source` answers the `k`-th request of an evaluation, given the
range that is asked for.

A function is a step with the function node in focus.  It gets the step that evaluates the
node in focus, and uses it on the arguments it needs. -/

namespace DiceNotation

/-- Where random numbers come from: the answer to the request of the given number. -/
abbrev Source := Nat → Faces → Int

/-- A function of dice expressions. -/
structure DiceFunction where
  /-- The function's own name, which may differ from the name it is called by. -/
  label : String
  /-- What the function does with its node, given how to evaluate a node. -/
  run : EvalM Value → EvalM Value

/-- The functions that expressions may call, by name. -/
abbrev FunctionTable := OrderedMap DiceFunction

/-- What an evaluation depends on. -/
structure Rules where
  limits : Limits
  functions : FunctionTable
  source : Source

namespace EvalM

/-- Evaluate a node to a number. -/
def number (evaluate : EvalM Value) : EvalM Number := do
  match (← evaluate).number? with
  | some n => return n
  | none => throw .notANumber

/-- Evaluate a node to a number and round it to an integer. -/
def rounded (evaluate : EvalM Value) : EvalM Int := do
  ofNumber (← number evaluate).roundHalfUp

/-- The answers to the requests that come next, all for the same range. -/
def draw (rules : Rules) (faces : Faces) : EvalM Draw := do
  let made := (← get).record.requests.size
  return fun k => rules.source (made + k) faces

/-- Record requests for a random number. -/
def request (faces : Faces) (count : Nat) : EvalM Unit :=
  modifyRecord fun r => r.request faces count

end EvalM

end DiceNotation
