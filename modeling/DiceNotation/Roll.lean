import DiceNotation.Evaluation.Evaluate
import DiceNotation.Node.Render
import DiceNotation.Parser.Expression

/-! # Rolling an expression

`rollText` reads a text and evaluates it.  A text with diagnostics is not evaluated: its result
is zero, with the partial tree and the diagnostics' messages as errors. -/

namespace DiceNotation

/-- The result of rolling an expression. -/
structure RollResult where
  tree : Node
  total : Value
  successes : Nat
  failures : Nat
  /-- The messages of all diagnostics or problems. -/
  errors : List String

/-- Why rolling an expression has no result. -/
inductive RollFault where
  /-- A numeral cannot be read. -/
  | reading (e : Numeral.ReadError)
  /-- The evaluation has no value. -/
  | evaluation (e : Fault)

/-- The result of an evaluation. -/
def Outcome.toResult (outcome : Outcome) : RollResult :=
  ⟨outcome.tree, outcome.total, outcome.successes, outcome.failures,
    outcome.problems.map Problem.message⟩

/-- The result of a text that was not evaluated. -/
def ParseResult.toResult (parsed : ParseResult) : RollResult :=
  ⟨parsed.root, .int 0, 0, 0, parsed.diagnostics.map Diagnostic.message⟩

/-- Evaluate what was read from a text, unless there are diagnostics; also the record of the
    evaluation, kept on a failure. -/
def ParseResult.roll (parsed : ParseResult) (rules : Rules) : Except Fault RollResult × Record :=
  if parsed.ok then
    let (result, record) := interpret rules parsed.root {}
    (result.map Outcome.toResult, record)
  else (.ok parsed.toResult, {})

/-- Read and evaluate a text; also the record of the evaluation. -/
def rollText (rules : Rules) (text : String) : Except RollFault RollResult × Record :=
  match parse text with
  | .error e => (.error (.reading e), {})
  | .ok parsed =>
    let (result, record) := parsed.roll rules
    (result.mapError .evaluation, record)

namespace RollResult

/-- A result in two lines: the expression as it was rolled with its total, and the numbers of
    successes and failures if there are any. -/
def summary (result : RollResult) : Except RenderFault (List String) := do
  let rendered ← result.tree.render
  if !result.total.isWritable then throw .tooManyDigits
  let counts := s!"successes: {result.successes}, fails: {result.failures}"
  return (rendered ++ " = " ++ result.total.toText) ::
    if result.successes = 0 ∧ result.failures = 0 then [] else [counts]

end RollResult

end DiceNotation
