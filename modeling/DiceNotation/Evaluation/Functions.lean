import DiceNotation.Evaluation.Rules

/-! # The functions that are always there

`abs`, `ceil`, `floor`, `round` and `sqrt` take one argument each.  With any other number of
arguments they evaluate none of them: the call counts zero and a problem is collected. -/

namespace DiceNotation

namespace DiceFunction

open EvalM

/-- The value of the only argument, or nothing and a problem if there is not exactly one. -/
def singleArgument (evaluate : EvalM Value) : EvalM (Option Number) := do
  let node ← node
  if node.childCount ≠ 1 then
    report (.argumentCount (node.get? "name") node.childCount)
    return none
  else return some (← onChild 0 (number evaluate))

/-- A function of one number. -/
def ofNumber (label : String) (f : Number → EvalM Number) : DiceFunction where
  label := label
  run evaluate := do
    match ← singleArgument evaluate with
    | none => return .int 0
    | some n => return .number (← f n)

/-- A function of one number to the integers. -/
def toInteger (label : String) (f : Number → Except NumberError Int) : DiceFunction :=
  ofNumber label fun n => return .int (← EvalM.ofNumber (f n))

/-- The square root; a negative number counts zero, and a problem is collected. -/
def squareRoot (n : Number) : EvalM Number := do
  if n.lt 0 then
    report (.negativeRoot n)
    return 0
  else EvalM.ofNumber n.sqrt

end DiceFunction

namespace FunctionTable

/-- The functions that are always there. -/
def default : FunctionTable :=
  .ofList
    [("abs", .ofNumber "abs" fun n => pure n.abs),
      ("ceil", .toInteger "ceil" Number.ceil),
      ("floor", .toInteger "floor" Number.floor),
      ("round", .toInteger "round" Number.roundHalfUp),
      ("sqrt", .ofNumber "sqrt" DiceFunction.squareRoot)]

/-- The table with the given functions over its own, if any are given. -/
def overridden (table : FunctionTable) (given : Option FunctionTable) : FunctionTable :=
  table.merge (given.getD .empty)

/-- What holds of these functions holds of the one that is found under a name. -/
theorem of_default {P : DiceFunction → Prop} {name : String} {f : DiceFunction}
    (known : default.get? name = some f) (abs : P (.ofNumber "abs" fun n => pure n.abs))
    (ceil : P (.toInteger "ceil" Number.ceil)) (floor : P (.toInteger "floor" Number.floor))
    (round : P (.toInteger "round" Number.roundHalfUp))
    (sqrt : P (.ofNumber "sqrt" DiceFunction.squareRoot)) : P f := by
  -- The table is a literal, so a lookup that succeeds names one of its entries.
  have entries : default.entries =
      [("abs", .ofNumber "abs" fun n => pure n.abs), ("ceil", .toInteger "ceil" Number.ceil),
        ("floor", .toInteger "floor" Number.floor),
        ("round", .toInteger "round" Number.roundHalfUp),
        ("sqrt", .ofNumber "sqrt" DiceFunction.squareRoot)] := rfl
  unfold OrderedMap.get? at known
  obtain ⟨before, behind, split, -⟩ := List.lookup_eq_some_iff.mp known
  have listed : (name, f) ∈ default.entries := by
    rw [split]
    exact List.mem_append_right _ List.mem_cons_self
  rw [entries] at listed
  simp only [List.mem_cons, Prod.mk.injEq, List.not_mem_nil, or_false] at listed
  rcases listed with ⟨-, rfl⟩ | ⟨-, rfl⟩ | ⟨-, rfl⟩ | ⟨-, rfl⟩ | ⟨-, rfl⟩
  · exact abs
  · exact ceil
  · exact floor
  · exact round
  · exact sqrt

end FunctionTable

end DiceNotation
