import DiceNotation.Dice.Explode
import DiceNotation.Dice.Reroll
import DiceNotation.Dice.Select
import DiceNotation.Evaluation.Bounds
import DiceNotation.Evaluation.Comparing

/-! # Rolling dice and modifying rolls

Evaluating a `dice` node replaces its count and sides by one child per die rolled.  Evaluating
a modifier first evaluates the roll it stands on, then changes the dice of that roll in place,
and last renews the value of the `dice` node, which is the sum of the dice that count. -/

namespace DiceNotation.EvalM

/-! ## Rolls -/

/-- The sum of the dice of the node in focus that count. -/
def total : EvalM Number := do
  match Dice.liveNumbers? (← node).children with
  | none => throw .notANumber
  | some numbers => ofNumber (Number.sum numbers)

/-- Whether an amount is within its bounds.  If not, a problem is collected. -/
def within (bounds : Bounds) (amount : Int) : EvalM Bool := do
  if amount < bounds.least then
    report (bounds.tooFew amount)
    return false
  else
    match bounds.most with
    | none => return true
    | some limit =>
      if (limit : Int) < amount then
        note (bounds.warning amount limit)
        report (bounds.tooMany amount limit)
        return false
      else return true

/-- The sides of the roll in focus: an integer, or nothing for fate dice. -/
def rollSides : EvalM (Option Int) := do
  match (← node).children[1]? with
  | none => throw .missingChild
  | some child =>
    match child.kind, child.value? with
    | .diceSides, some value =>
      if value.isFate then return none
      else return some (← rounded (pure value))
    | _, _ => throw .noSides

/-- Roll the dice of the node in focus, within the limits. -/
def roll (rules : Rules) (evaluate : EvalM Value) : EvalM Value := do
  requireChildren 2
  let count ← onChild 0 (rounded evaluate)
  let sides ← rollSides
  let shown := (sides.map Value.int).getD .fate
  -- Count and sides are kept on the node even if the roll is not allowed.
  modifyNode fun n => ((n.withChildren []).set "count" (.int count)).set "sides" shown
  -- Both checks are made: a roll can have two problems.
  let countAllowed ← within rules.limits.onCount count
  let sidesAllowed ← match sides with
    | none => pure true
    | some s => within rules.limits.onSides s
  if countAllowed && sidesAllowed then
    let faces : Faces := match sides with
      | none => ⟨-1, 1⟩
      | some s => ⟨1, s⟩
    let answers ← draw rules faces
    request faces count.toNat
    modifyNode fun n => n.withChildren (Dice.fresh shown answers count.toNat)
    note (.rolled count shown ((List.range count.toNat).map answers))
    return .number (← total)
  else return .int 0

/-! ## Modifiers -/

/-- Renew the value of the roll that first children of the operand lead to. -/
def refresh : EvalM Value :=
  onChild 0 <| onDice do
    let sum := Value.number (← total)
    setAttribute "value" sum
    return sum

/-- Evaluate the operand of the modifier in focus; the roll that it stands on. -/
def operandDice (evaluate : EvalM Value) : EvalM Node :=
  onChild 0 do
    let _ ← evaluate
    onDice node

/-- Put other dice into the roll that the modifier in focus stands on. -/
def setDice (dice : List Node) : EvalM Unit :=
  onChild 0 (onDice (modifyNode fun n => n.withChildren dice))

/-- The sides of a rolled `dice` node and the faces that go with them. -/
def facesOf (dice : Node) : EvalM (Value × Faces) := do
  match dice.get? "sides" with
  | none => throw .notANumber
  | some sides =>
    match ← ofNumber (Dice.faces sides) with
    | none => throw .notANumber
    | some faces => return (sides, faces)

/-- The condition of the modifier in focus, to be applied to the dice `examined`.  Its threshold
    is evaluated once, and only if there is a die to examine. -/
def modifierCondition (evaluate : EvalM Value) (default : Condition) (examined : List Node) :
    EvalM Condition := do
  if (← childCount) < 2 ∨ examined.isEmpty then return default
  else
    let c ← onChild 1 (condition evaluate)
    requireTestable c examined
    return c

/-- Let the dice explode that meet the condition, or that show the greatest face. -/
def explode (rules : Rules) (evaluate : EvalM Value) : EvalM Value := do
  requireChildrenUpTo 2
  let dice ← operandDice evaluate
  let (sides, faces) ← facesOf dice
  let penetrating := (← node).hasText "penetrate" "yes"
  let limit := rules.limits.maxIterations
  let c ← modifierCondition evaluate (.face faces.high) (Dice.live dice.children)
  let answers ← draw rules faces
  let explosion := Dice.explode c answers (Dice.extraDie sides penetrating) limit 0 dice.children
  request faces explosion.draws
  setDice explosion.dice
  if explosion.capped then
    note (.explosionCap limit)
    report (.explosionLimit limit)
  note (.exploded explosion.draws)
  refresh

/-- Keep or drop dice by rank: as many as the second child says, or one. -/
def select (keep : Bool) (evaluate : EvalM Value) : EvalM Value := do
  requireChildrenUpTo 2
  let dice ← operandDice evaluate
  let amount ← if (← childCount) < 2 then pure 1 else onChild 1 (rounded evaluate)
  let highest := (← node).hasText "type" "highest"
  if (Dice.liveNumbers? dice.children).isNone then throw .notANumber
  setDice ((if keep then Dice.keep else Dice.drop) highest amount dice.children)
  refresh

/-- Mark the dice that meet the condition, or that show the greatest face for a critical success
    and the least face for a failure. -/
def critical (evaluate : EvalM Value) : EvalM Value := do
  requireChildrenUpTo 2
  let dice ← operandDice evaluate
  let (_, faces) ← facesOf dice
  let kind := ((← node).get? "type").getD "success"
  let default := if kind.isText "success" then faces.high else faces.low
  let c ← modifierCondition evaluate (.face default) dice.children
  setDice (Dice.markCritical c kind dice.children)
  refresh

/-- Roll the dice again that meet the condition, or that show the least face. -/
def reroll (rules : Rules) (evaluate : EvalM Value) : EvalM Value := do
  requireChildrenUpTo 2
  let dice ← operandDice evaluate
  let (_, faces) ← facesOf dice
  let once := (← node).hasText "once" "yes"
  let limit := rules.limits.maxIterations
  let c ← modifierCondition evaluate (.face faces.low) (Dice.live dice.children)
  let answers ← draw rules faces
  let rerolled := Dice.reroll c answers once limit 0 dice.children
  request faces rerolled.draws
  setDice rerolled.dice
  if rerolled.capped then
    note (.rerollCap limit)
    report (.rerollLimit limit)
  refresh

/-- Put the dice in order of value. -/
def sort (evaluate : EvalM Value) : EvalM Value := do
  requireChildrenUpTo 1
  let dice ← operandDice evaluate
  let descending := (← node).hasText "direction" "descending"
  if (dice.children.mapM Node.number?).isNone then throw .notANumber
  setDice (Dice.sort descending dice.children)
  refresh

/-- Evaluate a modifier. -/
def modifier (rules : Rules) (evaluate : EvalM Value) : Modifier → EvalM Value
  | .explode => explode rules evaluate
  | .keep => select true evaluate
  | .drop => select false evaluate
  | .critical => critical evaluate
  | .reroll => reroll rules evaluate
  | .sort => sort evaluate

end DiceNotation.EvalM
