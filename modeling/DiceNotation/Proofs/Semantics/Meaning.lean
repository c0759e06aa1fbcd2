import DiceNotation.Evaluation.Evaluate
import DiceNotation.Proofs.Semantics.Dice

/-! # The meaning of expressions

`meaning` is a semantics of expressions by recursion on the expression: each part is evaluated
where it stands and nothing is remembered of it but its `Meaning`.  There is no tree that changes
and no value that is kept for later.

Evaluation goes from left to right.  The right side of a comparison is evaluated only if there is
something to test, and the argument of a function only if it is the only one. -/

namespace DiceNotation

open DiceNotation.Expr (Sides Bound Step)

/-- What an evaluated expression is to the expressions around it. -/
structure Meaning where
  value : Number
  /-- What a comparison with the expression on its left side tests. -/
  targets : List Number

namespace Meaning

/-- A number, which is its own target. -/
def single (n : Number) : Meaning := ⟨n.normalize, [n.normalize]⟩

/-- A roll, whose dice are tested. -/
def ofDice (dice : List Die) : Meaning :=
  ⟨.int (Roll.total dice), (Roll.liveFaces dice).map Number.int⟩

/-- A group, whose members are tested. -/
def ofGroup (sum : Number) (members : List Number) : Meaning := ⟨sum.normalize, members⟩

end Meaning

namespace Sem

/-- Apply an operator.  Where it fails or is not finite, it counts zero and a problem is
    collected. -/
def operate (op : Operator) (a b : Number) : Sem Number :=
  match op.apply a b with
  | .ok result => do
    if result.isUnbounded then
      collect (.overflow op a b)
      return 0
    return result
  | .error .divisionByZero => do
    collect .divisionByZero
    return 0
  | .error e => do
    collect (.invalidOperation op a b e)
    return 0

/-- The square root; a negative number counts zero, and a problem is collected. -/
def squareRoot (n : Number) : Sem Number := do
  if n.lt 0 then
    collect (.negativeRoot n)
    return 0
  demand n.sqrt

/-- The function of a name, if there is one. -/
def function? (name : String) : Option (Number → Sem Number) :=
  match name with
  | "abs" => some fun n => return n.abs
  | "ceil" => some fun n => return .int (← demand n.ceil)
  | "floor" => some fun n => return .int (← demand n.floor)
  | "round" => some fun n => return .int (← demand n.roundHalfUp)
  | "sqrt" => some squareRoot
  | _ => none

/-- A function of the value of its only argument.  With another number of arguments it counts zero
    and a problem is collected. -/
def applyTo (name : String) (count : Nat) (f : Number → Sem Number) :
    Option (Sem Meaning) → Sem Number
  | some argument => do f (← argument).value
  | none => do
    collect (.argumentCount (some (.text name)) count)
    return 0

/-- Sum up `times` passes over the members of a group; `pass` adds the members to a sum. -/
def sumPasses (pass : Number → Sem (Number × List Number)) :
    (times : Nat) → (sum : Number) → Sem (Number × List Number)
  | 0, sum => return (sum, [])
  | times + 1, sum => do
    let (sum, first) ← pass sum
    let (sum, others) ← sumPasses pass times sum
    return (sum, first ++ others)

/-- Sum up a group that is repeated within the limits, or else nothing. -/
def sumGroup (limits : Limits) (repeats : Option Nat)
    (pass : Number → Sem (Number × List Number)) : Sem Meaning := do
  match repeats, limits.maxRolls with
  | some times, some limit =>
    if limit < times then
      collect (.tooManyRepeats (.int times) limit)
      return .ofGroup 0 []
  | _, _ => pure ()
  let (sum, members) ← sumPasses pass (repeats.getD 1) 0
  return .ofGroup sum members

/-- A group within the limit is summed up once for each repeat. -/
theorem sumGroup_within {limits : Limits} {repeats : Option Nat}
    {pass : Number → Sem (Number × List Number)}
    (h : ∀ times ∈ repeats, ∀ limit ∈ limits.maxRolls, times ≤ limit) :
    sumGroup limits repeats pass = do
      let (sum, members) ← sumPasses pass (repeats.getD 1) 0
      return .ofGroup sum members := by
  unfold sumGroup
  cases repeats with
  | none => rfl
  | some times =>
    cases hlimit : limits.maxRolls with
    | none => rfl
    | some limit =>
      dsimp only
      rw [if_neg (Nat.not_lt.mpr (h times rfl limit hlimit))]

/-- A group that is repeated too often is empty, and a problem is collected. -/
theorem sumGroup_above {limits : Limits} {times limit : Nat}
    {pass : Number → Sem (Number × List Number)}
    (hlimit : limits.maxRolls = some limit) (above : limit < times) :
    sumGroup limits (some times) pass = do
      collect (.tooManyRepeats (.int times) limit)
      return .ofGroup 0 [] := by
  unfold sumGroup
  rw [hlimit]
  dsimp only
  rw [if_pos above]

end Sem

open Sem

section

variable (limits : Limits) (source : Source)

mutual

/-- The meaning of an expression. -/
def meaning : Expr → Sem Meaning
  | .literal n => return .single (.int n)
  | .negate operand => do return .single (← meaning operand).value.negate
  | .binary op left right => do
    let a ← meaning left
    let b ← meaning right
    return .single (← operate op a.value b.value)
  | .compare op left right => do
    let tested ← meaning left
    if tested.targets.isEmpty then return .single 0
    let threshold ← meaning right
    let passed := tested.targets.countP fun target => op.relates target threshold.value
    return .single (.int passed)
  | .roll count sides steps => do
    let times ← demand (← meaning count).value.roundHalfUp
    let sides ← Roll.sideCount sides
    let dice ← Roll.start limits source times sides
    return .ofDice (← Roll.modify limits source (Roll.facesOf sides) steps dice)
  | .call name arguments =>
    match function? name with
    | none => throw (.unknownFunction (some (.text name)))
    | some f => do return .single (← applyTo name arguments.length f (meaningOfOnly arguments))
  | .group members repeats => sumGroup limits repeats (addMembers members)

/-- The meaning of the only argument of a function, if there is just one. -/
def meaningOfOnly : List Expr → Option (Sem Meaning)
  | [argument] => some (meaning argument)
  | _ => none

/-- Add members of a group to a sum; also their values. -/
def addMembers : List Expr → Number → Sem (Number × List Number)
  | [], sum => return (sum, [])
  | member :: others, sum => do
    let value := (← meaning member).value
    let sum ← demand (sum.add value)
    let (sum, values) ← addMembers others sum
    return (sum, value :: values)

end

end

end DiceNotation
