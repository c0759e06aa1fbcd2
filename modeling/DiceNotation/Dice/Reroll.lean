import DiceNotation.Dice.Basic

/-! # Rolling dice again

Each die that meets the condition is rolled again: once, or until it no longer meets it.  Every
die has its own budget of rerolls; a die that still meets the condition when its budget is used
up is `capped`.  Dropped dice stay as they are. -/

namespace DiceNotation.Dice

/-- What rerolling leaves of one die. -/
structure RerolledDie where
  /-- The value in the end. -/
  value : Option Value
  /-- How often the die was rolled again. -/
  count : Nat
  /-- Whether a due reroll was not made for lack of budget. -/
  capped : Bool

/-- Roll a die of the given value again as often as it is due. -/
def rerollValue (condition : Condition) (draw : Draw) (once : Bool) : (budget drawn : Nat) →
    Option Value → RerolledDie
  | 0, _, value => ⟨value, 0, condition.holds value⟩
  | budget + 1, drawn, value =>
    if condition.holds value then
      let face := some (Value.int (draw drawn))
      if once then ⟨face, 1, false⟩
      else
        let rest := rerollValue condition draw once budget (drawn + 1) face
        { rest with count := rest.count + 1 }
    else ⟨value, 0, false⟩

/-- What rerolling leaves of a list of dice. -/
structure Rerolled where
  dice : List Node
  /-- How many draws were made. -/
  draws : Nat
  /-- Whether some die was capped. -/
  capped : Bool

/-- The die after its rerolls, which are counted on it. -/
def RerolledDie.applyTo (rerolled : RerolledDie) (die : Node) : Node :=
  match rerolled.count, rerolled.value with
  | 0, _ => die
  | _, none => die
  | count, some value => (die.set "value" value).set "rerolled" (.int count)

/-- Roll dice again from left to right. -/
def reroll (condition : Condition) (draw : Draw) (once : Bool) (budget : Nat) :
    (drawn : Nat) → List Node → Rerolled
  | drawn, [] => ⟨[], drawn, false⟩
  | drawn, die :: dice =>
    if die.isDropped then
      let rest := reroll condition draw once budget drawn dice
      { rest with dice := die :: rest.dice }
    else
      let rerolled := rerollValue condition draw once budget drawn die.value?
      let rest := reroll condition draw once budget (drawn + rerolled.count) dice
      { rest with
        dice := rerolled.applyTo die :: rest.dice
        capped := rerolled.capped || rest.capped }

end DiceNotation.Dice
