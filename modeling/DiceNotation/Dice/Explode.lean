import DiceNotation.Dice.Basic

/-! # Exploding dice

Each die that meets the condition brings an extra die with it, which may bring another one in
turn.  The extra dice follow the die they come from.  Dropped dice bring none.  All dice
together share one budget of extra dice; when it is used up and a die would still explode, the
explosion is `capped` and the remaining dice are left as they are. -/

namespace DiceNotation.Dice

/-- What an explosion leaves. -/
structure Explosion where
  /-- All dice, old and new. -/
  dice : List Node
  /-- How many draws were made. -/
  draws : Nat
  /-- Whether a due extra die was not made for lack of budget. -/
  capped : Bool

/-- The draws for the extra dice that follow a die of the given value, and whether the budget
    cut them off. -/
def chain (condition : Condition) (draw : Draw) : (budget drawn : Nat) → Option Value →
    List Int × Bool
  | 0, _, value => ([], condition.holds value)
  | budget + 1, drawn, value =>
    if condition.holds value then
      let face := draw drawn
      let rest := chain condition draw budget (drawn + 1) (some (.int face))
      (face :: rest.1, rest.2)
    else ([], false)

/-- Explode the dice from left to right; `extra` makes the extra die of a draw. -/
def explode (condition : Condition) (draw : Draw) (extra : Int → Node) :
    (budget drawn : Nat) → List Node → Explosion
  | _, drawn, [] => ⟨[], drawn, false⟩
  | budget, drawn, die :: dice =>
    if die.isDropped then
      let rest := explode condition draw extra budget drawn dice
      { rest with dice := die :: rest.dice }
    else
      let faces := chain condition draw budget drawn die.value?
      let count := faces.1.length
      let shown := die :: faces.1.map extra
      -- A chain that was cut off ends the explosion: the dice behind stay as they are.
      if faces.2 then ⟨shown ++ dice, drawn + count, true⟩
      else
        let rest := explode condition draw extra (budget - count) (drawn + count) dice
        { rest with dice := shown ++ rest.dice }

/-- The extra die of a draw; a penetrating one counts one less than the draw. -/
def extraDie (sides : Value) (penetrating : Bool) (face : Int) : Node :=
  (die sides (if penetrating then face - 1 else face)).set "explode" "yes"

/-- A die explodes no more often than its budget allows. -/
theorem length_chain_le (condition : Condition) (draw : Draw) (budget drawn : Nat)
    (value : Option Value) : (chain condition draw budget drawn value).1.length ≤ budget := by
  induction budget generalizing drawn value with
  | zero => simp [chain]
  | succ budget ih =>
    unfold chain
    split
    · simpa using ih _ _
    · simp

end DiceNotation.Dice
