import DiceNotation.Evaluation.Problem
import DiceNotation.Limits

/-! # Bounds of amounts

The number of dice of a roll and the number of their sides are checked in the same way: neither
may be below a least amount, nor above a limit if there is one.  `Bounds` holds what is different:
the least amount, the limit, and what is said of an amount that is out of bounds. -/

namespace DiceNotation

/-- The bounds of an amount, and what is said of one that lies outside them. -/
structure Bounds where
  /-- The least amount that is allowed. -/
  least : Int
  /-- The greatest amount that is allowed, if there is one. -/
  most : Option Nat
  /-- The problem with an amount that is too small. -/
  tooFew : Int → Problem
  /-- The problem with an amount that is too great. -/
  tooMany : Int → Nat → Problem
  /-- The line of the log for an amount that is too great. -/
  warning : Int → Nat → Note
  /-- What is said of too small an amount names the amount. -/
  tooFew_values : ∀ n, (tooFew n).values = [.int n]
  /-- What is said of too great an amount names the amount and the limit. -/
  tooMany_values : ∀ n limit, (tooMany n limit).values = [.int n, .int limit]

namespace Limits

/-- The bounds of the number of dice of a roll. -/
def onCount (limits : Limits) : Bounds where
  least := 0
  most := limits.maxRolls
  tooFew := .negativeRolls
  tooMany := .tooManyRolls
  warning := .rollsAboveLimit
  tooFew_values _ := rfl
  tooMany_values _ _ := rfl

/-- The bounds of the number of sides of a die. -/
def onSides (limits : Limits) : Bounds where
  least := 1
  most := limits.maxSides
  tooFew := .tooFewSides
  tooMany := .tooManySides
  warning := .sidesAboveLimit
  tooFew_values _ := rfl
  tooMany_values _ _ := rfl

end Limits

end DiceNotation
