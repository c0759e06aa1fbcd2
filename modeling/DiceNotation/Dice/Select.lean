import DiceNotation.Dice.Basic

/-! # Keeping, dropping and sorting dice

Dice are ranked by value with a stable sort, so of equal dice the one that comes first in the
list ranks first, whether the ranking goes up or down.  `keep` and `drop` rank the dice that
still count and mark them; `sort` reorders the dice themselves. -/

namespace DiceNotation.Dice

/-- Whether the first value may stand before the second one in a ranking. -/
def ranksBefore (descending : Bool) (a b : Option Number) : Bool :=
  match a, b with
  | some m, some n => if descending then !m.lt n else !n.lt m
  | _, _ => true

/-- The places of the dice that count, ranked by value. -/
def ranking (descending : Bool) (dice : List Node) : List Nat :=
  let candidates := dice.zipIdx.filter fun entry => !entry.1.isDropped
  let ranked := candidates.mergeSort fun a b =>
    ranksBefore descending a.1.number? b.1.number?
  ranked.map Prod.snd

/-- The places of the first `amount` dice of the ranking; a negative amount selects none. -/
def selection (highest : Bool) (amount : Int) (dice : List Node) : List Nat :=
  (ranking highest dice).take amount.toNat

/-- Drop all dice that count but the first `amount` of the ranking. -/
def keep (highest : Bool) (amount : Int) (dice : List Node) : List Node :=
  let selected := selection highest amount dice
  dice.zipIdx.map fun entry =>
    if entry.1.isDropped then entry.1
    else entry.1.set "drop" (if selected.contains entry.2 then "no" else "yes")

/-- Drop the first `amount` dice of the ranking. -/
def drop (highest : Bool) (amount : Int) (dice : List Node) : List Node :=
  let selected := selection highest amount dice
  dice.zipIdx.map fun entry =>
    if selected.contains entry.2 then entry.1.set "drop" "yes" else entry.1

/-- Order the dice by value, dropped ones included. -/
def sort (descending : Bool) (dice : List Node) : List Node :=
  dice.mergeSort fun a b => ranksBefore descending a.number? b.number?

/-- Mark the dice that meet the condition as critical, dropped ones included. -/
def markCritical (condition : Condition) (kind : Value) (dice : List Node) : List Node :=
  dice.map fun die => if condition.holds die.value? then die.set "critical" kind else die

/-- Keeping marks dice, and neither adds nor removes one. -/
theorem length_keep (highest : Bool) (amount : Int) (dice : List Node) :
    (keep highest amount dice).length = dice.length := by
  simp [keep]

/-- Dropping marks dice, and neither adds nor removes one. -/
theorem length_drop (highest : Bool) (amount : Int) (dice : List Node) :
    (drop highest amount dice).length = dice.length := by
  simp [drop]

/-- Sorting rearranges the dice. -/
theorem sort_perm (descending : Bool) (dice : List Node) :
    (sort descending dice).Perm dice :=
  List.mergeSort_perm dice _

end DiceNotation.Dice
