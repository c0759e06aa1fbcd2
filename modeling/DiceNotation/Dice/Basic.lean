import DiceNotation.Node.Basic

/-! # Dice

A rolled `dice` node has one `diceRoll` child per die.  A die holds its value; a dropped die
stays in the list and no longer counts.  The dice modifiers are functions on the list of dice.

A `Draw` answers the requests for random numbers of one modifier or roll: `draw k` is the
answer to its request number `k`. -/

namespace DiceNotation

/-- The answers to a run of requests for random numbers. -/
abbrev Draw := Nat → Int

/-- The least and the greatest face of a die. -/
structure Faces where
  low : Int
  high : Int
deriving DecidableEq, Repr

namespace Dice

/-- The faces of a die with the given sides: minus one to one for fate dice, else from one. -/
def faces (sides : Value) : Except NumberError (Option Faces) :=
  if sides.isFate then .ok (some ⟨-1, 1⟩)
  else
    match sides.number? with
    | none => .ok none
    | some n => n.truncate.map fun high => some ⟨1, high⟩

/-- A die that shows `face`. -/
def die (sides : Value) (face : Int) : Node :=
  .make .diceRoll [("value", .int face), ("sides", sides), ("drop", "no")] []

/-- The dice that count. -/
def live (dice : List Node) : List Node := dice.filter fun die => !die.isDropped

/-- The live dice are those that are not dropped. -/
theorem mem_live {die : Node} {dice : List Node} :
    die ∈ live dice ↔ die ∈ dice ∧ die.isDropped = false := by
  simp [live]

/-- The values of the dice that count, or nothing if one of them has no number. -/
def liveNumbers? (dice : List Node) : Option (List Number) := (live dice).mapM Node.number?

/-- The dice of a fresh roll. -/
def fresh (sides : Value) (draw : Draw) (count : Nat) : List Node :=
  (List.range count).map fun k => die sides (draw k)

/-- A fresh roll has as many dice as were asked for. -/
theorem length_fresh (sides : Value) (draw : Draw) (count : Nat) :
    (fresh sides draw count).length = count := by
  simp [fresh]

end Dice

/-! ## Conditions -/

namespace Comparison

/-- Whether a number stands in this relation to another one. -/
def relates (op : Comparison) (a b : Number) : Bool :=
  match op with
  | .equal => a.agree b
  | .greater => b.lt a
  | .greaterOrEqual => b.le a
  | .less => a.lt b
  | .lessOrEqual => a.le b

/-- Whether a value stands in this relation to another one.  Only `equal` relates values that
    are not both numbers. -/
def holds (op : Comparison) (left right : Value) : Bool :=
  match op, left.number?, right.number? with
  | .equal, _, _ => left.agree right
  | op, some a, some b => op.relates a b
  | _, _, _ => false

/-- Whether the two values can be compared: only `equal` takes values that are no numbers. -/
def admits (op : Comparison) (left : Option Value) (right : Value) : Bool :=
  op == .equal || ((left.bind Value.number?).isSome && right.number?.isSome)

end Comparison

/-- A comparison with a threshold, which dice are tested against. -/
structure Condition where
  op : Comparison
  threshold : Value

namespace Condition

/-- The condition of showing a certain face. -/
def face (n : Int) : Condition := ⟨.equal, .int n⟩

/-- Whether a value meets the condition; a missing one never does. -/
def holds (c : Condition) (value : Option Value) : Bool :=
  value.any fun v => c.op.holds v c.threshold

/-- Whether a value can be tested. -/
def admits (c : Condition) (value : Option Value) : Bool := c.op.admits value c.threshold

end Condition

end DiceNotation
