import DiceNotation.Evaluation.Bounds
import DiceNotation.Evaluation.Rules
import DiceNotation.Proofs.Expr

/-! # Rolls as lists of dice

A roll denotes a list of dice, and a modifier makes another list of it.  Nothing is stored
anywhere: all that a computation (`Sem`) leaves behind is the `Trace` of the problems collected
and the random numbers asked for, one at a time.

* `rollDice`         the dice of a fresh roll
* `Step.transform`   what a modifier makes of the dice that it finds -/

namespace DiceNotation

open DiceNotation.Expr (Sides Bound Step)

/-- What can be observed of an evaluation: the problems and the ranges of the requests for random
    numbers, each in order. -/
structure Trace where
  problems : List Problem := []
  requests : List Faces := []

/-- A computation that is observed. -/
abbrev Sem := EStateM Fault Trace

namespace Sem

/-- Collect a problem, if its message can be written. -/
def collect (problem : Problem) : Sem Unit :=
  if problem.isWritable then
    modify fun trace => { trace with problems := trace.problems ++ [problem] }
  else throw .tooManyDigits

/-- The value of a computation with numbers that has no fallback. -/
def demand : Except NumberError α → Sem α
  | .ok a => return a
  | .error e => throw (.outOfRange e)

/-- Ask for a random number. -/
def ask (source : Source) (faces : Faces) : Sem Int := do
  let asked := (← get).requests
  modify fun trace => { trace with requests := asked ++ [faces] }
  return source asked.length faces

end Sem

/-- A die of a roll. -/
structure Die where
  face : Int
  /-- A dropped die does not count. -/
  dropped : Bool := false
deriving DecidableEq, Repr

namespace Roll

/-- The faces of the dice that count. -/
def liveFaces (dice : List Die) : List Int :=
  (dice.filter fun die => !die.dropped).map Die.face

/-- The value of a roll. -/
def total (dice : List Die) : Int := (liveFaces dice).sum

/-- The test that a modifier makes of a face; without a condition it is equality with `default`. -/
def test (bound : Option Bound) (default face : Int) : Bool :=
  match bound with
  | none => face = default
  | some b =>
    match b.op with
    | .equal => face = b.limit
    | .greater => b.limit < face
    | .greaterOrEqual => b.limit ≤ face
    | .less => face < b.limit
    | .lessOrEqual => face ≤ b.limit

/-! ## Exploding -/

/-- The draws that follow a die showing `face` within a budget, and whether one more was due. -/
def chain (ask : Sem Int) (due : Int → Bool) : (budget : Nat) → (face : Int) →
    Sem (List Int × Bool)
  | 0, face => return ([], due face)
  | budget + 1, face => do
    if due face then
      let next ← ask
      let (faces, capped) ← chain ask due budget next
      return (next :: faces, capped)
    else return ([], false)

/-- The dice with the extra dice, each behind the die it comes from, and whether the budget cut
    them off. -/
def explode (ask : Sem Int) (due : Int → Bool) (penetrating : Bool) :
    (budget : Nat) → List Die → Sem (List Die × Bool)
  | _, [] => return ([], false)
  | budget, die :: dice => do
    if die.dropped then
      let (others, capped) ← explode ask due penetrating budget dice
      return (die :: others, capped)
    else
      let (faces, capped) ← chain ask due budget die.face
      let extra := faces.map fun face => { face := if penetrating then face - 1 else face : Die }
      if capped then return (die :: extra ++ dice, true)
      else
        let (others, capped) ← explode ask due penetrating (budget - faces.length) dice
        return (die :: extra ++ others, capped)

/-! ## Rolling again -/

/-- The face of a die after its rerolls, and whether one more was due. -/
def rerollFace (ask : Sem Int) (due : Int → Bool) (once : Bool) : (budget : Nat) →
    (face : Int) → Sem (Int × Bool)
  | 0, face => return (face, due face)
  | budget + 1, face => do
    if due face then
      let next ← ask
      if once then return (next, false) else rerollFace ask due once budget next
    else return (face, false)

/-- The dice after their rerolls, and whether one more was due for some die. -/
def reroll (ask : Sem Int) (due : Int → Bool) (once : Bool) (budget : Nat) :
    List Die → Sem (List Die × Bool)
  | [] => return ([], false)
  | die :: dice => do
    if die.dropped then
      let (others, capped) ← reroll ask due once budget dice
      return (die :: others, capped)
    else
      let (face, capped) ← rerollFace ask due once budget die.face
      let (others, capped') ← reroll ask due once budget dice
      return ({ die with face := face } :: others, capped || capped')

/-! ## Ranking -/

/-- Whether a face may stand before another one. -/
def ranksBefore (descending : Bool) (a b : Int) : Bool :=
  if descending then b ≤ a else a ≤ b

/-- The places of the first `amount` dice that count, ranked by face. -/
def selection (highest : Bool) (amount : Int) (dice : List Die) : List Nat :=
  let candidates := dice.zipIdx.filter fun entry => !entry.1.dropped
  let ranked := candidates.mergeSort fun a b => ranksBefore highest a.1.face b.1.face
  (ranked.map Prod.snd).take amount.toNat

/-- Drop all dice but the first ones of the ranking. -/
def keep (highest : Bool) (amount : Int) (dice : List Die) : List Die :=
  let selected := selection highest amount dice
  dice.zipIdx.map fun entry =>
    if entry.1.dropped then entry.1 else { entry.1 with dropped := !selected.contains entry.2 }

/-- Drop the first dice of the ranking. -/
def drop (highest : Bool) (amount : Int) (dice : List Die) : List Die :=
  let selected := selection highest amount dice
  dice.zipIdx.map fun entry =>
    if selected.contains entry.2 then { entry.1 with dropped := true } else entry.1

/-- Put the dice in order, dropped ones included. -/
def sort (descending : Bool) (dice : List Die) : List Die :=
  dice.mergeSort fun a b => ranksBefore descending a.face b.face

/-! ## Rolls with modifiers -/

/-- The dice of a fresh roll. -/
def fresh (ask : Sem Int) : (count : Nat) → Sem (List Die)
  | 0 => return []
  | count + 1 => do
    let face ← ask
    let others ← fresh ask count
    return ⟨face, false⟩ :: others

/-- The number of dice that a modifier keeps or drops: one if it does not say. -/
def amount : Option Nat → Sem Int
  | none => return 1
  | some n => Sem.demand (Number.int n).roundHalfUp

/-- The dice that a modifier makes of the dice of a roll, given the faces that these have. -/
def transform (limits : Limits) (source : Source) (faces : Faces) (step : Step)
    (dice : List Die) : Sem (List Die) := do
  let ask := Sem.ask source faces
  let budget := limits.maxIterations
  match step with
  | .explode penetrating bound =>
    let (dice, capped) ← explode ask (test bound faces.high) penetrating budget dice
    if capped then Sem.collect (.explosionLimit budget)
    return dice
  | .keep highest n => return keep highest (← amount n) dice
  | .drop highest n => return drop highest (← amount n) dice
  -- Critical dice are marked, and count like any other.
  | .critical _ _ => return dice
  | .reroll once bound =>
    let (dice, capped) ← reroll ask (test bound faces.low) once budget dice
    if capped then Sem.collect (.rerollLimit budget)
    return dice
  | .sort descending => return sort descending dice

/-- The number of sides as an integer, if the dice are numbered. -/
def sideCount : Sides → Sem (Option Int)
  | .fate => return none
  | .faces n => return some (← Sem.demand (Number.int n).roundHalfUp)

/-- The number of sides is found without any effect, or is out of range. -/
theorem sideCount_cases (sides : Sides) :
    (∃ sides', sideCount sides = pure sides') ∨ ∃ e, sideCount sides = throw e := by
  unfold sideCount
  cases sides with
  | fate => exact .inl ⟨none, rfl⟩
  | faces n =>
    dsimp only
    cases (Number.int n).roundHalfUp with
    | ok s => exact .inl ⟨some s, rfl⟩
    | error e => exact .inr ⟨.outOfRange e, rfl⟩

/-- The faces of dice with so many sides, or of fate dice. -/
def facesOf : Option Int → Faces
  | none => ⟨-1, 1⟩
  | some sides => ⟨1, sides⟩

/-- Whether an amount is within its bounds.  If not, a problem is collected. -/
def within (bounds : Bounds) (amount : Int) : Sem Bool := do
  if amount < bounds.least then
    Sem.collect (bounds.tooFew amount)
    return false
  match bounds.most with
  | none => return true
  | some limit =>
    if limit < amount then
      Sem.collect (bounds.tooMany amount limit)
      return false
    return true

/-- Whether the number of dice is allowed.  If not, a problem is collected. -/
def countAllowed (limits : Limits) (count : Int) : Sem Bool := within limits.onCount count

/-- Whether the number of sides is allowed.  If not, a problem is collected; fate dice have no
    sides to be counted. -/
def sidesAllowed (limits : Limits) : Option Int → Sem Bool
  | none => return true
  | some sides => within limits.onSides sides

/-- The dice of a roll before its modifiers; none if their number or their sides are not
    allowed. -/
def start (limits : Limits) (source : Source) (count : Int) (sides : Option Int) :
    Sem (List Die) := do
  -- Both are looked at, so there can be two problems.
  let countAllowed ← countAllowed limits count
  let sidesAllowed ← sidesAllowed limits sides
  if countAllowed && sidesAllowed then fresh (Sem.ask source (facesOf sides)) count.toNat
  else return []

/-- The dice that modifiers make of the dice of a roll, one after the other. -/
def modify (limits : Limits) (source : Source) (faces : Faces) (steps : List Step)
    (dice : List Die) : Sem (List Die) :=
  steps.foldlM (fun dice step => transform limits source faces step dice) dice

end Roll

end DiceNotation
