import DiceNotation.Proofs.Memory.Stuck
import DiceNotation.Proofs.Modifiers.Operand
import DiceNotation.Proofs.Range.HalfUp

/-! # Numbers as they are written

The number of dice of a roll, their sides, and the number of dice that a modifier selects are all
rounded.  They are the written integers if these are rounded to themselves (`Number.RoundsWell`),
which all integers up to 2^52 in size are (`Number.roundsWell_of_small`).

* `throws_rounded`    as many dice are thrown as the written numbers are rounded to
* `counts_written`    as many dice are selected as written
* `rounding_exact`    what is rounded to the nearest integer, and what follows for rolls -/

namespace DiceNotation

open DiceNotation.EvalM (evaluateWithin)
open Number (RoundsWell)

/-- The sides and the number of dice are within the limits. -/
structure Limits.Admits (limits : Limits) (count : Nat) (sides : Int) : Prop where
  count : ∀ limit ∈ limits.maxRolls, count ≤ limit
  positive : 1 ≤ sides
  sides : ∀ limit ∈ limits.maxSides, sides ≤ limit

instance (limits : Limits) (count : Nat) (sides : Int) : Decidable (limits.Admits count sides) :=
  decidable_of_iff ((∀ limit ∈ limits.maxRolls, count ≤ limit) ∧ 1 ≤ sides ∧
      ∀ limit ∈ limits.maxSides, sides ≤ (limit : Int))
    ⟨fun ⟨few, positive, low⟩ => ⟨few, positive, low⟩,
      fun admits => ⟨admits.count, admits.positive, admits.sides⟩⟩

/-- The roll of `count` dice throws `times` dice with `sides` sides each. -/
def Throws (rules : Rules) (levels : Nat) (attributes : OrderedMap Value) (count sides : Node)
    (record : Record) (times : Nat) (faces : Int) : Prop :=
  ∃ value after,
    evaluateWithin rules levels ⟨⟨.dice, attributes, [count, sides]⟩, record⟩ = .ok value after ∧
    after.record.trace = record.trace.after ⟨1, faces⟩ times ∧
    ∃ dice, dice.length = times ∧ after.node =
      (Node.thrown attributes times (some faces) dice).store (.int (Dice.total dice))

section

variable {rules : Rules} {levels : Nat} {attributes sidesAttributes : OrderedMap Value}
  {count : Node} {times : Nat} {sides rolled m n : Int} {record : Record}

/-- What a written integer is rounded to is this integer exactly if it is rounded to itself. -/
private theorem rounded_eq_iff (rounded : (Number.int n).roundHalfUp = .ok rolled) :
    rolled = n ↔ RoundsWell n := by
  rw [← Number.roundHalfUp_int_iff, rounded, Except.ok.injEq]

/-- An amount is the written integer exactly if this is rounded to itself. -/
theorem counts_written {node : Node} (written : node.value? = some (.int n)) :
    Counts [node] n ↔ RoundsWell n := by
  rw [← Number.roundHalfUp_int_iff]
  constructor
  · intro counts
    cases counts with
    | given value rounded =>
      rw [written] at value
      cases value
      exact rounded
  · exact .given written

/-- What is within its bounds is not reported. -/
private theorem run_within (bounds : Bounds) {n : Int} (least : bounds.least ≤ n)
    (most : ∀ limit ∈ bounds.most, n ≤ (limit : Int)) (node : Node) (record : Record) :
    EvalM.within bounds n ⟨node, record⟩ = .ok true ⟨node, record⟩ := by
  unfold EvalM.within
  rw [if_neg (by omega)]
  cases bounded : bounds.most with
  | none => rfl
  | some limit =>
    have := most limit bounded
    dsimp only
    rw [if_neg (by omega)]
    rfl

/-- A roll within the limits throws as many dice as the written number is rounded to, each with as
    many sides as the other written number is rounded to. -/
theorem throws_rounded (new : attributes.get? "value" = none)
    (hcount : count.value? = some (.int m))
    (hsides : sidesAttributes.get? "value" = some (.int n))
    (roundedCount : (Number.int m).roundHalfUp = .ok times)
    (roundedSides : (Number.int n).roundHalfUp = .ok sides)
    (admitted : rules.limits.Admits times sides) :
    Throws rules (levels + 2) attributes count ⟨.diceSides, sidesAttributes, []⟩ record times
      sides := by
  have stored : Yields (Value.number (.int m)) count (evaluateWithin rules (levels + 1)) :=
    fun record => remembers_evaluateWithin (Nat.succ_pos levels) count _ record hcount
  -- The body of the evaluation: the count and the sides are rounded, tested and thrown.
  have thrown : Ensures (fun _ => False)
      ⟨.dice, attributes, [count, ⟨.diceSides, sidesAttributes, []⟩]⟩ record.trace
      (EvalM.roll rules (evaluateWithin rules (levels + 1))) fun value after trace =>
        ∃ dice, dice.length = times ∧ value = .int (Dice.total dice) ∧
          after = .thrown attributes times (some sides) dice ∧
          trace = record.trace.after ⟨1, sides⟩ times := by
    unfold EvalM.roll
    apply Ensures.requireChildren_bind rfl
    apply Ensures.run_bind
      (Ensures.run_onChild rfl (stored.rounded roundedCount))
    apply Ensures.run_bind (yields_rollSides hsides roundedSides)
    apply Ensures.modifyNode_bind
    have within : ∀ limit ∈ rules.limits.onCount.most, (times : Int) ≤ limit :=
      fun limit given => Int.ofNat_le.mpr (admitted.count limit given)
    apply Ensures.run_bind
      (run_within rules.limits.onCount (Int.natCast_nonneg times) within _)
    dsimp only
    apply Ensures.run_bind
      (run_within rules.limits.onSides admitted.positive admitted.sides _)
    apply (ensures_throwDice true times (some sides)).mono
    intro value after trace found
    obtain ⟨dice, threw, rfl, rfl⟩ := found
    cases threw
    exact ⟨_, Dice.length_fresh _ _ _, rfl, rfl, rfl⟩
  -- Around the body the value is stored, as none has been before.
  have kept : Ensures (fun _ => False)
      ⟨.dice, attributes, [count, ⟨.diceSides, sidesAttributes, []⟩]⟩ record.trace
      (evaluateWithin rules (levels + 2)) fun _ after trace =>
        trace = record.trace.after ⟨1, sides⟩ times ∧ ∃ dice, dice.length = times ∧ after =
          (Node.thrown attributes times (some sides) dice).store (.int (Dice.total dice)) := by
    have empty : Node.value?
        ⟨.dice, attributes, [count, ⟨.diceSides, sidesAttributes, []⟩]⟩ = none := new
    rw [evaluateWithin]
    apply Ensures.node_bind
    rw [empty]
    have computed : Ensures (fun _ => False)
        ⟨.dice, attributes, [count, ⟨.diceSides, sidesAttributes, []⟩]⟩ record.trace
        (EvalM.compute rules (evaluateWithin rules (levels + 1))) _ := .node_bind thrown
    apply computed.bind
    intro value after trace found
    obtain ⟨dice, length, rfl, rfl, rfl⟩ := found
    exact .modifyNode_bind (.pure ⟨rfl, dice, length, rfl⟩)
  exact kept.result

end

/-- Integers and finite doubles are rounded to the nearest integer, a half going up, exactly if they
    are doubles, but not the last one below one half, and no odd integers where doubles are one
    apart.  A written integer stays what it is exactly if it is none of these exceptions: as an
    amount to select, as a number of dice, and as a number of sides. -/
theorem rounding_exact {a : Number} (bounded : a.isUnbounded = false) :
    ∃ q, a.exact = .ok q ∧ (∃! n : ℤ, IsNearest n q) ∧
      ((∃ n, a.roundHalfUp = .ok n ∧ IsNearest n q) ↔ RoundsWell q) ∧
      ∀ m : ℤ, a = .int m →
        (a.roundHalfUp = .ok m ↔ RoundsWell m) ∧
        (∀ amount : Node, amount.value? = some (.int m) → (Counts [amount] m ↔ RoundsWell m)) ∧
        ∀ (rules : Rules) (levels : Nat) (attributes sidesAttributes : OrderedMap Value)
          (count : Node) (record : Record) (n : ℤ) (times : Nat) (sides : ℤ),
          attributes.get? "value" = none → count.value? = some (.int m) →
          sidesAttributes.get? "value" = some (.int n) → a.roundHalfUp = .ok times →
          (Number.int n).roundHalfUp = .ok sides → rules.limits.Admits times sides →
          Throws rules (levels + 2) attributes count ⟨.diceSides, sidesAttributes, []⟩ record times
              sides ∧
            (times = m ↔ RoundsWell m) ∧ (sides = n ↔ RoundsWell n) := by
  obtain ⟨q, exact, -⟩ := Number.exists_exact bounded
  refine ⟨q, exact, existsUnique_isNearest q, Number.roundHalfUp_iff bounded exact, ?_⟩
  rintro m rfl
  refine ⟨Number.roundHalfUp_int_iff, fun amount => counts_written, ?_⟩
  intro rules levels attributes sidesAttributes count record n times sides new hcount hsides
    roundedCount roundedSides admitted
  exact ⟨throws_rounded new hcount hsides roundedCount roundedSides admitted,
    rounded_eq_iff roundedCount, rounded_eq_iff roundedSides⟩

/-- Three dice with six sides. -/
theorem rounding_exact_small :
    let rules : Rules := ⟨⟨some 10, some 20, 1⟩, .default, fun request _ => request + 1⟩
    let sides : Node := ⟨.diceSides, .ofList [("value", .int 6)], []⟩
    (Number.int 3).isUnbounded = false ∧ (Number.int 3).roundHalfUp = .ok (3 : ℕ) ∧
    (Number.int 6).roundHalfUp = .ok 6 ∧ rules.limits.Admits 3 6 ∧
    (∃ q, (Number.int 3).exact = .ok q ∧ ∃! n : ℤ, IsNearest n q) ∧
    (Counts [.integer 3] 3 ↔ RoundsWell (3 : ℤ)) ∧
    Throws rules 2 .empty (.integer 3) sides {} 3 6 := by
  intro rules sides
  have three : (Number.int 3).roundHalfUp = .ok (3 : ℕ) := by decide +kernel
  have six : (Number.int 6).roundHalfUp = .ok 6 := by decide +kernel
  have admitted : Limits.Admits ⟨some 10, some 20, 1⟩ 3 6 := by decide
  obtain ⟨q, exact, unique, -, written⟩ := rounding_exact (a := .int 3) rfl
  obtain ⟨-, counts, throws⟩ := written 3 rfl
  obtain ⟨thrown, -⟩ := throws rules 0 .empty (.ofList [("value", .int 6)]) (.integer 3) {} 6 3 6
    rfl rfl rfl three six admitted
  exact ⟨rfl, three, six, admitted, ⟨q, exact, unique⟩, counts (.integer 3) rfl, thrown⟩

/-- Not all integers and not all doubles are rounded to the nearest integer. -/
theorem rounding_not_nearest :
    (Number.int 4503599627370497).roundHalfUp = .ok 4503599627370498 ∧
    (Number.int 9007199254740993).roundHalfUp = .ok 9007199254740992 ∧
    ∃ (x : Float) (q : ℚ), (Number.real x).isUnbounded = false ∧ (Number.real x).exact = .ok q ∧
      (Number.real x).roundHalfUp = .ok 1 ∧ IsNearest 0 q ∧ ¬ IsNearest 1 q := by
  refine ⟨by decide +kernel, by decide +kernel, Float.ofBits 0x3FDFFFFFFFFFFFFF,
    mkRat (2 ^ 53 - 1) (2 ^ 54), by decide +kernel, by decide +kernel, by decide +kernel, ?_, ?_⟩
  · rw [Rat.mkRat_eq_div]
    norm_num [IsNearest]
  · rw [Rat.mkRat_eq_div]
    norm_num [IsNearest]

end DiceNotation
