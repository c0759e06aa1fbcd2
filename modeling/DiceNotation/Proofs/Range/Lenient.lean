import DiceNotation.Proofs.Range.Safety

/-! # Faults of numbers

The parts of an evaluation that call no function by name can only break down on a number: one that
is out of the range of a computation, or one with too many digits for a message.  Where these two
faults are allowed (`Lenient`), such parts are safe whatever they compute with. -/

namespace DiceNotation

open DiceNotation.Expr (Sides Step)
open Sem

namespace Sem

/-- The faults of numbers are among those allowed. -/
structure Lenient (allowed : Fault → Prop) : Prop where
  outOfRange : ∀ e, allowed (.outOfRange e)
  tooManyDigits : allowed .tooManyDigits

namespace Lenient

variable {allowed : Fault → Prop} {limits : Limits} {source : Source} {trace : Trace}

/-- A number that is missing is out of range, which is allowed. -/
theorem demand (lenient : Lenient allowed) {α : Type} (number : Except NumberError α) :
    Safe allowed (Sem.demand number) trace := by
  cases number with
  | ok a => exact safe_pure a
  | error e =>
    intro e' trace' same
    cases same
    exact lenient.outOfRange e

/-- A problem that cannot be written has too many digits, which is allowed. -/
theorem collect (lenient : Lenient allowed) (problem : Problem) :
    Safe allowed (Sem.collect problem) trace := by
  unfold Sem.collect
  split
  · exact nofun
  · intro e trace' same
    cases same
    exact lenient.tooManyDigits

/-- A problem is collected, and there is a result. -/
theorem report (lenient : Lenient allowed) {α : Type} (problem : Problem) (a : α) :
    Safe allowed (do Sem.collect problem; return a) trace := by
  rw [safe_bind]
  exact ⟨lenient.collect problem, after_trivial fun _ _ => safe_pure a⟩

/-- An operation fails in no other way. -/
theorem operate (lenient : Lenient allowed) (op : Operator) (a b : Number) :
    Safe allowed (Sem.operate op a b) trace := by
  unfold Sem.operate
  split
  · split
    · exact lenient.report _ _
    · exact safe_pure _
  · exact lenient.report _ _
  · exact lenient.report _ _

/-- A known function fails in no other way. -/
theorem function (lenient : Lenient allowed) {name : String} {f : Number → Sem Number}
    (h : function? name = some f) (n : Number) : Safe allowed (f n) trace := by
  -- The three functions that round return an integer or the fault of the conversion.
  have integer (number : Except NumberError Int) :
      Safe allowed (do return Number.int (← Sem.demand number)) trace := by
    rw [safe_bind]
    exact ⟨lenient.demand number, after_trivial fun _ _ => safe_pure _⟩
  unfold function? at h
  split at h <;> cases h
  · exact safe_pure _
  · exact integer _
  · exact integer _
  · exact integer _
  · unfold squareRoot
    split
    · exact lenient.report _ _
    · exact lenient.demand _

/-! ## Dice -/

/-- An amount fails in no other way. -/
theorem amount (lenient : Lenient allowed) (n : Option Nat) :
    Safe allowed (Roll.amount n) trace := by
  cases n with
  | none => exact safe_pure _
  | some n => exact lenient.demand _

/-- Dice that come with the note whether a limit was reached, of which a problem tells. -/
theorem capped (lenient : Lenient allowed) {dice : Sem (List Die × Bool)}
    (h : Safe allowed dice trace) (problem : Problem) :
    Safe allowed (do
      let (dice, capped) ← dice
      if capped then Sem.collect problem
      return dice) trace := by
  rw [safe_bind]
  refine ⟨h, after_trivial fun result trace => ?_⟩
  obtain ⟨dice, capped⟩ := result
  cases capped with
  | true => exact lenient.report _ _
  | false => exact safe_pure _

/-- A modifier fails in no other way. -/
theorem transform (lenient : Lenient allowed) {faces : Faces} (step : Step) (dice : List Die)
    (trace : Trace) : Safe allowed (Roll.transform limits source faces step dice) trace := by
  -- Keeping and dropping differ in what they do with the number of dice only.
  have ranked (n : Option Nat) (f : Int → List Die) :
      Safe allowed (do return f (← Roll.amount n)) trace := by
    rw [safe_bind]
    exact ⟨lenient.amount n, after_trivial fun _ _ => safe_pure _⟩
  unfold Roll.transform
  cases step with
  | explode penetrating bound => exact lenient.capped (Roll.safe_explode _ _ _ _) _
  | keep highest n => exact ranked n fun k => Roll.keep highest k dice
  | drop highest n => exact ranked n fun k => Roll.drop highest k dice
  | critical success bound => exact safe_pure _
  | reroll once bound => exact lenient.capped (Roll.safe_reroll _ _ _ _) _
  | sort descending => exact safe_pure _

/-- The check of an amount fails in no other way. -/
theorem within (lenient : Lenient allowed) (bounds : Bounds) (amount : Int) (trace : Trace) :
    Safe allowed (Roll.within bounds amount) trace := by
  unfold Roll.within
  split
  · exact lenient.report _ _
  · split
    · exact safe_pure _
    · split
      · exact lenient.report _ _
      · exact safe_pure _

/-- The check of the sides fails in no other way. -/
theorem sidesAllowed (lenient : Lenient allowed) (sides : Option Int) (trace : Trace) :
    Safe allowed (Roll.sidesAllowed limits sides) trace := by
  cases sides with
  | none => exact safe_pure _
  | some s => exact lenient.within limits.onSides s trace

/-- The start of a roll fails in no other way. -/
theorem start (lenient : Lenient allowed) (count : Int) (sides : Option Int) (trace : Trace) :
    Safe allowed (Roll.start limits source count sides) trace := by
  unfold Roll.start
  rw [safe_bind]
  refine ⟨lenient.within _ count trace, after_trivial fun _ trace => ?_⟩
  rw [safe_bind]
  refine ⟨lenient.sidesAllowed sides trace, after_trivial fun _ trace => ?_⟩
  split
  · exact Roll.safe_fresh _ _
  · exact safe_pure _

/-- The number of sides fails in no other way. -/
theorem sideCount (lenient : Lenient allowed) (sides : Sides) (trace : Trace) :
    Safe allowed (Roll.sideCount sides) trace := by
  cases sides with
  | fate => exact safe_pure _
  | faces n =>
    unfold Roll.sideCount
    rw [safe_bind]
    exact ⟨lenient.demand _, after_trivial fun _ _ => safe_pure _⟩

end Lenient

end Sem

end DiceNotation
