import DiceNotation.Dice.Explode

/-! # Runs of draws

Exploding and rolling again draw for one die after the other.  What is drawn for a die stands in a
`Run`: draws follow each other as long as the condition holds of the value before, and as long as
the budget lasts.  The values tested are the raw ones, whatever is made of them.

`Run.Follows` says this of one run, and chains are runs of this kind (`follows_chain`). -/

namespace DiceNotation.Dice

/-- A die and what is drawn for it. -/
structure Run where
  die : Node
  draws : List Int

/-- A value and the draws behind it. -/
def shown (value : Option Value) (draws : List Int) : List (Option Value) :=
  value :: draws.map fun face => some (.int face)

/-- The last of a value and the draws behind it. -/
def lastShown (value : Option Value) : List Int → Option Value
  | [] => value
  | face :: draws => lastShown (some (.int face)) draws

namespace Run

/-- The values of the die, in the order in which it shows them. -/
def values (run : Run) : List (Option Value) := shown run.die.value? run.draws

/-- The value that the die shows in the end. -/
def last (run : Run) : Option Value := lastShown run.die.value? run.draws

/-- Whether one more draw is due: the die counts, and its last value meets the condition. -/
def isDue (c : Condition) (run : Run) : Bool := !run.die.isDropped && c.holds run.last

/-- A die for which nothing is drawn. -/
def idle (die : Node) : Run := ⟨die, []⟩

/-- The draws of a run are those from request number `first` on, at most as many as the budget
    allows.  All values but the last one meet the condition, and so does the last one only if the
    budget is used up.  Nothing is drawn for a dropped die. -/
structure Follows (c : Condition) (draw : Draw) (first budget : Nat) (run : Run) : Prop where
  drawn : run.draws = (List.range' first run.draws.length).map draw
  within : run.draws.length ≤ budget
  dropped : run.die.isDropped = true → run.draws = []
  caused : ∀ value ∈ run.values.dropLast, c.holds value = true
  full : run.isDue c = true → run.draws.length = budget

end Run

/-- The number of draws for all dice. -/
def drawCount (runs : List Run) : Nat := (runs.flatMap Run.draws).length

section

variable {c : Condition} {draw : Draw} {first budget : Nat} {value : Option Value} {die : Node}
  {run : Run} {runs : List Run}

/-- All values that were shown but the last one begin with the first one. -/
theorem dropLast_shown (value : Option Value) (face : Int) (draws : List Int) :
    (shown value (face :: draws)).dropLast = value :: (shown (some (.int face)) draws).dropLast :=
  rfl

/-- The last value that was shown is the last one that was drawn. -/
theorem lastShown_concat (value : Option Value) (draws : List Int) (face : Int) :
    lastShown value (draws ++ [face]) = some (.int face) := by
  induction draws generalizing value with
  | nil => rfl
  | cons first draws ih => exact ih (some (.int first))

/-- Where no die is live, all are dropped. -/
theorem dropped_of_live_nil {dice : List Node} (h : live dice = []) :
    ∀ die ∈ dice, die.isDropped = true := by
  simpa [live] using h

/-- A dropped die is not due. -/
theorem Run.isDue_of_dropped (h : run.die.isDropped = true) : run.isDue c = false := by
  simp [Run.isDue, h]

/-- The draws of several runs add up. -/
theorem drawCount_cons (run : Run) (runs : List Run) :
    drawCount (run :: runs) = run.draws.length + drawCount runs := by
  simp [drawCount]

/-- For a dropped die nothing is drawn. -/
theorem Run.follows_of_dropped (h : die.isDropped = true) :
    (Run.idle die).Follows c draw first budget where
  drawn := rfl
  within := Nat.zero_le _
  dropped _ := rfl
  caused value hvalue := nomatch hvalue
  full due := by
    rw [Run.isDue_of_dropped h] at due
    cases due

/-! ## Chains -/

/-- The draws of a chain, told apart from the die that it belongs to. -/
theorem chain_spec (c : Condition) (draw : Draw) (budget first : Nat) (value : Option Value) :
    let faces := (chain c draw budget first value).1
    let last := lastShown value faces
    faces = (List.range' first faces.length).map draw ∧
      (∀ v ∈ (shown value faces).dropLast, c.holds v = true) ∧
      (chain c draw budget first value).2 = c.holds last ∧
      (c.holds last = true → faces.length = budget) := by
  -- The chain is followed draw by draw; each draw is the value that the next one is due to.
  induction budget generalizing first value with
  | zero => simp [chain, shown, lastShown]
  | succ budget ih =>
    unfold chain
    by_cases holds : c.holds value = true
    · rw [if_pos holds]
      obtain ⟨drawn, caused, cut, full⟩ := ih (first + 1) (some (.int (draw first)))
      refine ⟨?_, ?_, cut, ?_⟩
      · dsimp only
        rw [List.length_cons, List.range'_succ, List.map_cons, ← drawn]
      · dsimp only
        -- Each face but the last has caused a draw: the first one here, the others by induction.
        rw [dropLast_shown]
        intro v hv
        rcases List.mem_cons.mp hv with rfl | behind
        · exact holds
        · exact caused v behind
      · intro due
        have lengths := full due
        simp [lengths]
    · rw [if_neg holds]
      simp [shown, lastShown, holds]

/-- A chain of explosions is a run. -/
theorem follows_chain (c : Condition) (draw : Draw) (budget first : Nat)
    (live : die.isDropped = false) :
    Run.Follows c draw first budget ⟨die, (chain c draw budget first die.value?).1⟩ ∧
      Run.isDue c ⟨die, (chain c draw budget first die.value?).1⟩ =
        (chain c draw budget first die.value?).2 := by
  obtain ⟨drawn, caused, cut, full⟩ := chain_spec c draw budget first die.value?
  -- The chain is cut off exactly if the last face would cause one more draw.
  have due : Run.isDue c ⟨die, (chain c draw budget first die.value?).1⟩ =
      (chain c draw budget first die.value?).2 := by
    rw [cut]
    simp [Run.isDue, Run.last, live]
  refine ⟨⟨drawn, length_chain_le _ _ _ _ _, ?_, caused, ?_⟩, due⟩
  · intro dropped
    rw [live] at dropped
    cases dropped
  · intro isDue
    rw [due, cut] at isDue
    exact full isDue

end

end DiceNotation.Dice
