import DiceNotation.Proofs.Trees.Dice

/-! # What dice account for

Each number that is drawn for dice throws a die or throws it again, and how often a die was thrown
again is noted on it.  So dice account for draws (`accounted`).  All modifiers keep the notes that
they find, but for the one that throws dice again: it puts a new note in the place of the old one
(`overwritten`).

* `accounted_explode`    extra dice account for what is drawn for them
* `accounted_reroll`     new notes account for what is drawn, but old ones are lost
* `rerolls_keep`, `rerolls_drop`, `rerolls_markCritical`    marks change no notes -/

namespace DiceNotation

/-- How often a die was thrown again, as it is noted on the die. -/
def Node.rerolls (die : Node) : Nat :=
  match die.get? "rerolled" with
  | some (.number (.int n)) => n.toNat
  | _ => 0

/-- Another attribute leaves the note of rerolls. -/
theorem Node.rerolls_set {node : Node} {key : String} (value : Value) (other : key ≠ "rerolled") :
    (node.set key value).rerolls = node.rerolls := by
  unfold rerolls
  rw [get?_set, if_neg (Ne.symm other)]

namespace Dice

/-- The draws that dice account for: each die was thrown, and then thrown again. -/
def accounted (dice : List Node) : Nat := (dice.map fun die => 1 + die.rerolls).sum

/-- The notes that are lost when dice are thrown again. -/
def overwritten (c : Condition) (budget : Nat) (dice : List Node) : Nat :=
  ((live dice).map fun die => if c.holds die.value? ∧ 0 < budget then die.rerolls else 0).sum

variable {dice dice' : List Node}

/-- No dice account for no draws. -/
@[simp] theorem accounted_nil : accounted [] = 0 := rfl

/-- A die accounts for its first throw and its rerolls. -/
@[simp] theorem accounted_cons (die : Node) (dice : List Node) :
    accounted (die :: dice) = 1 + die.rerolls + accounted dice := by
  rw [accounted, List.map_cons, List.sum_cons]
  rfl

/-- The draws of two lists of dice add up. -/
@[simp] theorem accounted_append (dice dice' : List Node) :
    accounted (dice ++ dice') = accounted dice + accounted dice' := by
  rw [accounted, List.map_append, List.sum_append]
  rfl

/-- Dice without notes were thrown once. -/
theorem accounted_eq_length (new : ∀ die ∈ dice, die.rerolls = 0) :
    accounted dice = dice.length := by
  induction dice with
  | nil => rfl
  | cons die dice ih =>
    obtain ⟨first, others⟩ := List.forall_mem_cons.mp new
    rw [accounted_cons, first, ih others, List.length_cons]
    omega

/-- Fresh dice were not rerolled. -/
theorem rerolls_fresh (sides : Value) (draw : Draw) (count : Nat) :
    ∀ die ∈ fresh sides draw count, die.rerolls = 0 := by
  intro die hdie
  obtain ⟨k, -, rfl⟩ := List.mem_map.mp hdie
  rfl

/-- Fresh dice account for one draw each. -/
theorem accounted_fresh (sides : Value) (draw : Draw) (count : Nat) :
    accounted (fresh sides draw count) = count := by
  rw [accounted_eq_length (rerolls_fresh sides draw count), length_fresh]

/-- An extra die was not rerolled. -/
theorem rerolls_extraDie (sides : Value) (penetrating : Bool) (face : Int) :
    (extraDie sides penetrating face).rerolls = 0 := rfl

/-- Each extra die accounts for one draw. -/
theorem accounted_explode (c : Condition) (draw : Draw) (sides : Value) (penetrating : Bool)
    (budget drawn : Nat) (dice : List Node) :
    accounted (explode c draw (extraDie sides penetrating) budget drawn dice).dice + drawn =
      accounted dice + (explode c draw (extraDie sides penetrating) budget drawn dice).draws := by
  induction dice generalizing budget drawn with
  | nil => rfl
  | cons die dice ih =>
    unfold explode
    by_cases dropped : die.isDropped
    · simp only [dropped, if_true, accounted_cons]
      have rest := ih budget drawn
      omega
    · simp only [dropped, Bool.false_eq_true, if_false]
      generalize chain c draw budget drawn die.value? = chain
      -- An added die was never thrown again.
      have extra : accounted (chain.1.map (extraDie sides penetrating)) = chain.1.length := by
        rw [accounted_eq_length, List.length_map]
        intro die hdie
        obtain ⟨face, -, rfl⟩ := List.mem_map.mp hdie
        exact rerolls_extraDie ..
      -- What the chain has drawn is in front of the other dice, whether or not they are looked at.
      by_cases cut : chain.2
      · simp only [cut, if_true, accounted_append, accounted_cons, extra]
        omega
      · simp only [cut, Bool.false_eq_true, if_false, accounted_append, accounted_cons, extra]
        have rest := ih (budget - chain.1.length) (drawn + chain.1.length)
        omega

/-- A die is thrown again if it meets the condition, unless there is no budget at all. -/
theorem count_rerollValue (c : Condition) (draw : Draw) (once : Bool) (budget drawn : Nat)
    (value : Option Value) :
    (rerollValue c draw once budget drawn value).count = 0 ↔ ¬ (c.holds value ∧ 0 < budget) := by
  cases budget with
  | zero => simp [rerollValue]
  | succ budget =>
    unfold rerollValue
    by_cases due : c.holds value
    · cases once <;> simp [due]
    · simp [due]

/-- A die that was thrown again carries a new note. -/
theorem rerolls_applyTo {rerolled : RerolledDie} {draw : Draw}
    (shows : rerolled.count = 0 ∨ ∃ k, rerolled.value = some (.int (draw k))) (die : Node) :
    (rerolled.applyTo die).rerolls =
      if rerolled.count = 0 then die.rerolls else rerolled.count := by
  obtain ⟨value, count, capped⟩ := rerolled
  rcases shows with none | ⟨k, drawn⟩
  · simp only at none
    subst none
    rfl
  · simp only at drawn
    subst drawn
    cases count with
    | zero => rfl
    | succ count => simp [RerolledDie.applyTo, Node.rerolls]

/-- What is drawn for dice that are thrown again is noted on them, instead of what was noted there
    before. -/
theorem accounted_reroll (c : Condition) (draw : Draw) (once : Bool) (budget drawn : Nat)
    (dice : List Node) :
    accounted (reroll c draw once budget drawn dice).dice + drawn + overwritten c budget dice =
      accounted dice + (reroll c draw once budget drawn dice).draws := by
  induction dice generalizing drawn with
  | nil => simp [reroll, overwritten, live]
  | cons die dice ih =>
    unfold reroll overwritten live
    by_cases dropped : die.isDropped
    · simp only [dropped, if_true, accounted_cons, List.filter_cons, Bool.not_true,
        Bool.false_eq_true, if_false]
      have rest := ih drawn
      unfold overwritten live at rest
      omega
    · simp only [dropped, Bool.false_eq_true, if_false, accounted_cons, List.filter_cons,
        Bool.not_false, if_true, List.map_cons, List.sum_cons]
      -- What is thrown for one die is drawn before the others, so they begin behind it.
      have shows := KeptWithin.rerollValue_face c draw once budget drawn die.value?
      have due := count_rerollValue c draw once budget drawn die.value?
      generalize rerollValue c draw once budget drawn die.value? = rerolled at shows due
      have rest := ih (drawn + rerolled.count)
      unfold overwritten live at rest
      rw [rerolls_applyTo shows]
      -- A die that is thrown again loses the note that it had before.
      by_cases unchanged : rerolled.count = 0
      · rw [if_pos unchanged, if_neg (due.mp unchanged)]
        omega
      · rw [if_neg unchanged, if_pos (not_not.mp (mt due.mpr unchanged))]
        omega

/-- Nothing is lost unless a die with a note is thrown again. -/
theorem overwritten_eq_zero {c : Condition} {budget : Nat} :
    overwritten c budget dice = 0 ↔
      ∀ die ∈ live dice, c.holds die.value? = true → 0 < budget → die.rerolls = 0 := by
  unfold overwritten
  rw [List.sum_eq_zero_iff]
  simp only [List.forall_mem_map, ite_eq_right_iff, and_imp]

/-! ## The notes on dice -/

/-- Dice with the same notes account for the same draws. -/
theorem accounted_congr (same : dice'.map Node.rerolls = dice.map Node.rerolls) :
    accounted dice' = accounted dice := by
  have sums : ∀ dice : List Node,
      accounted dice = ((dice.map Node.rerolls).map fun count => 1 + count).sum := by
    intro dice
    rw [List.map_map]
    rfl
  rw [sums, sums, same]

/-- What is done to each die, knowing its place, changes nothing that does not change on a die. -/
theorem map_zipIdx {f : Node → Nat} {g : Node × Nat → Node}
    (same : ∀ entry, f (g entry) = f entry.1) (dice : List Node) :
    (dice.zipIdx.map g).map f = dice.map f := by
  rw [List.map_map]
  conv_rhs => rw [← List.zipIdx_map_fst 0 dice, List.map_map]
  exact List.map_congr_left fun entry _ => same entry

/-- Keeping dice leaves the notes. -/
theorem rerolls_keep (highest : Bool) (amount : Int) (dice : List Node) :
    (keep highest amount dice).map Node.rerolls = dice.map Node.rerolls := by
  unfold keep
  apply map_zipIdx
  intro entry
  split
  · rfl
  · exact Node.rerolls_set _ (by decide)

/-- Dropping dice leaves the notes. -/
theorem rerolls_drop (highest : Bool) (amount : Int) (dice : List Node) :
    (drop highest amount dice).map Node.rerolls = dice.map Node.rerolls := by
  unfold drop
  apply map_zipIdx
  intro entry
  split
  · exact Node.rerolls_set _ (by decide)
  · rfl

/-- Critical marks leave the notes. -/
theorem rerolls_markCritical (c : Condition) (kind : Value) (dice : List Node) :
    (markCritical c kind dice).map Node.rerolls = dice.map Node.rerolls := by
  unfold markCritical
  rw [List.map_map]
  refine List.map_congr_left fun die _ => ?_
  simp only [Function.comp_apply]
  split
  · exact Node.rerolls_set _ (by decide)
  · rfl

/-- Sorting leaves the draws that are accounted for. -/
theorem accounted_sort (descending : Bool) (dice : List Node) :
    accounted (sort descending dice) = accounted dice :=
  ((sort_perm descending dice).map _).sum_eq

end Dice

end DiceNotation
