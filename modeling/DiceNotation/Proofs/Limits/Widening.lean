import DiceNotation.Proofs.Expr
import DiceNotation.Proofs.Limits.Following

/-! # Limits only cut off

An evaluation that collects no problem has reached none of its limits, so with wider limits it comes
to the same tree, total and marks, with the same requests and the same log.

Each limit is tested where it is about to be passed, and a test that fails collects a problem.
So a rule of the evaluator with wider limits does what the rule with narrow limits does, as long as
no problem is collected (`Follows`).  Explosions and rerolls are cut off by a budget inside the
dice: there a budget that was enough is as good as a greater one.

* `Follows.compute`     one rule for each kind of node
* `interpret_of_wider`  whole trees -/

namespace DiceNotation

namespace Limits

/-- The second limit is not below the first one; without a limit there is no bound. -/
def Allows (limit wider : Option Nat) : Prop :=
  ∀ most ∈ wider, ∃ least ∈ limit, least ≤ most

/-- Each limit is not below the one in the same place. -/
structure AtMost (limits wider : Limits) : Prop where
  rolls : Allows limits.maxRolls wider.maxRolls
  sides : Allows limits.maxSides wider.maxSides
  iterations : limits.maxIterations ≤ wider.maxIterations

end Limits

/-- What lies above an integer lies above every smaller one. -/
private theorem Number.lt_of_le_of_lt {m n : Int} {b : Number} (le : m ≤ n)
    (above : (Number.int n).lt b = true) : (Number.int m).lt b = true := by
  cases b with
  | int k =>
    rw [lt_int, decide_eq_true_eq] at above ⊢
    omega
  | real x =>
    -- An integer is compared with a real number by the place of the latter among the integers.
    have placed (k : Int) : (Number.int k).lt (.real x) =
        ((Place.at k).compare? (place (.real x)) == some .lt) := rfl
    rw [placed] at above ⊢
    generalize place (.real x) = p at above ⊢
    cases p with
    | «at» q =>
      simp only [Place.compare?, beq_iff_eq, Option.some.injEq, ite_eq_left_iff] at above ⊢
      -- Here the real number is finite, and the comparison is one of rational numbers.
      intro notBelow
      have exact : ¬ (n : Rat) < q := fun less => notBelow ((Int.cast_le.mpr le).trans_lt less)
      have other := above exact
      split at other <;> cases other
    | _ => exact above

/-! ## Budgets -/

namespace Dice

variable {condition : Condition} {draw : Draw} {budget wider : Nat}

/-- Explosions that were not cut off stay the same under a wider budget. -/
private theorem chain_of_wider (le : budget ≤ wider) {drawn : Nat} {value : Option Value}
    (uncut : (chain condition draw budget drawn value).2 = false) :
    chain condition draw wider drawn value = chain condition draw budget drawn value := by
  induction budget generalizing wider drawn value with
  | zero =>
    rw [chain] at uncut ⊢
    dsimp only at uncut
    -- No budget is left, and since no draw was due a wider one makes no difference.
    cases wider with
    | zero => rw [chain]
    | succ wider => rw [chain, uncut]; simp
  | succ budget ih =>
    -- The wider budget is not used up either, so both sides take the same turn.
    obtain ⟨wider, rfl⟩ :=
      Nat.exists_eq_add_of_le' (Nat.le_trans (Nat.succ_le_succ budget.zero_le) le)
    rw [chain] at uncut ⊢
    rw [chain]
    by_cases due : condition.holds value
    · simp only [due, if_true] at uncut ⊢
      rw [ih (Nat.le_of_succ_le_succ le) uncut]
    · simp only [due, Bool.false_eq_true, if_false]

/-- What one die leaves of the budget is left of the greater one as well. -/
private theorem explode_of_wider {extra : Int → Node} (le : budget ≤ wider) {drawn : Nat}
    {dice : List Node} (uncut : (explode condition draw extra budget drawn dice).capped = false) :
    explode condition draw extra wider drawn dice =
      explode condition draw extra budget drawn dice := by
  induction dice generalizing budget wider drawn with
  | nil => rfl
  | cons die dice ih =>
    rw [explode] at uncut ⊢
    rw [explode]
    by_cases dropped : die.isDropped
    · simp only [dropped, if_true] at uncut ⊢
      rw [ih le uncut]
    · simp only [dropped, Bool.false_eq_true, if_false] at uncut ⊢
      -- A die that is cut off caps the whole explosion.
      cases cut : (chain condition draw budget drawn die.value?).2 with
      | true => simp [cut] at uncut
      | false =>
        rw [chain_of_wider le cut]
        simp only [cut, Bool.false_eq_true, if_false] at uncut ⊢
        rw [ih (Nat.sub_le_sub_right le _) uncut]

/-- Rerolls of a die that were not cut off stay the same under a wider budget. -/
private theorem rerollValue_of_wider {once : Bool} (le : budget ≤ wider) {drawn : Nat}
    {value : Option Value}
    (uncut : (rerollValue condition draw once budget drawn value).capped = false) :
    rerollValue condition draw once wider drawn value =
      rerollValue condition draw once budget drawn value := by
  induction budget generalizing wider drawn value with
  -- Nothing is left of the narrow budget, so a value that was not cut off is not due at all.
  | zero =>
    rw [rerollValue] at uncut ⊢
    dsimp only at uncut
    cases wider with
    | zero => rw [rerollValue]
    | succ wider => rw [rerollValue, uncut]; simp
  | succ budget ih =>
    obtain ⟨wider, rfl⟩ :=
      Nat.exists_eq_add_of_le' (Nat.le_trans (Nat.succ_le_succ budget.zero_le) le)
    rw [rerollValue] at uncut ⊢
    rw [rerollValue]
    by_cases due : condition.holds value
    · -- A die that is rolled once more needs no further budget.
      cases once with
      | true => simp only [due, if_true]
      | false =>
        simp only [due, if_true, Bool.false_eq_true, if_false] at uncut ⊢
        rw [ih (Nat.le_of_succ_le_succ le) uncut]
    · simp only [due, Bool.false_eq_true, if_false]

/-- Rerolls of several dice that were not cut off stay the same under a wider budget. -/
private theorem reroll_of_wider {once : Bool} (le : budget ≤ wider) {drawn : Nat} {dice : List Node}
    (uncut : (reroll condition draw once budget drawn dice).capped = false) :
    reroll condition draw once wider drawn dice =
      reroll condition draw once budget drawn dice := by
  induction dice generalizing drawn with
  | nil => rfl
  | cons die dice ih =>
    rw [reroll] at uncut ⊢
    rw [reroll]
    by_cases dropped : die.isDropped
    · simp only [dropped, if_true] at uncut ⊢
      rw [ih uncut]
    · simp only [dropped, Bool.false_eq_true, if_false, Bool.or_eq_false_iff] at uncut ⊢
      rw [rerollValue_of_wider le uncut.1, ih uncut.2]

end Dice

namespace EvalM.Follows

variable {limits limits' : Limits} {functions : FunctionTable} {source : Source}
  {evaluate evaluate' : EvalM Value}

/-! ## Numbers, operators and comparisons -/

/-- The value of a child that has to be a number. -/
private theorem number (h : Follows evaluate evaluate') :
    Follows (EvalM.number evaluate) (EvalM.number evaluate') := by
  unfold EvalM.number
  apply h.bind
  intro value
  cases value.number? with
  | some n => exact pure n
  | none => exact throw _

/-- The value of a child that is rounded to an integer. -/
private theorem rounded (h : Follows evaluate evaluate') :
    Follows (EvalM.rounded evaluate) (EvalM.rounded evaluate') := by
  unfold EvalM.rounded
  apply h.number.bind
  intro n
  exact ofNumber _

/-- A problem is collected, and the node counts zero. -/
private theorem report_zero (problem : Problem) :
    Follows (do EvalM.report problem; return .int 0 : EvalM Value)
      (do EvalM.report problem; return .int 0) :=
  (report problem).bind fun _ => pure _

/-- Arithmetic depends on no limit of its own. -/
private theorem arithmetic (op : Operator) (h : Follows evaluate evaluate') :
    Follows (EvalM.arithmetic op evaluate) (EvalM.arithmetic op evaluate') := by
  unfold EvalM.arithmetic
  apply (requireChildren 2).bind
  intro _
  apply (h.onChild 0).bind
  intro left
  apply (h.onChild 1).bind
  intro right
  -- No limit is looked at behind the operands, so both sides branch alike.
  split
  · split
    · split
      · exact report_zero _
      · exact pure _
    · exact report_zero _
    · exact report_zero _
  · exact throw _

/-- Negation depends on no limit of its own. -/
private theorem negation (h : Follows evaluate evaluate') :
    Follows (EvalM.negation evaluate) (EvalM.negation evaluate') := by
  unfold EvalM.negation
  apply (requireChildren 1).bind
  intro _
  apply (h.number.onChild 0).bind
  intro n
  exact pure _

/-- The condition of a modifier depends on no limit of its own. -/
private theorem condition (h : Follows evaluate evaluate') :
    Follows (EvalM.condition evaluate) (EvalM.condition evaluate') := by
  unfold EvalM.condition
  apply node.bind
  intro node
  split
  · split
    · exact throw _
    · apply (h.onChild _).bind
      intro threshold
      exact pure _
  · exact throw _

/-- Whether nodes can be tested depends on no limit. -/
private theorem requireTestable (c : Condition) (nodes : List Node) :
    Follows (EvalM.requireTestable c nodes) (EvalM.requireTestable c nodes) := by
  unfold EvalM.requireTestable
  split
  · exact pure _
  · exact throw _

/-- A comparison depends on no limit of its own. -/
private theorem comparison (h : Follows evaluate evaluate') :
    Follows (EvalM.comparison evaluate) (EvalM.comparison evaluate') := by
  unfold EvalM.comparison
  apply childCount.bind
  intro count
  -- A comparison with one child hands on its value.
  split
  · exact h.onChild 0
  · apply (requireChildren 2).bind
    intro _
    apply (h.onChild 0).bind
    intro _
    apply (node.onChild 0).bind
    intro left
    split
    · exact throw _
    · exact pure _
    · apply h.condition.bind
      intro c
      apply (requireTestable c _).bind
      intro _
      apply ((modifyNode _).onChild 0).bind
      intro _
      exact pure _

/-! ## Functions and groups -/

/-- The argument of a function, if it is the only one. -/
private theorem singleArgument (h : Follows evaluate evaluate') :
    Follows (DiceFunction.singleArgument evaluate) (DiceFunction.singleArgument evaluate') := by
  unfold DiceFunction.singleArgument
  apply node.bind
  intro node
  split
  · exact (report _).bind fun _ => pure _
  · apply (h.number.onChild 0).bind
    intro n
    exact pure _

/-- A function of one number depends on no limit, if what it does with the number does not. -/
private theorem ofFunction (label : String) {f : Number → EvalM Number}
    (hf : ∀ n, Follows (f n) (f n)) (h : Follows evaluate evaluate') :
    Follows ((DiceFunction.ofNumber label f).run evaluate)
      ((DiceFunction.ofNumber label f).run evaluate') := by
  unfold DiceFunction.ofNumber
  apply h.singleArgument.bind
  intro argument
  cases argument with
  | none => exact pure _
  | some n => exact (hf n).bind fun _ => pure _

/-- The square root depends on no limit. -/
private theorem squareRoot (n : Number) :
    Follows (DiceFunction.squareRoot n) (DiceFunction.squareRoot n) := by
  unfold DiceFunction.squareRoot
  split
  · exact (report _).bind fun _ => pure _
  · exact ofNumber _

/-- None of the functions that are always there looks at limits. -/
private theorem default {name : String} {f : DiceFunction}
    (known : FunctionTable.default.get? name = some f) (h : Follows evaluate evaluate') :
    Follows (f.run evaluate) (f.run evaluate') := by
  have integer (g : Number → Except NumberError Int) (n : Number) :
      Follows (do return Number.int (← EvalM.ofNumber (g n)))
        (do return .int (← EvalM.ofNumber (g n))) :=
    (ofNumber _).bind fun _ => pure _
  apply FunctionTable.of_default known
  case abs => exact ofFunction _ (fun n => pure n.abs) h
  case ceil => exact ofFunction _ (integer Number.ceil) h
  case floor => exact ofFunction _ (integer Number.floor) h
  case round => exact ofFunction _ (integer Number.roundHalfUp) h
  case sqrt => exact ofFunction _ squareRoot h

/-- The call of a known function depends on no limit of its own. -/
private theorem function (h : Follows evaluate evaluate') :
    Follows (EvalM.function .default evaluate) (EvalM.function .default evaluate') := by
  unfold EvalM.function
  apply node.bind
  intro node
  dsimp only
  split
  · exact throw _
  · next f known =>
    split at known
    · exact default known h
    · cases known

/-- Too many repeats are a problem, and repeats that are allowed are allowed by wider limits. -/
private theorem expandGroup (wider : limits.AtMost limits') :
    Follows (EvalM.expandGroup limits) (EvalM.expandGroup limits') := by
  unfold EvalM.expandGroup
  apply node.bind
  intro group
  split
  · exact pure _
  · next repeats _ =>
    apply (modifyNode _).bind
    intro _
    split
    · exact throw _
    · next times _ =>
      dsimp only
      cases excess : limits.maxRolls.filter fun limit : Nat => (Number.int limit).lt times with
      | some limit =>
        -- The narrow limit reports the excess, whatever the wide one does.
        apply of_collects
        apply Collects.bind_right (note _)
        intro _
        exact (collects_report _).bind_left fun _ => modifyNode _
      | none =>
        -- What the narrow limit lets pass, the wide one does too.
        have allowed : limits'.maxRolls.filter (fun limit : Nat => (Number.int limit).lt times) =
            none := by
          rw [Option.filter_eq_none_iff] at excess ⊢
          intro most hmost above
          obtain ⟨limit, hlimit, le⟩ := wider.rolls most hmost
          exact excess limit hlimit (Number.lt_of_le_of_lt (Int.ofNat_le.mpr le) above)
        rw [allowed]
        apply (modifyNode _).bind
        intro _
        apply (ofNumber _).bind
        intro count
        exact modifyNode _

/-- A group whose repeats are within the limit has them within a wider one. -/
private theorem group (wider : limits.AtMost limits') (h : Follows evaluate evaluate') :
    Follows (EvalM.group limits evaluate) (EvalM.group limits' evaluate') := by
  unfold EvalM.group
  apply (expandGroup wider).bind
  intro _
  apply (foldChildren (fun acc => ?_) (Number.int 0)).bind
  · intro sum
    exact pure _
  · exact h.number.bind fun n => ofNumber _

/-! ## Rolls -/

/-- The sum of the dice depends on no limit. -/
private theorem total : Follows EvalM.total EvalM.total := by
  unfold EvalM.total
  apply node.bind
  intro node
  split
  · exact throw _
  · exact ofNumber _

/-- To pass a limit is a problem, and what is within a limit is within a wider one. -/
private theorem within (bounds : Bounds) {wider : Option Nat} (amount : Int)
    (allows : Limits.Allows bounds.most wider) :
    Follows (EvalM.within bounds amount) (EvalM.within { bounds with most := wider } amount) := by
  unfold EvalM.within
  dsimp only
  split
  · exact (report _).bind fun _ => pure _
  cases bounded : bounds.most with
  | none =>
    -- A limit that is lifted altogether has no narrow limit below it, so only this case is left.
    cases wider with
    | none => exact pure _
    | some most =>
      obtain ⟨limit, given, -⟩ := allows most rfl
      rw [bounded] at given
      cases given
  | some limit =>
    dsimp only
    -- Above the narrow limit a problem is collected, and nothing is claimed of the wide run.
    by_cases above : (limit : Int) < amount
    · rw [if_pos above]
      apply of_collects
      apply Collects.bind_right (note _)
      intro _
      exact (collects_report _).bind_left fun _ => pure _
    · rw [if_neg above]
      cases wider with
      | none => exact pure _
      | some most =>
        obtain ⟨least, given, le⟩ := allows most rfl
        rw [bounded] at given
        cases given
        dsimp only
        rw [if_neg (by omega)]
        exact pure _

/-- The sides of a roll depend on no limit. -/
private theorem rollSides : Follows EvalM.rollSides EvalM.rollSides := by
  unfold EvalM.rollSides
  apply node.bind
  intro node
  split
  · exact throw _
  · split
    · split
      · exact pure _
      · exact (pure _).rounded.bind fun _ => pure _
    · exact throw _

/-- A roll that is within the limits is thrown in the same way under wider ones. -/
private theorem roll (wider : limits.AtMost limits') (h : Follows evaluate evaluate') :
    Follows (EvalM.roll ⟨limits, functions, source⟩ evaluate)
      (EvalM.roll ⟨limits', functions, source⟩ evaluate') := by
  unfold EvalM.roll
  apply (requireChildren 2).bind
  intro _
  apply (h.rounded.onChild 0).bind
  intro count
  apply rollSides.bind
  intro sides
  apply (modifyNode _).bind
  intro _
  apply (within limits.onCount count wider.rolls).bind
  intro countAllowed
  -- What is done with the dice depends on no limit.
  have thrown (sidesAllowed : Bool) (faces : Faces) (shown : Value) :
      Follows
        (if countAllowed && sidesAllowed then do
          let answers ← EvalM.draw ⟨limits, functions, source⟩ faces
          EvalM.request faces count.toNat
          EvalM.modifyNode fun n => n.withChildren (Dice.fresh shown answers count.toNat)
          EvalM.note (.rolled count shown ((List.range count.toNat).map answers))
          return Value.number (← EvalM.total)
        else return Value.int 0)
        (if countAllowed && sidesAllowed then do
          let answers ← EvalM.draw ⟨limits', functions, source⟩ faces
          EvalM.request faces count.toNat
          EvalM.modifyNode fun n => n.withChildren (Dice.fresh shown answers count.toNat)
          EvalM.note (.rolled count shown ((List.range count.toNat).map answers))
          return Value.number (← EvalM.total)
        else return Value.int 0) := by
    split
    · apply (draw faces).bind
      intro answers
      apply (request _ _).bind
      intro _
      apply (modifyNode _).bind
      intro _
      apply (note _).bind
      intro _
      exact total.bind fun _ => pure _
    · exact pure _
  cases sides with
  | none => exact (pure true).bind fun sidesAllowed => thrown sidesAllowed _ _
  | some s =>
    exact (within limits.onSides s wider.sides).bind fun sidesAllowed => thrown sidesAllowed _ _

/-! ## Modifiers -/

/-- Renewing the sum of a roll depends on no limit. -/
private theorem refresh : Follows EvalM.refresh EvalM.refresh := by
  unfold EvalM.refresh
  apply onChild
  apply onDice
  apply total.bind
  intro sum
  apply (setAttribute _ _).bind
  intro _
  exact pure _

/-- The roll that a modifier stands on depends on no limit of its own. -/
private theorem operandDice (h : Follows evaluate evaluate') :
    Follows (EvalM.operandDice evaluate) (EvalM.operandDice evaluate') := by
  unfold EvalM.operandDice
  apply onChild
  apply h.bind
  intro _
  exact node.onDice

/-- Putting dice into a roll depends on no limit. -/
private theorem setDice (dice : List Node) : Follows (EvalM.setDice dice) (EvalM.setDice dice) :=
  onChild 0 (onDice (modifyNode _))

/-- The faces of a roll depend on no limit. -/
private theorem facesOf (dice : Node) : Follows (EvalM.facesOf dice) (EvalM.facesOf dice) := by
  unfold EvalM.facesOf
  split
  · exact throw _
  · apply (ofNumber _).bind
    intro faces
    cases faces with
    | none => exact throw _
    | some faces => exact pure _

/-- The condition that dice are examined with depends on no limit of its own. -/
private theorem modifierCondition (default : Condition) (examined : List Node)
    (h : Follows evaluate evaluate') :
    Follows (EvalM.modifierCondition evaluate default examined)
      (EvalM.modifierCondition evaluate' default examined) := by
  unfold EvalM.modifierCondition
  apply childCount.bind
  intro count
  split
  · exact pure _
  · apply (h.condition.onChild 1).bind
    intro c
    exact (requireTestable c examined).bind fun _ => pure _

/-- Explosions, rerolls and critical marks begin alike: the roll is found, and its faces are
    known. -/
private theorem operandFaces {β : Type} {next next' : Node → Value × Faces → EvalM β}
    (h : Follows evaluate evaluate')
    (hnext : ∀ roll sides faces, Follows (next roll (sides, faces)) (next' roll (sides, faces))) :
    Follows
      (do
        EvalM.requireChildrenUpTo 2
        let roll ← EvalM.operandDice evaluate
        let known ← EvalM.facesOf roll
        next roll known)
      (do
        EvalM.requireChildrenUpTo 2
        let roll ← EvalM.operandDice evaluate'
        let known ← EvalM.facesOf roll
        next' roll known) := by
  apply (requireChildrenUpTo 2).bind
  intro _
  apply h.operandDice.bind
  intro roll
  exact (facesOf roll).bind fun (sides, faces) => hnext roll sides faces

/-- Dice that were cut off are a problem, and dice that came to rest are the same where more draws
    are allowed. -/
private theorem setDrawn {β : Type} {draws draws' : Nat} {dice dice' : List Node}
    {capped capped' : Bool}
    {n n' : Note} {problem problem' : Problem} {faces : Faces} (rest : Nat → EvalM β)
    (uncut : capped = false → draws' = draws ∧ dice' = dice ∧ capped' = false)
    (hrest : ∀ draws, Follows (rest draws) (rest draws)) :
    Follows
      (do
        EvalM.request faces draws
        EvalM.setDice dice
        if capped then do
          EvalM.note n
          EvalM.report problem
          rest draws
        else rest draws)
      (do
        EvalM.request faces draws'
        EvalM.setDice dice'
        if capped' then do
          EvalM.note n'
          EvalM.report problem'
          rest draws'
        else rest draws') := by
  -- A reroll or an explosion that is cut off under the narrow limits collects a problem; otherwise
  -- both runs make the same draws.
  cases capped with
  | true =>
    apply of_collects
    apply Collects.bind_right (request _ _)
    intro _
    apply Collects.bind_right (setDice _)
    intro _
    simp only [if_true]
    apply Collects.bind_right (note _)
    intro _
    exact (collects_report _).bind_left fun _ => hrest _
  | false =>
    obtain ⟨rfl, rfl, rfl⟩ := uncut rfl
    simp only [Bool.false_eq_true, if_false]
    apply (request _ _).bind
    intro _
    exact (setDice _).bind fun _ => hrest _

/-- Explosions that are not cut off are the same under wider limits. -/
private theorem explode (wider : limits.AtMost limits') (h : Follows evaluate evaluate') :
    Follows (EvalM.explode ⟨limits, functions, source⟩ evaluate)
      (EvalM.explode ⟨limits', functions, source⟩ evaluate') := by
  unfold EvalM.explode
  apply h.operandFaces
  intro roll sides faces
  apply node.bind
  intro node
  apply (h.modifierCondition _ _).bind
  intro c
  apply (draw faces).bind
  intro answers
  apply setDrawn fun draws => do EvalM.note (.exploded draws); EvalM.refresh
  · -- What was not cut off explodes the same way under the wide limits.
    intro uncut
    rw [Dice.explode_of_wider wider.iterations uncut]
    exact ⟨rfl, rfl, uncut⟩
  · exact fun _ => (note _).bind fun _ => refresh

/-- Rerolls that are not cut off are the same under wider limits. -/
private theorem reroll (wider : limits.AtMost limits') (h : Follows evaluate evaluate') :
    Follows (EvalM.reroll ⟨limits, functions, source⟩ evaluate)
      (EvalM.reroll ⟨limits', functions, source⟩ evaluate') := by
  unfold EvalM.reroll
  apply h.operandFaces
  intro roll sides faces
  apply node.bind
  intro node
  apply (h.modifierCondition _ _).bind
  intro c
  apply (draw faces).bind
  intro answers
  apply setDrawn fun _ => EvalM.refresh
  · -- What was not cut off is rerolled the same way under the wide limits.
    intro uncut
    rw [Dice.reroll_of_wider wider.iterations uncut]
    exact ⟨rfl, rfl, uncut⟩
  · exact fun _ => refresh

/-- Keeping and dropping depend on no limit of their own. -/
private theorem select (keep : Bool) (h : Follows evaluate evaluate') :
    Follows (EvalM.select keep evaluate) (EvalM.select keep evaluate') := by
  unfold EvalM.select
  apply (requireChildrenUpTo 2).bind
  intro _
  apply h.operandDice.bind
  intro dice
  -- The amount is one or evaluated, and from there on the two cases are the same.
  have chosen (amount : Int) :
      Follows
        (do
          let highest := (← EvalM.node).hasText "type" "highest"
          if (Dice.liveNumbers? dice.children).isNone then MonadExcept.throw .notANumber
          EvalM.setDice ((if keep then Dice.keep else Dice.drop) highest amount dice.children)
          EvalM.refresh)
        (do
          let highest := (← EvalM.node).hasText "type" "highest"
          if (Dice.liveNumbers? dice.children).isNone then MonadExcept.throw .notANumber
          EvalM.setDice ((if keep then Dice.keep else Dice.drop) highest amount dice.children)
          EvalM.refresh) := by
    apply node.bind
    intro node
    dsimp only
    split
    · exact (throw _).bind fun _ => (setDice _).bind fun _ => refresh
    · exact (setDice _).bind fun _ => refresh
  apply childCount.bind
  intro count
  by_cases one : count < 2
  · simp only [one, if_true]
    exact (pure 1).bind chosen
  · simp only [one, if_false]
    exact (h.rounded.onChild 1).bind chosen

/-- Marking critical dice depends on no limit of its own. -/
private theorem critical (h : Follows evaluate evaluate') :
    Follows (EvalM.critical evaluate) (EvalM.critical evaluate') := by
  unfold EvalM.critical
  apply h.operandFaces
  intro roll sides faces
  apply node.bind
  intro node
  apply (h.modifierCondition _ _).bind
  intro c
  exact (setDice _).bind fun _ => refresh

/-- Sorting depends on no limit of its own. -/
theorem sort (h : Follows evaluate evaluate') :
    Follows (EvalM.sort evaluate) (EvalM.sort evaluate') := by
  unfold EvalM.sort
  apply (requireChildrenUpTo 1).bind
  intro _
  apply h.operandDice.bind
  intro dice
  apply node.bind
  intro node
  dsimp only
  split
  · exact (throw _).bind fun _ => (setDice _).bind fun _ => refresh
  · exact (setDice _).bind fun _ => refresh

/-- A modifier that reports nothing does the same under wider limits. -/
private theorem modifier (wider : limits.AtMost limits') (h : Follows evaluate evaluate')
    (m : Modifier) : Follows (EvalM.modifier ⟨limits, functions, source⟩ evaluate m)
      (EvalM.modifier ⟨limits', functions, source⟩ evaluate' m) := by
  cases m with
  | explode => exact h.explode wider
  | keep => exact h.select true
  | drop => exact h.select false
  | critical => exact h.critical
  | reroll => exact h.reroll wider
  | sort => exact h.sort

/-! ## Trees -/

/-- What a node comes to without a problem it comes to under wider limits. -/
theorem compute (wider : limits.AtMost limits') (h : Follows evaluate evaluate') :
    Follows (EvalM.compute ⟨limits, .default, source⟩ evaluate)
      (EvalM.compute ⟨limits', .default, source⟩ evaluate') := by
  unfold EvalM.compute
  apply node.bind
  intro node
  dsimp only
  cases node.kind with
  | integer => exact throw _
  | diceSides => exact throw _
  | diceRoll => exact throw _
  | operator op => exact h.arithmetic op
  | negate => exact h.negation
  | comparison op => exact h.comparison
  | dice => exact h.roll wider
  | function => exact h.function
  | group => exact h.group wider
  | modifier m => exact h.modifier wider m

/-- Each level of an evaluation follows if the levels below do. -/
theorem evaluateWithin (wider : limits.AtMost limits') (levels : Nat) :
    Follows (EvalM.evaluateWithin ⟨limits, .default, source⟩ levels)
      (EvalM.evaluateWithin ⟨limits', .default, source⟩ levels) := by
  induction levels with
  | zero => exact throw _
  | succ levels ih =>
    rw [EvalM.evaluateWithin, EvalM.evaluateWithin]
    apply node.bind
    intro node
    -- A value that was stored earlier is returned under any limits.
    cases node.value? with
    | some value => exact pure value
    | none =>
      apply (ih.compute wider).bind
      intro value
      apply (setAttribute _ _).bind
      intro _
      exact pure _

end EvalM.Follows

/-- An interpretation without problems has the same outcome with wider limits, and the same record:
    the same requests were made and the same was logged. -/
theorem interpret_of_wider {limits limits' : Limits} {source : Source}
    (wider : limits.AtMost limits') {tree : Node} {record record' : Record} {outcome : Outcome}
    (finished : interpret ⟨limits, .default, source⟩ tree record = (.ok outcome, record'))
    (clean : outcome.problems = []) :
    interpret ⟨limits', .default, source⟩ tree record = (.ok outcome, record') := by
  unfold interpret at finished ⊢
  cases run : (EvalM.evaluate ⟨limits, .default, source⟩).run
      ⟨tree, { record with problems := #[] }⟩ with
  | error e t =>
    rw [run] at finished
    cases finished
  | ok total t =>
    rw [run] at finished
    cases finished
    -- A clean outcome leaves the list of problems as empty as it was at the start.
    have none : t.record.problems.size = 0 := by
      rw [← Array.length_toList]
      exact congrArg List.length clean
    have follows : EvalM.Follows (EvalM.evaluate ⟨limits, .default, source⟩)
        (EvalM.evaluate ⟨limits', .default, source⟩) :=
      EvalM.Follows.node.bind fun node => .evaluateWithin wider node.depth
    -- The only other case is that a problem was added, which has just been excluded.
    rcases follows.met _ _ _ run with more | ⟨-, run'⟩
    · rw [none] at more
      cases more
    · have ran : (EvalM.evaluate ⟨limits', .default, source⟩).run
          ⟨tree, { record with problems := #[] }⟩ = .ok total t := run'
      rw [ran]

/-- Two rolls of three dice, which explode up to the limit of explosions, and no limit is passed. -/
theorem interpret_of_wider_explosions :
    let tree := (Expr.group [.roll (.literal 3) (.faces 6)
      [.explode false (some ⟨.greater, 4⟩), .reroll true none]] (some 2)).toNode
    let limits : Limits := ⟨some 3, some 6, 2⟩
    let wider : Limits := ⟨none, some 10, 1000⟩
    let source : Source := fun request _ => [2, 6, 5, 4, 1, 3].getD (request % 6) 0
    limits.AtMost wider ∧ ∃ outcome record,
      interpret ⟨limits, .default, source⟩ tree {} = (.ok outcome, record) ∧
        outcome.problems = [] ∧ record.requests.size = 12 ∧
          interpret ⟨wider, .default, source⟩ tree {} = (.ok outcome, record) := by
  intro tree limits wider source
  have allows : limits.AtMost wider :=
    ⟨nofun, by rintro _ ⟨⟩; exact ⟨6, rfl, by decide⟩, by decide⟩
  -- The narrow run is computed, and the theorem says what the wide one comes to.
  have clean : (match interpret ⟨limits, .default, source⟩ tree {} with
      | (.ok outcome, record) => outcome.problems.isEmpty && record.requests.size == 12
      | _ => false) = true := by decide +kernel
  cases run : interpret ⟨limits, .default, source⟩ tree {} with
  | mk result record =>
    rw [run] at clean
    cases result with
    | error e => cases clean
    | ok outcome =>
      rw [Bool.and_eq_true, List.isEmpty_iff, beq_iff_eq] at clean
      exact ⟨allows, outcome, record, rfl, clean.1, clean.2,
        interpret_of_wider allows run clean.1⟩

end DiceNotation
