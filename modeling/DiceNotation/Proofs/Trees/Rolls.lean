import DiceNotation.Proofs.Trees.Evaluable

/-! # Evaluating rolls and modifiers

Given that the count of a roll is evaluable, the roll is computed as `Expands` says; given this for
what a modifier stands on, so is the modifier.  A modifier is followed in three steps: the operand
is evaluated and its roll is found (`ensures_operandDice`), the argument is read, and the dice are
put back and summed up (`ensures_refresh`).

The argument of a modifier is a literal or a comparison with one.  All that is needed of its
evaluation is that stored values are given back (`Remembers`). -/

namespace DiceNotation

open DiceNotation.EvalM (evaluateWithin compute)
open DiceNotation.Expr (Sides)
open Node (IsLiteral IsArgument WellFormed StandsOn)
open Sem (Lenient)

/-- A node with a value is not evaluated again. -/
def Remembers (evaluate : EvalM Value) : Prop :=
  ∀ (node : Node) (value : Value) (record : Record), node.value? = some value →
    evaluate ⟨node, record⟩ = .ok value ⟨node, record⟩

/-- With at least one level a value is remembered. -/
theorem remembers_evaluateWithin {rules : Rules} {levels : Nat} (positive : 0 < levels) :
    Remembers (evaluateWithin rules levels) := by
  intro node value record stored
  obtain ⟨levels, rfl⟩ := Nat.exists_eq_add_one.mpr positive
  unfold evaluateWithin
  rw [EvalM.run_node_bind, stored]
  rfl

section

variable {limits : Limits} {source : Source} {functions : FunctionTable}
  {allowed : Fault → Prop} {evaluate : EvalM Value} {node : Node}
  {attributes : OrderedMap Value} {trace : Trace}

/-! ## Rolls -/

/-- The value of an expanded node can be rounded, or is out of range. -/
private theorem Evaluable.rounded (lenient : Lenient allowed)
    (h : Evaluable limits source allowed evaluate node) (trace : Trace) :
    Ensures allowed node trace (EvalM.rounded evaluate) fun k after trace' =>
      ∃ a, Expands limits source node trace after a trace' ∧ a.roundHalfUp = .ok k := by
  unfold EvalM.rounded
  apply (h.number trace).bind
  intro a after trace' expands
  apply (Ensures.ofNumber lenient.outOfRange).mono
  intro k _ _ found
  obtain ⟨rounded, rfl, rfl⟩ := found
  exact ⟨a, expands, rounded⟩

/-- Dice are thrown if that is allowed. -/
theorem ensures_throwDice (ok : Bool) (times : Int) (sides : Option Int) :
    Ensures allowed (.thrown attributes times sides []) trace
      (EvalM.throwDice ⟨limits, functions, source⟩ ok times sides)
      fun value after trace' => ∃ dice,
        Roll.throwDice source ok times.toNat sides trace = (dice, trace') ∧
          value = .int (Dice.total dice) ∧ after = .thrown attributes times sides dice := by
  cases ok with
  | false => exact .pure ⟨[], rfl, rfl, rfl⟩
  | true =>
    simp only [EvalM.throwDice, if_true]
    apply Ensures.draw_bind
    apply Ensures.request_bind
    apply Ensures.modifyNode_bind
    apply Ensures.note_bind
    apply Ensures.run_bind (run_total (kept_isDie.fresh _ _ _))
    exact .pure ⟨_, rfl, rfl, rfl⟩

/-- A roll is expanded if its count is. -/
theorem ensures_roll (lenient : Lenient allowed) {sidesAttributes : OrderedMap Value}
    {sides : Sides} (stored : sidesAttributes.get? "value" = some sides.toValue)
    (h : Evaluable limits source allowed evaluate node) :
    Ensures allowed ⟨.dice, attributes, [node, ⟨.diceSides, sidesAttributes, []⟩]⟩ trace
      (EvalM.roll ⟨limits, functions, source⟩ evaluate)
      (Computed limits source ⟨.dice, attributes, [node, ⟨.diceSides, sidesAttributes, []⟩]⟩
        trace) := by
  unfold EvalM.roll
  apply Ensures.requireChildren_bind rfl
  apply (Ensures.onChild rfl (h.rounded lenient trace)).bind
  intro times _ trace₁ found
  obtain ⟨count', rfl, a, expands, rounded⟩ := found
  -- The sides are read off the second child.
  have read : Simulates ⟨.dice, attributes, [count', ⟨.diceSides, sidesAttributes, []⟩]⟩
      EvalM.rollSides (Roll.sideCount sides) fun a node' b => a = b ∧ node' = _ :=
    simulates_rollSides rfl rfl stored
  apply Ensures.compute_bind read (lenient.sideCount sides trace₁)
  intro sides' trace₂ known
  -- The number of sides depends on nothing that was observed, and leaves no trace.
  obtain ⟨hsides, rfl⟩ : Roll.sideCount sides = pure sides' ∧ trace₁ = trace₂ := by
    rcases Roll.sideCount_cases sides with ⟨known', hsides⟩ | ⟨e, hsides⟩
    · rw [hsides] at known
      cases known
      exact ⟨hsides, rfl⟩
    · rw [hsides] at known
      cases known
  apply Ensures.modifyNode_bind
  apply Ensures.compute_bind (simulates_within limits.onCount times) (lenient.within _ times trace₁)
  intro countAllowed trace₂ countChecked
  -- What is left is the same for numbered dice and for fate dice.
  have rest : ∀ sidesAllowed trace₃,
      Roll.sidesAllowed limits sides' trace₂ = .ok sidesAllowed trace₃ → ∀ value after trace',
      (∃ dice, Roll.throwDice source (countAllowed && sidesAllowed) times.toNat sides' trace₃ =
        (dice, trace') ∧ value = .int (Dice.total dice) ∧
          after = .thrown attributes times sides' dice) →
      Computed limits source ⟨.dice, attributes, [node, ⟨.diceSides, sidesAttributes, []⟩]⟩ trace
        value after trace' := by
    intro sidesAllowed trace₃ sidesChecked value after trace' found
    obtain ⟨dice, threw, rfl, rfl⟩ := found
    exact ⟨_, rfl, .roll stored expands rounded hsides countChecked sidesChecked threw⟩
  have checked : Simulates (.thrown attributes times sides' []) _
      (Roll.sidesAllowed limits sides') _ := simulates_sidesAllowed _ sides'
  cases sides' with
  | none =>
    apply Ensures.compute_bind checked (lenient.sidesAllowed none trace₂)
    intro sidesAllowed trace₃ sidesChecked
    exact (ensures_throwDice _ times none).mono (rest _ _ sidesChecked)
  | some s =>
    apply Ensures.compute_bind checked (lenient.sidesAllowed (some s) trace₂)
    intro sidesAllowed trace₃ sidesChecked
    exact (ensures_throwDice _ times (some s)).mono (rest _ _ sidesChecked)

/-! ## Arguments of modifiers -/

section

variable {m : Modifier} {operand operand' roll : Node} {argument dice : List Node}

/-- An argument is at most one node. -/
theorem childCount_modifier (h : IsArgument m argument) :
    0 < Node.childCount ⟨.modifier m, attributes, operand :: argument⟩ ∧
      Node.childCount ⟨.modifier m, attributes, operand :: argument⟩ ≤ 2 := by
  show 0 < (operand :: argument).length ∧ (operand :: argument).length ≤ 2
  cases h <;> simp

/-- The condition of a modifier is read off its argument, and nothing is changed. -/
theorem ensures_modifierCondition {β : Type} (remembers : Remembers evaluate)
    (h : IsArgument m argument) (tests : m ≠ .keep ∧ m ≠ .drop) {default : Condition}
    {examined : List Node} (faces : ∀ die ∈ examined, die.IsDie) {next : Condition → EvalM β}
    {post : β → Node → Trace → Prop}
    (hnext : ∀ c, Stated default examined argument c →
      Ensures allowed ⟨.modifier m, attributes, operand :: argument⟩ trace (next c) post) :
    Ensures allowed ⟨.modifier m, attributes, operand :: argument⟩ trace
      (EvalM.modifierCondition evaluate default examined >>= next) post := by
  -- Reading the condition leaves the node and the trace as they are.
  have read : Ensures allowed ⟨.modifier m, attributes, operand :: argument⟩ trace
      (EvalM.modifierCondition evaluate default examined) fun c after trace' =>
        Stated default examined argument c ∧
          after = ⟨.modifier m, attributes, operand :: argument⟩ ∧ trace' = trace := by
    unfold EvalM.modifierCondition
    apply Ensures.childCount_bind
    cases h with
    | none =>
      rw [if_pos (by simp [Node.childCount])]
      exact .pure ⟨.default (.inl rfl), rfl, rfl⟩
    | amount ranks _ => exact absurd ranks (not_or.mpr tests)
    | @condition op _ limit _ _ literal =>
      obtain ⟨n, value⟩ := literal.value?
      -- Without dice to test the default stands, whatever the argument says.
      by_cases empty : examined = []
      · subst empty
        rw [if_pos (by simp)]
        exact .pure ⟨.default (.inr rfl), rfl, rfl⟩
      · rw [if_neg (by simp [Node.childCount, empty])]
        have admitted : ∀ die ∈ examined, Condition.admits ⟨op, .int n⟩ die.value? :=
          fun die hdie => admits_number op (.int n) ⟨_, (faces die hdie).value?⟩
        apply Ensures.run_bind (Ensures.run_onChild rfl
          (run_condition fun record => remembers _ _ record value))
        apply Ensures.run_bind (run_requireTestable admitted)
        exact .pure ⟨.given empty value, rfl, rfl⟩
  apply read.bind
  intro c _ _ found
  obtain ⟨stated, rfl, rfl⟩ := found
  exact hnext c stated

/-- The number of dice to keep or to drop is read off the argument. -/
private theorem ensures_amount {β : Type} (lenient : Lenient allowed)
    (remembers : Remembers evaluate)
    (h : IsArgument m argument) (ranks : m = .keep ∨ m = .drop) {next : Int → EvalM β}
    {post : β → Node → Trace → Prop}
    (hnext : ∀ amount, Amounts argument amount →
      Ensures allowed ⟨.modifier m, attributes, operand :: argument⟩ trace (next amount) post) :
    Ensures allowed ⟨.modifier m, attributes, operand :: argument⟩ trace
      (do
        if (← EvalM.childCount) < 2 then pure 1 >>= next
        else EvalM.onChild 1 (EvalM.rounded evaluate) >>= next) post := by
  apply Ensures.childCount_bind
  -- An argument that is a condition belongs to other modifiers.
  cases h with
  | none =>
    rw [if_pos (by simp [Node.childCount])]
    exact hnext 1 .one
  | @amount literal _ isLiteral =>
    rw [if_neg (by simp [Node.childCount])]
    obtain ⟨n, value⟩ := isLiteral.value?
    -- The amount is a literal, so its value is looked up and rounded.
    have read : Ensures allowed literal trace (EvalM.rounded evaluate)
        fun amount after trace' => (Number.int n).roundHalfUp = .ok amount ∧
          after = literal ∧ trace' = trace := by
      unfold EvalM.rounded EvalM.number
      rw [bind_assoc]
      apply Ensures.run_bind fun record => remembers _ _ record value
      exact .ofNumber lenient.outOfRange
    apply (Ensures.onChild rfl read).bind
    intro amount _ _ found
    obtain ⟨_, rfl, rounded, rfl, rfl⟩ := found
    exact hnext amount (.given value rounded)
  | condition tests _ _ =>
    rcases ranks with rfl | rfl <;> simp at tests

/-! ## Modifiers -/

/-- The operand is evaluated, and the roll that it stands on is found. -/
theorem ensures_operandDice (h : Evaluable limits source allowed evaluate operand)
    (isRoll : operand.kind.isRoll = true) :
    Ensures allowed ⟨.modifier m, attributes, operand :: argument⟩ trace
      (EvalM.operandDice evaluate) fun roll after trace' => ∃ operand' a,
        after = ⟨.modifier m, attributes, operand' :: argument⟩ ∧
          Expands limits source operand trace operand' a trace' ∧ StandsOn roll operand' := by
  unfold EvalM.operandDice
  -- The operand is evaluated first, and then the roll in it is looked at.
  have inner : Ensures allowed operand trace (do
      let _ ← evaluate
      EvalM.onDice EvalM.node) fun roll operand' trace' => ∃ a,
        Expands limits source operand trace operand' a trace' ∧ StandsOn roll operand' := by
    apply (h trace).bind
    intro _ operand' trace' expanded
    obtain ⟨a, rfl, expands⟩ := expanded
    obtain ⟨roll, stands, -⟩ := expands.onRoll isRoll
    have looked : ∀ record, EvalM.onDice EvalM.node ⟨operand', record⟩ =
        .ok roll ⟨operand'.replaceDice roll, record⟩ :=
      Ensures.run_onDice stands.findDice? fun _ => rfl
    -- Looking at the roll puts it back where it was.
    rw [stands.replace_self] at looked
    exact .of_run looked ⟨a, expands, stands⟩
  apply (Ensures.onChild rfl inner).mono
  intro roll _ trace' found
  obtain ⟨operand', rfl, a, expands, stands⟩ := found
  exact ⟨operand', a, rfl, expands, stands⟩

/-- Other dice are put into the roll. -/
theorem run_setDice (stands : StandsOn roll operand) (dice : List Node) (record : Record) :
    EvalM.setDice dice ⟨⟨.modifier m, attributes, operand :: argument⟩, record⟩ =
      .ok () ⟨⟨.modifier m, attributes,
        operand.replaceDice (roll.withChildren dice) :: argument⟩, record⟩ := by
  have changed : ∀ record, EvalM.onDice (EvalM.modifyNode fun n => n.withChildren dice)
      ⟨operand, record⟩ = .ok () ⟨operand.replaceDice (roll.withChildren dice), record⟩ :=
    Ensures.run_onDice stands.findDice? fun _ => rfl
  exact Ensures.run_onChild rfl changed record

/-- The dice are summed up, and the roll has its new value. -/
theorem run_refresh (stands : StandsOn roll operand) (hdice : ∀ die ∈ dice, die.IsDie)
    (record : Record) :
    EvalM.refresh ⟨⟨.modifier m, attributes,
        operand.replaceDice (roll.withChildren dice) :: argument⟩, record⟩ =
      .ok (.int (Dice.total dice)) ⟨⟨.modifier m, attributes,
        operand.replaceDice (roll.renewed dice) :: argument⟩, record⟩ := by
  have other : StandsOn (roll.withChildren dice) (operand.replaceDice (roll.withChildren dice)) :=
    stands.replace stands.kind
  -- The sum is computed on the roll and stored there.
  have summed : ∀ record, (do
      let sum := Value.number (← EvalM.total)
      EvalM.setAttribute "value" sum
      return sum : EvalM Value) ⟨roll.withChildren dice, record⟩ =
        .ok (.int (Dice.total dice)) ⟨roll.renewed dice, record⟩ := by
    intro record
    show EStateM.bind EvalM.total _ _ = _
    unfold EStateM.bind
    rw [run_total hdice record]
    rfl
  have renewed := Ensures.run_onDice other.findDice? summed
  have kind : (roll.withChildren dice).kind = .dice := stands.kind
  -- The roll is found where the dice were put, and takes the place of the roll that has them.
  have twice : (operand.replaceDice (roll.withChildren dice)).replaceDice (roll.renewed dice) =
      operand.replaceDice (roll.renewed dice) := stands.replace_replace kind _
  rw [twice] at renewed
  exact Ensures.run_onChild rfl renewed record

/-- When the dice are in their place, a modifier is expanded by summing them up. -/
theorem ensures_refresh {a : Number} {trace₁ trace' : Trace}
    (expands : Expands limits source operand trace operand' a trace₁)
    (stands : StandsOn roll operand') (h : IsArgument m argument)
    (alters : Alters limits source ⟨.modifier m, attributes, operand :: argument⟩ roll argument m
      trace₁ dice trace') :
    Ensures allowed ⟨.modifier m, attributes,
        operand'.replaceDice (roll.withChildren dice) :: argument⟩ trace' EvalM.refresh
      (Computed limits source ⟨.modifier m, attributes, operand :: argument⟩ trace) := by
  have hdice : ∀ die ∈ dice, die.IsDie :=
    alters.kept kept_isDie (expands.isThrown stands).faces
  apply Ensures.of_run (run_refresh stands hdice)
  exact ⟨.int (Dice.total dice), rfl, .modifier expands stands h alters⟩

/-- If a limit was reached, this is noted and a problem is collected. -/
theorem ensures_tell {β : Type} {capped : Bool} {n : Note} {problem : Problem} {rest : EvalM β}
    {post : β → Node → Trace → Prop}
    (long : capped = true → problem.isWritable = false → allowed .tooManyDigits)
    (h : ∀ trace', Sem.tell capped problem trace = .ok () trace' →
      Ensures allowed node trace' rest post) :
    Ensures allowed node trace
      (if capped then do
        EvalM.note n
        EvalM.report problem
        rest
      else rest) post := by
  cases capped with
  | false => exact h trace rfl
  | true =>
    apply Ensures.note_bind
    apply (ensures_report (long rfl)).bind
    intro _ _ trace' found
    obtain ⟨rfl, told⟩ := found
    exact h trace' told

/-- Explosions, rerolls and critical marks begin alike: the roll is found, and its faces are
    known. -/
private theorem ensures_operandFaces {β : Type}
    (h : Evaluable limits source allowed evaluate operand)
    (isRoll : operand.kind.isRoll = true) (hargument : IsArgument m argument)
    {next : Node → Value × Faces → EvalM β} {post : β → Node → Trace → Prop}
    (hnext : ∀ roll operand' a sides faces trace',
      Expands limits source operand trace operand' a trace' → StandsOn roll operand' →
      roll.get? "sides" = some sides → Dice.faces sides = .ok (some faces) →
      Ensures allowed ⟨.modifier m, attributes, operand' :: argument⟩ trace'
        (next roll (sides, faces)) post) :
    Ensures allowed ⟨.modifier m, attributes, operand :: argument⟩ trace
      (do
        EvalM.requireChildrenUpTo 2
        let roll ← EvalM.operandDice evaluate
        let known ← EvalM.facesOf roll
        next roll known) post := by
  apply Ensures.requireChildrenUpTo_bind (childCount_modifier hargument)
  apply (ensures_operandDice h isRoll).bind
  intro roll _ trace₁ found
  obtain ⟨operand', a, rfl, expands, stands⟩ := found
  obtain ⟨sides, hsides⟩ := (expands.isThrown stands).sides
  have hfaces := faces_shownSides sides
  apply Ensures.run_bind (run_facesOf hsides hfaces)
  exact hnext roll operand' a _ _ trace₁ expands stands hsides hfaces

section

variable (lenient : Lenient allowed) (remembers : Remembers evaluate)
  (h : Evaluable limits source allowed evaluate operand) (isRoll : operand.kind.isRoll = true)
include lenient remembers h isRoll

/-- Dice that explode are expanded if their operand is. -/
private theorem ensures_explode (hargument : IsArgument .explode argument) :
    Ensures allowed ⟨.modifier .explode, attributes, operand :: argument⟩ trace
      (EvalM.explode ⟨limits, functions, source⟩ evaluate)
      (Computed limits source ⟨.modifier .explode, attributes, operand :: argument⟩ trace) := by
  unfold EvalM.explode
  apply ensures_operandFaces h isRoll hargument
  intro roll operand' a sides faces trace₁ expands stands hsides hfaces
  apply Ensures.node_bind
  apply ensures_modifierCondition remembers hargument (by decide) (expands.isThrown stands).live
  intro c stated
  apply Ensures.draw_bind
  apply Ensures.request_bind
  -- All draws are one request, and its dice replace the old ones.
  apply Ensures.run_bind (run_setDice stands _)
  apply ensures_tell fun _ _ => lenient.tooManyDigits
  intro trace' told
  apply Ensures.note_bind
  exact ensures_refresh expands stands hargument (.explode hsides hfaces stated rfl told)

/-- Dice that are rolled again are expanded if their operand is. -/
private theorem ensures_reroll (hargument : IsArgument .reroll argument) :
    Ensures allowed ⟨.modifier .reroll, attributes, operand :: argument⟩ trace
      (EvalM.reroll ⟨limits, functions, source⟩ evaluate)
      (Computed limits source ⟨.modifier .reroll, attributes, operand :: argument⟩ trace) := by
  unfold EvalM.reroll
  apply ensures_operandFaces h isRoll hargument
  intro roll operand' a sides faces trace₁ expands stands hsides hfaces
  apply Ensures.node_bind
  apply ensures_modifierCondition remembers hargument (by decide) (expands.isThrown stands).live
  intro c stated
  apply Ensures.draw_bind
  apply Ensures.request_bind
  -- As for explosions, but nothing is noted on the modifier.
  apply Ensures.run_bind (run_setDice stands _)
  apply ensures_tell fun _ _ => lenient.tooManyDigits
  intro trace' told
  exact ensures_refresh expands stands hargument (.reroll hsides hfaces stated rfl told)

omit lenient in
/-- Dice with critical marks are expanded if their operand is. -/
private theorem ensures_critical (hargument : IsArgument .critical argument) :
    Ensures allowed ⟨.modifier .critical, attributes, operand :: argument⟩ trace
      (EvalM.critical evaluate)
      (Computed limits source ⟨.modifier .critical, attributes, operand :: argument⟩ trace) := by
  unfold EvalM.critical
  apply ensures_operandFaces h isRoll hargument
  intro roll operand' a sides faces trace₁ expands stands hsides hfaces
  apply Ensures.node_bind
  apply ensures_modifierCondition remembers hargument (by decide) (expands.isThrown stands).faces
  intro c stated
  apply Ensures.run_bind (run_setDice stands _)
  exact ensures_refresh expands stands hargument (.critical hsides hfaces rfl stated)

/-- Keeping and dropping. -/
private theorem ensures_select (keep : Bool)
    (hargument : IsArgument (if keep then .keep else .drop) argument) :
    Ensures allowed ⟨.modifier (if keep then .keep else .drop), attributes, operand :: argument⟩
      trace (EvalM.select keep evaluate)
      (Computed limits source
        ⟨.modifier (if keep then .keep else .drop), attributes, operand :: argument⟩ trace) := by
  unfold EvalM.select
  apply Ensures.requireChildrenUpTo_bind (childCount_modifier hargument)
  apply (ensures_operandDice h isRoll).bind
  intro roll _ trace₁ found
  obtain ⟨operand', a, rfl, expands, stands⟩ := found
  -- Keeping and dropping are one definition, so the amount is read in one place.
  have ranks : (if keep then Modifier.keep else .drop) = .keep ∨
      (if keep then Modifier.keep else .drop) = .drop := by
    cases keep <;> simp
  apply ensures_amount lenient remembers hargument ranks
  intro amount amounts
  apply Ensures.node_bind
  rw [liveNumbers?_eq (expands.isThrown stands).faces]
  simp only [Option.isNone_some, Bool.false_eq_true, if_false]
  apply Ensures.run_bind (run_setDice stands _)
  cases keep with
  | true => exact ensures_refresh expands stands hargument (.keep amounts)
  | false => exact ensures_refresh expands stands hargument (.drop amounts)

omit lenient remembers in
/-- Sorted dice are expanded if their operand is. -/
private theorem ensures_sort (hargument : IsArgument .sort argument) :
    Ensures allowed ⟨.modifier .sort, attributes, operand :: argument⟩ trace (EvalM.sort evaluate)
      (Computed limits source ⟨.modifier .sort, attributes, operand :: argument⟩ trace) := by
  obtain rfl := hargument.sort
  unfold EvalM.sort
  apply Ensures.requireChildrenUpTo_bind (by simp [Node.childCount])
  apply (ensures_operandDice h isRoll).bind
  intro roll _ trace₁ found
  obtain ⟨operand', a, rfl, expands, stands⟩ := found
  apply Ensures.node_bind
  rw [mapM_number? (expands.isThrown stands).faces]
  simp only [Option.isNone_some, Bool.false_eq_true, if_false]
  apply Ensures.run_bind (run_setDice stands _)
  exact ensures_refresh expands stands hargument .sort

/-- A modifier of any kind is expanded if its operand is. -/
theorem ensures_modifier (hargument : IsArgument m argument) :
    Ensures allowed ⟨.modifier m, attributes, operand :: argument⟩ trace
      (EvalM.modifier ⟨limits, functions, source⟩ evaluate m)
      (Computed limits source ⟨.modifier m, attributes, operand :: argument⟩ trace) := by
  cases m with
  | explode => exact ensures_explode lenient remembers h isRoll hargument
  | keep => exact ensures_select lenient remembers h isRoll true hargument
  | drop => exact ensures_select lenient remembers h isRoll false hargument
  | critical => exact ensures_critical remembers h isRoll hargument
  | reroll => exact ensures_reroll lenient remembers h isRoll hargument
  | sort => exact ensures_sort h isRoll hargument

end

end

end

end DiceNotation
