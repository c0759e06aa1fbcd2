import DiceNotation.Proofs.Limits.Following
import DiceNotation.Proofs.Memory.Contract
import DiceNotation.Proofs.Trees.Rolls

/-! # Modifiers on rolls

A modifier evaluates what it stands on, and then it changes the dice of the roll that it finds
there.  `Pending` is where it stands in between: the operand has been evaluated, whatever that
brought, and its roll is found.  What a modifier leaves depends on nothing else.

* `Compares`, `Counts`   what the argument of a modifier says
* `Altered`              what the evaluation of a modifier leaves
* `ComesTo`              it leaves something, or ends with one of certain faults
* `Pending.altered`      it leaves that if its step does so when the roll is found -/

namespace DiceNotation

open DiceNotation.EvalM (evaluateWithin)
open Node (StandsOn)

/-- A modifier that was not evaluated stands on an operand that evaluates to `rolled`, where the
    dice of `roll` show faces.  An operand that was evaluated before evaluates to itself. -/
structure Pending (rules : Rules) (levels : Nat) (attributes : OrderedMap Value) (operand : Node)
    (record : Record) (rolled : Focus) (roll : Node) : Prop where
  new : attributes.get? "value" = none
  evaluated : ∃ value, evaluateWithin rules levels ⟨operand, record⟩ = .ok value rolled
  stands : StandsOn roll rolled.node
  faces : ∀ die ∈ roll.children, die.IsDie

/-- What a modifier with this argument tests dice against.  Without an argument it tests them
    against a face. -/
inductive Compares (default : Condition) : List Node → Condition → Prop where
  | default : Compares default [] default
  | given {op : Comparison} {attributes : OrderedMap Value} {limit : Node} {n : Number}
      (value : limit.value? = some (.number n)) :
      Compares default [⟨.comparison op, attributes, [limit]⟩] ⟨op, .number n⟩

/-- How many dice a modifier with this argument selects.  Without an argument it is one die. -/
inductive Counts : List Node → Int → Prop where
  | one : Counts [] 1
  | given {node : Node} {n : Number} {amount : Int} (value : node.value? = some (.number n))
      (rounded : n.roundHalfUp = .ok amount) : Counts [node] amount

/-- What the evaluation of a modifier leaves when its operand has been evaluated: these dice stand
    in the roll, and their sum is the value of the roll and of the modifier.  Nothing else is
    changed in the tree. -/
structure Altered (m : Modifier) (attributes : OrderedMap Value) (operand roll : Node)
    (argument dice : List Node) (trace : Trace) (value : Value) (after : Focus) : Prop where
  value : value = .int (Dice.total dice)
  node : after.node = Node.store
    ⟨.modifier m, attributes, operand.replaceDice (roll.renewed dice) :: argument⟩
    (.int (Dice.total dice))
  trace : after.record.trace = trace

/-- A run has a result as said, or else it ends with a fault that is allowed. -/
inductive ComesTo (allowed : Fault → Prop) (post : Value → Focus → Prop) :
    EStateM.Result Fault Focus Value → Prop where
  | ok {value : Value} {after : Focus} (h : post value after) :
      ComesTo allowed post (.ok value after)
  | error {e : Fault} {after : Focus} (h : allowed e) : ComesTo allowed post (.error e after)

/-- If no fault is allowed, there is a result. -/
theorem ComesTo.result {allowed : Fault → Prop} {post : Value → Focus → Prop}
    {run : EStateM.Result Fault Focus Value} (h : ComesTo allowed post run)
    (never : ∀ e, ¬ allowed e) : ∃ value after, run = .ok value after ∧ post value after := by
  cases h with
  | ok found => exact ⟨_, _, rfl, found⟩
  | error refused => exact absurd refused (never _)

/-- A step that cannot fail comes to a result. -/
theorem Ensures.result {α : Type} {node : Node} {record : Record} {step : EvalM α}
    {post : α → Node → Trace → Prop} (h : Ensures (fun _ => False) node record.trace step post) :
    ∃ a after, step ⟨node, record⟩ = .ok a after ∧ post a after.node after.record.trace := by
  have met := h.met record rfl
  cases run : step ⟨node, record⟩ with
  | ok a after =>
    rw [run] at met
    exact ⟨a, after, rfl, met⟩
  | error e after =>
    rw [run] at met
    exact met.elim

/-- What the step of a modifier leaves, before its value is stored. -/
structure Summed (m : Modifier) (attributes : OrderedMap Value) (operand roll : Node)
    (argument dice : List Node) (trace : Trace) (value : Value) (after : Node) (trace' : Trace) :
    Prop where
  value : value = .int (Dice.total dice)
  node : after = ⟨.modifier m, attributes, operand.replaceDice (roll.renewed dice) :: argument⟩
  trace : trace' = trace

/-- A trace with a problem more, if there is one. -/
def Trace.told (trace : Trace) (capped : Bool) (problem : Problem) : Trace :=
  { trace with problems := trace.problems ++ if capped then [problem] else [] }

section

variable {rules : Rules} {levels : Nat} {allowed : Fault → Prop} {evaluate : EvalM Value}
  {m : Modifier} {attributes : OrderedMap Value} {operand roll : Node} {argument dice : List Node}
  {record : Record} {rolled : Focus} {trace : Trace}

/-! ## The operand and the argument -/

/-- The operand is evaluated, and its roll is found. -/
private theorem run_operandDice {value : Value}
    (evaluated : evaluate ⟨operand, record⟩ = .ok value rolled)
    (stands : StandsOn roll rolled.node) :
    EvalM.operandDice evaluate ⟨⟨.modifier m, attributes, operand :: argument⟩, record⟩ =
      .ok roll ⟨⟨.modifier m, attributes, rolled.node :: argument⟩, rolled.record⟩ := by
  have inner : (do
      let _ ← evaluate
      EvalM.onDice EvalM.node) ⟨operand, record⟩ = .ok roll rolled := by
    rw [EvalM.bind_of_ok evaluated]
    exact yields_onDice stands rolled.record
  exact EvalM.onChild_of_ok rfl inner

/-- When its operand has been evaluated, a modifier goes on with the roll that it finds. -/
theorem run_modifier {most : Nat} {next : Node → EvalM Value} {value : Value}
    (begins : EvalM.modifier rules evaluate m = (do
      EvalM.requireChildrenUpTo most
      let roll ← EvalM.operandDice evaluate
      next roll))
    (few : argument.length < most) (evaluated : evaluate ⟨operand, record⟩ = .ok value rolled)
    (stands : StandsOn roll rolled.node) :
    EvalM.modifier rules evaluate m
        ⟨⟨.modifier m, attributes, operand :: argument⟩, record⟩ =
      next roll ⟨⟨.modifier m, attributes, rolled.node :: argument⟩, rolled.record⟩ := by
  have counted : 0 < Node.childCount ⟨.modifier m, attributes, operand :: argument⟩ ∧
      Node.childCount ⟨.modifier m, attributes, operand :: argument⟩ ≤ most := by
    simp only [Node.childCount, List.length_cons]
    omega
  rw [begins, EvalM.bind_of_ok (EvalM.run_requireChildrenUpTo counted record),
    EvalM.bind_of_ok (run_operandDice evaluated stands)]

/-- The value of a node that has none is computed and stored. -/
theorem run_new {node : Node} (new : node.value? = none) (record : Record) :
    evaluateWithin rules (levels + 1) ⟨node, record⟩ = (do
      let value ← EvalM.compute rules (evaluateWithin rules levels)
      EvalM.setAttribute "value" value.normalize
      return value.normalize) ⟨node, record⟩ := by
  rw [evaluateWithin, EvalM.run_node_bind, new]

/-- A modifier without a value is computed, and its value is stored. -/
theorem run_new_modifier {children : List Node} (new : attributes.get? "value" = none)
    (record : Record) :
    evaluateWithin rules (levels + 1) ⟨⟨.modifier m, attributes, children⟩, record⟩ = (do
      let value ← EvalM.modifier rules (evaluateWithin rules levels) m
      EvalM.setAttribute "value" value.normalize
      return value.normalize) ⟨⟨.modifier m, attributes, children⟩, record⟩ :=
  have empty : Node.value? ⟨.modifier m, attributes, children⟩ = none := new
  run_new empty record

/-- A roll without a value is computed, and its value is stored. -/
theorem run_new_roll {children : List Node} (new : attributes.get? "value" = none)
    (record : Record) :
    evaluateWithin rules (levels + 1) ⟨⟨.dice, attributes, children⟩, record⟩ = (do
      let value ← EvalM.roll rules (evaluateWithin rules levels)
      EvalM.setAttribute "value" value.normalize
      return value.normalize) ⟨⟨.dice, attributes, children⟩, record⟩ :=
  have empty : Node.value? ⟨.dice, attributes, children⟩ = none := new
  run_new empty record

/-- An evaluation that came to a result had a level to spend, so it gives back stored values. -/
theorem Pending.remembers (pending : Pending rules levels attributes operand record rolled roll) :
    Remembers (evaluateWithin rules levels) := by
  obtain ⟨value, evaluated⟩ := pending.evaluated
  cases levels with
  | zero => cases evaluated
  | succ levels => exact remembers_evaluateWithin (Nat.succ_pos levels)

/-- A condition takes one argument at most. -/
theorem Compares.length_lt {default c : Condition} (compares : Compares default argument c) :
    argument.length < 2 := by
  cases compares <;> simp

/-- An amount takes one argument at most. -/
theorem Counts.length_lt {amount : Int} (counts : Counts argument amount) :
    argument.length < 2 := by
  cases counts <;> simp

/-- The condition of a modifier is read off its argument.  If there is no die to examine, it is not
    looked at. -/
theorem Compares.ensures_bind {β : Type} {default c : Condition} {examined : List Node}
    (compares : Compares default argument c) (remembers : Remembers evaluate)
    (faces : ∀ die ∈ examined, die.IsDie) {next : Condition → EvalM β}
    {post : β → Node → Trace → Prop}
    (h : ∀ c', (examined ≠ [] → c' = c) →
      Ensures allowed ⟨.modifier m, attributes, operand :: argument⟩ trace (next c') post) :
    Ensures allowed ⟨.modifier m, attributes, operand :: argument⟩ trace
      (EvalM.modifierCondition evaluate default examined >>= next) post := by
  have read : Ensures allowed ⟨.modifier m, attributes, operand :: argument⟩ trace
      (EvalM.modifierCondition evaluate default examined) fun c' after trace' =>
        (examined ≠ [] → c' = c) ∧
          after = ⟨.modifier m, attributes, operand :: argument⟩ ∧ trace' = trace := by
    unfold EvalM.modifierCondition
    apply Ensures.childCount_bind
    cases compares with
    | default =>
      rw [if_pos (by simp [Node.childCount])]
      exact .pure ⟨fun _ => rfl, rfl, rfl⟩
    | @given op _ limit n value =>
      -- Without dice to examine the limit is not read, and the condition is the default one.
      by_cases empty : examined = []
      · rw [if_pos (by simp [empty])]
        exact .pure ⟨fun present => absurd empty present, rfl, rfl⟩
      · rw [if_neg (by simp [Node.childCount, empty])]
        -- A die with a face may be compared with any number.
        have admitted : ∀ die ∈ examined, Condition.admits ⟨op, .number n⟩ die.value? :=
          fun die hdie => admits_number op n ⟨_, (faces die hdie).value?⟩
        apply Ensures.run_bind (Ensures.run_onChild rfl
          (run_condition fun record => remembers _ _ record value))
        apply Ensures.run_bind (run_requireTestable admitted)
        exact .pure ⟨fun _ => rfl, rfl, rfl⟩
  apply read.bind
  intro c' _ _ found
  obtain ⟨same, rfl, rfl⟩ := found
  exact h c' same

/-- The number of dice to select is read off the argument. -/
theorem Counts.ensures_bind {β : Type} {amount : Int} (counts : Counts argument amount)
    (remembers : Remembers evaluate) {next : Int → EvalM β} {post : β → Node → Trace → Prop}
    (h : Ensures allowed ⟨.modifier m, attributes, operand :: argument⟩ trace (next amount) post) :
    Ensures allowed ⟨.modifier m, attributes, operand :: argument⟩ trace
      (do
        if (← EvalM.childCount) < 2 then pure 1 >>= next
        else EvalM.onChild 1 (EvalM.rounded evaluate) >>= next) post := by
  apply Ensures.childCount_bind
  cases counts with
  | one =>
    rw [if_pos (by simp [Node.childCount])]
    exact h
  | @given node n _ value rounded =>
    rw [if_neg (by simp [Node.childCount])]
    have stored : Yields (Value.number n) node evaluate :=
      fun record => remembers node _ record value
    exact Ensures.run_bind (Ensures.run_onChild rfl (stored.rounded rounded)) h

/-! ## The steps behind -/

/-- What is told of a limit is told if it was reached. -/
private theorem Trace.told_of_tell {trace trace' : Trace} {capped : Bool} {problem : Problem}
    (h : Sem.tell capped problem trace = .ok () trace') : trace' = trace.told capped problem := by
  cases capped with
  | false =>
    cases h
    simp [Trace.told]
  | true =>
    unfold Sem.tell Sem.collect at h
    rw [if_pos rfl] at h
    split at h
    · cases h
      rfl
    · cases h

/-- A limit that was reached is told, if it can be written. -/
theorem ensures_told {β : Type} {node : Node} {capped : Bool} {n : Note} {problem : Problem}
    {rest : EvalM β} {post : β → Node → Trace → Prop}
    (long : capped = true → problem.isWritable = false → allowed .tooManyDigits)
    (h : Ensures allowed node (trace.told capped problem) rest post) :
    Ensures allowed node trace
      (if capped then do
        EvalM.note n
        EvalM.report problem
        rest
      else rest) post := by
  apply ensures_tell long
  intro trace' told
  rw [Trace.told_of_tell told]
  exact h

/-- When the dice are in their place, they are summed up. -/
theorem ensures_renew (stands : StandsOn roll operand) (hdice : ∀ die ∈ dice, die.IsDie) :
    Ensures allowed ⟨.modifier m, attributes,
        operand.replaceDice (roll.withChildren dice) :: argument⟩ trace EvalM.refresh
      (Summed m attributes operand roll argument dice trace) :=
  .of_run (run_refresh stands hdice) ⟨rfl, rfl, rfl⟩

/-- What the step of a modifier comes to when its roll is found is stored, and this is what the
    evaluation of the modifier leaves. -/
theorem Pending.altered (pending : Pending rules levels attributes operand record rolled roll)
    {most : Nat} {next : Node → EvalM Value} {trace' : Trace}
    (begins : EvalM.modifier rules (evaluateWithin rules levels) m = (do
      EvalM.requireChildrenUpTo most
      let roll ← EvalM.operandDice (evaluateWithin rules levels)
      next roll))
    (few : argument.length < most)
    (step : Ensures allowed ⟨.modifier m, attributes, rolled.node :: argument⟩ rolled.record.trace
      (next roll) (Summed m attributes rolled.node roll argument dice trace')) :
    ComesTo allowed (Altered m attributes rolled.node roll argument dice trace')
      (evaluateWithin rules (levels + 1)
        ⟨⟨.modifier m, attributes, operand :: argument⟩, record⟩) := by
  -- The steps of the modifier end with the sum, which is then stored as its value.
  have stored : Ensures allowed ⟨.modifier m, attributes, rolled.node :: argument⟩
      rolled.record.trace (do
        let value ← next roll
        EvalM.setAttribute "value" value.normalize
        return value.normalize) fun value after trace =>
          value = .int (Dice.total dice) ∧ after = Node.store
            ⟨.modifier m, attributes, rolled.node.replaceDice (roll.renewed dice) :: argument⟩
            (.int (Dice.total dice)) ∧ trace = trace' := by
    apply step.bind
    intro value after trace found
    obtain ⟨rfl, rfl, rfl⟩ := found
    exact .modifyNode_bind (.pure ⟨rfl, rfl, rfl⟩)
  -- The evaluation of the operand may do anything, so its run is followed and no contract is used.
  obtain ⟨_, evaluated⟩ := pending.evaluated
  have run : evaluateWithin rules (levels + 1)
      ⟨⟨.modifier m, attributes, operand :: argument⟩, record⟩ = (do
        let value ← next roll
        EvalM.setAttribute "value" value.normalize
        return value.normalize)
          ⟨⟨.modifier m, attributes, rolled.node :: argument⟩, rolled.record⟩ := by
    rw [run_new_modifier pending.new]
    show EStateM.bind _ _ _ = EStateM.bind _ _ _
    unfold EStateM.bind
    rw [run_modifier begins few evaluated pending.stands]
  have met := stored.met rolled.record rfl
  rw [← run] at met
  revert met
  generalize evaluateWithin rules (levels + 1) _ = result
  intro met
  cases result with
  | ok value after =>
    obtain ⟨same, node, trace⟩ := met
    exact .ok ⟨same, node, trace⟩
  | error e after => exact .error met

end

end DiceNotation
