import DiceNotation.Proofs.Memory.Contract
import DiceNotation.Proofs.Trees.WellFormed

/-! # Trees that are stuck

A node is `Stuck` if evaluating it comes to a fault at once, before anything is changed, reported or
rolled, under whatever limits and with whatever random numbers.  It stays as it is then, so it is
stuck forever.

A fault below leaves the nodes above stuck: what is evaluated before the child that fails has a
value by now, and its value is given back.  A fault of a node's own leaves it stuck if all its
children have a value and nothing was changed between their evaluation and the fault.

* `stuck_of_compute`        all that a rule for one kind of node needs to know about its children
* `Stuck.negation`, …       a child is stuck
* `stuck_operator`, …       the children have values, and the node fails on them -/

namespace DiceNotation

open DiceNotation.EvalM (evaluateWithin compute)
open Node (StandsOn)

/-- The node comes to the fault whenever it is evaluated, and nothing changes. -/
def Stuck (e : Fault) (node : Node) : Prop :=
  ∀ limits source levels, node.depth ≤ levels →
    Refuses e node (evaluateWithin ⟨limits, .default, source⟩ levels)

/-- What another evaluation finds in the children of a node. -/
structure Reevaluates (evaluate : EvalM Value) (children : List Node) : Prop where
  yields : ∀ child ∈ children, ∀ value, child.value? = some value → Yields value child evaluate
  refuses : ∀ child ∈ children, ∀ e, Stuck e child → Refuses e child evaluate

/-- A node without a value is stuck if computing it changes nothing and comes to the fault. -/
theorem stuck_of_compute {e : Fault} {node : Node} (new : node.value? = none)
    (h : ∀ limits source evaluate, Reevaluates evaluate node.children →
      Refuses e node (compute ⟨limits, .default, source⟩ evaluate)) : Stuck e node := by
  intro limits source levels deep
  cases levels with
  | zero =>
    have positive := node.depth_pos
    omega
  | succ levels =>
    -- The children have one level less, and within it stored values are returned and stuck nodes
    -- fail.
    have again : Reevaluates (evaluateWithin ⟨limits, .default, source⟩ levels) node.children := by
      constructor
      · intro child hchild value stored
        have lower := Node.depth_lt_of_mem hchild
        have positive : 0 < levels := by
          have := child.depth_pos
          omega
        exact (remembers_evaluateWithin positive).yields stored
      · intro child hchild e stuck
        have lower := Node.depth_lt_of_mem hchild
        exact stuck limits source levels (by omega)
    rw [evaluateWithin]
    apply Refuses.node_bind
    rw [new]
    exact (h limits source _ again).bind

section

variable {e : Fault} {attributes : OrderedMap Value} {left right operand : Node} {a b : Number}
  (new : attributes.get? "value" = none)
include new

/-! ## Operators and comparisons -/

/-- A negation is stuck if its operand is. -/
theorem Stuck.negation (h : Stuck e operand) : Stuck e ⟨.negate, attributes, [operand]⟩ := by
  refine stuck_of_compute new fun limits source evaluate again => .node_bind ?_
  have refuses := again.refuses operand List.mem_cons_self e h
  exact .requireChildren_bind rfl (refuses.number.onChild rfl).bind

/-- An operation is stuck if its left operand is. -/
theorem Stuck.operator_left {op : Operator} (h : Stuck e left) :
    Stuck e ⟨.operator op, attributes, [left, right]⟩ := by
  refine stuck_of_compute new fun limits source evaluate again => .node_bind ?_
  have refuses := again.refuses left (by simp) e h
  exact .requireChildren_bind rfl (refuses.onChild rfl).bind

/-- An operation is stuck if its right operand is, when the left one has its value. -/
theorem Stuck.operator_right {op : Operator} (h : Stuck e right) {value : Value}
    (hleft : left.value? = some value) : Stuck e ⟨.operator op, attributes, [left, right]⟩ := by
  refine stuck_of_compute new fun limits source evaluate again => .node_bind ?_
  have yields := again.yields left (by simp) value hleft
  have refuses := again.refuses right (by simp) e h
  apply Refuses.requireChildren_bind rfl
  exact .yields_bind (yields.onChild rfl) (refuses.onChild rfl).bind

/-- The problem with an operation has too many digits. -/
theorem stuck_operator {op : Operator} {problem : Problem}
    (hleft : left.value? = some (.number a)) (hright : right.value? = some (.number b))
    (failed : op.problem? a b = some problem) (long : problem.isWritable = false) :
    Stuck .tooManyDigits ⟨.operator op, attributes, [left, right]⟩ := by
  refine stuck_of_compute new fun limits source evaluate again => .node_bind ?_
  have yieldsLeft := again.yields left (by simp) _ hleft
  have yieldsRight := again.yields right (by simp) _ hright
  apply Refuses.requireChildren_bind rfl
  apply Refuses.yields_bind (yieldsLeft.onChild rfl)
  apply Refuses.yields_bind (yieldsRight.onChild rfl)
  -- The operands have their values, so the same problem is met again and cannot be written.
  unfold Operator.problem? at failed
  simp only [Value.number?]
  cases applied : op.apply a b with
  | ok result =>
    rw [applied] at failed
    cases unbounded : result.isUnbounded with
    | false => simp [unbounded] at failed
    | true =>
      simp only [unbounded, if_true, Option.some.injEq] at failed ⊢
      subst failed
      exact (refuses_report long).bind
  | error reason =>
    rw [applied] at failed
    cases reason <;>
    · simp only [Option.some.injEq] at failed
      subst failed
      exact (refuses_report long).bind

/-- A comparison is stuck if its left side is. -/
theorem Stuck.comparison_left {op : Comparison} (h : Stuck e left) :
    Stuck e ⟨.comparison op, attributes, [left, right]⟩ := by
  refine stuck_of_compute new fun limits source evaluate again => .node_bind ?_
  have refuses := again.refuses left (by simp) e h
  apply Refuses.childCount_bind
  rw [if_neg (by simp [Node.childCount])]
  exact .requireChildren_bind rfl (refuses.onChild rfl).bind

/-- There is something to test, and the threshold is stuck. -/
theorem Stuck.comparison_right {op : Comparison} (h : Stuck e right) {value : Value}
    {targets : List Node}
    (hleft : left.value? = some value) (found : left.targets? = some targets)
    (present : targets ≠ []) : Stuck e ⟨.comparison op, attributes, [left, right]⟩ := by
  refine stuck_of_compute new fun limits source evaluate again => .node_bind ?_
  have yields := again.yields left (by simp) value hleft
  have refuses := again.refuses right (by simp) e h
  have looked : Yields left ⟨.comparison op, attributes, [left, right]⟩
      (EvalM.onChild 0 EvalM.node) :=
    fun _ => rfl
  apply Refuses.childCount_bind
  rw [if_neg (by simp [Node.childCount])]
  apply Refuses.requireChildren_bind rfl
  apply Refuses.yields_bind (yields.onChild rfl)
  apply Refuses.yields_bind looked
  rw [found]
  -- There are targets, so the right side is evaluated and fails.
  cases targets with
  | nil => exact absurd rfl present
  | cons target targets =>
    have stated : Refuses e ⟨.comparison op, attributes, [left, right]⟩
        (EvalM.condition evaluate) :=
      .node_bind (refuses.onChild rfl).bind
    exact stated.bind

/-! ## Functions -/

section

variable {name : String} {arguments : List Node} {argument : Node}
  (named : attributes.get? "name" = some (.text name))
include named

/-- A call of an unknown function is stuck. -/
theorem stuck_unknown (missing : FunctionTable.default.get? name = none) :
    Stuck (.unknownFunction (some (.text name))) ⟨.function, attributes, arguments⟩ := by
  refine stuck_of_compute new fun limits source evaluate again => .node_bind ?_
  have found : Node.get? ⟨.function, attributes, arguments⟩ "name" = some (.text name) := named
  apply Refuses.node_bind
  simp only [found, missing]
  exact fun _ => rfl

variable {label : String} {f : Number → EvalM Number}
  (known : FunctionTable.default.get? name = some (.ofNumber label f))
include known

/-- A function is called with the only argument. -/
private theorem stuck_of_call
    (h : ∀ evaluate, Reevaluates evaluate [argument] →
      Refuses e ⟨.function, attributes, [argument]⟩ (do
        let n ← EvalM.onChild 0 (EvalM.number evaluate)
        return Value.number (← f n))) :
    Stuck e ⟨.function, attributes, [argument]⟩ := by
  refine stuck_of_compute new fun limits source evaluate again => .node_bind ?_
  have found : Node.get? ⟨.function, attributes, [argument]⟩ "name" = some (.text name) := named
  apply Refuses.node_bind
  simp only [found, known]
  have called := h evaluate again
  unfold DiceFunction.ofNumber DiceFunction.singleArgument
  dsimp only
  rw [bind_assoc]
  apply Refuses.node_bind
  rw [if_neg (by simp [Node.childCount]), bind_assoc]
  exact called

/-- A call is stuck if its only argument is. -/
theorem Stuck.function_argument (h : Stuck e argument) :
    Stuck e ⟨.function, attributes, [argument]⟩ := by
  apply stuck_of_call new named known
  intro evaluate again
  have refuses := again.refuses argument List.mem_cons_self e h
  exact (refuses.number.onChild rfl).bind

/-- The function fails on the value of its argument. -/
theorem stuck_call (stored : argument.value? = some (.number a))
    (fails : ∀ node, Refuses e node (f a)) : Stuck e ⟨.function, attributes, [argument]⟩ := by
  apply stuck_of_call new named known
  intro evaluate again
  have yields := again.yields argument List.mem_cons_self _ stored
  exact .yields_bind (yields.number.onChild rfl) (fails _).bind

end

/-! ## Rolls -/

section

variable {count sides : Node} {reason : NumberError}

/-- A roll is stuck if its count is. -/
theorem Stuck.dice_count (h : Stuck e count) : Stuck e ⟨.dice, attributes, [count, sides]⟩ := by
  refine stuck_of_compute new fun limits source evaluate again => .node_bind ?_
  have refuses := again.refuses count List.mem_cons_self e h
  exact .requireChildren_bind rfl (refuses.rounded.onChild rfl).bind

/-- The number of dice is out of range. -/
theorem stuck_count (stored : count.value? = some (.number a))
    (fails : a.roundHalfUp = .error reason) :
    Stuck (.outOfRange reason) ⟨.dice, attributes, [count, sides]⟩ := by
  refine stuck_of_compute new fun limits source evaluate again => .node_bind ?_
  have yields := again.yields count List.mem_cons_self _ stored
  exact .requireChildren_bind rfl ((refuses_rounded yields fails).onChild rfl).bind

omit new in
/-- The sides are rounded whenever they are read. -/
private theorem run_rollSides {sidesAttributes : OrderedMap Value} {n : Number}
    (stored : sidesAttributes.get? "value" = some (.number n)) (record : Record) :
    EvalM.rollSides ⟨⟨.dice, attributes, [count, ⟨.diceSides, sidesAttributes, []⟩]⟩, record⟩ =
      (do return some (← EvalM.rounded (pure (Value.number n))) : EvalM (Option Int))
        ⟨⟨.dice, attributes, [count, ⟨.diceSides, sidesAttributes, []⟩]⟩, record⟩ := by
  have read : Node.value? ⟨.diceSides, sidesAttributes, []⟩ = some (.number n) := stored
  unfold EvalM.rollSides
  rw [EvalM.run_node_bind]
  simp only [List.getElem?_cons_succ, List.getElem?_cons_zero, read]
  rfl

omit new in
/-- The sides of a roll are the number that they are rounded to. -/
theorem yields_rollSides {sidesAttributes : OrderedMap Value} {n : Number} {k : Int}
    (stored : sidesAttributes.get? "value" = some (.number n)) (rounded : n.roundHalfUp = .ok k) :
    Yields (some k) ⟨.dice, attributes, [count, ⟨.diceSides, sidesAttributes, []⟩]⟩
      EvalM.rollSides := by
  intro record
  have shown : Yields (some k) ⟨.dice, attributes, [count, ⟨.diceSides, sidesAttributes, []⟩]⟩
      (do return some (← EvalM.rounded (pure (Value.number n)))) :=
    ((yields_pure _).rounded rounded).bind (yields_pure _)
  rw [run_rollSides stored]
  exact shown record

omit new in
/-- The sides of fate dice are none. -/
theorem yields_rollSides_fate {sidesAttributes : OrderedMap Value}
    (stored : sidesAttributes.get? "value" = some .fate) :
    Yields none ⟨.dice, attributes, [count, ⟨.diceSides, sidesAttributes, []⟩]⟩
      EvalM.rollSides := by
  have read : Node.value? ⟨.diceSides, sidesAttributes, []⟩ = some .fate := stored
  intro record
  unfold EvalM.rollSides
  rw [EvalM.run_node_bind]
  simp only [List.getElem?_cons_succ, List.getElem?_cons_zero, read]
  rfl

omit new in
/-- Sides that cannot be rounded are out of range. -/
theorem refuses_rollSides {sidesAttributes : OrderedMap Value} {n : Number}
    (stored : sidesAttributes.get? "value" = some (.number n))
    (fails : n.roundHalfUp = .error reason) :
    Refuses (.outOfRange reason) ⟨.dice, attributes, [count, ⟨.diceSides, sidesAttributes, []⟩]⟩
      EvalM.rollSides := by
  intro record
  rw [run_rollSides stored]
  exact (refuses_rounded (yields_pure _) fails).bind record

/-- The number of sides is out of range. -/
theorem stuck_sides {times : Int} {sidesAttributes : OrderedMap Value} {n : Number}
    (stored : count.value? = some (.number a)) (rounded : a.roundHalfUp = .ok times)
    (sides : sidesAttributes.get? "value" = some (.number n))
    (fails : n.roundHalfUp = .error reason) :
    Stuck (.outOfRange reason) ⟨.dice, attributes, [count, ⟨.diceSides, sidesAttributes, []⟩]⟩ := by
  refine stuck_of_compute new fun limits source evaluate again => .node_bind ?_
  have yields := again.yields count List.mem_cons_self _ stored
  apply Refuses.requireChildren_bind rfl
  apply Refuses.yields_bind ((yields.rounded rounded).onChild rfl)
  exact (refuses_rollSides sides fails).bind

end

/-! ## Modifiers -/

section

variable {m : Modifier} {argument : List Node} {roll amount : Node}

/-- The operand of a modifier is stuck. -/
theorem Stuck.modifier_operand (h : Stuck e operand) (hargument : Node.IsArgument m argument) :
    Stuck e ⟨.modifier m, attributes, operand :: argument⟩ := by
  refine stuck_of_compute new fun limits source evaluate again => .node_bind ?_
  have refuses := again.refuses operand List.mem_cons_self e h
  have looked : Refuses e ⟨.modifier m, attributes, operand :: argument⟩
      (EvalM.operandDice evaluate) := refuses.bind.onChild rfl
  have most : 0 < Node.childCount ⟨.modifier m, attributes, operand :: argument⟩ ∧
      Node.childCount ⟨.modifier m, attributes, operand :: argument⟩ ≤ 2 :=
    childCount_modifier hargument
  -- Every modifier looks at its operand first.
  cases m with
  | explode => exact .requireChildrenUpTo_bind most looked.bind
  | keep => exact .requireChildrenUpTo_bind most looked.bind
  | drop => exact .requireChildrenUpTo_bind most looked.bind
  | critical => exact .requireChildrenUpTo_bind most looked.bind
  | reroll => exact .requireChildrenUpTo_bind most looked.bind
  | sort =>
    obtain rfl := hargument.sort
    have only : 0 < Node.childCount ⟨.modifier .sort, attributes, [operand]⟩ ∧
        Node.childCount ⟨.modifier .sort, attributes, [operand]⟩ ≤ 1 := by
      simp [Node.childCount]
    exact .requireChildrenUpTo_bind only looked.bind

/-- The number of dice to keep or to drop is out of range. -/
theorem stuck_amount {value : Value} {n : Number} {reason : NumberError}
    (ranks : m = .keep ∨ m = .drop) (stored : operand.value? = some value)
    (stands : StandsOn roll operand) (given : amount.value? = some (.number n))
    (fails : n.roundHalfUp = .error reason) :
    Stuck (.outOfRange reason) ⟨.modifier m, attributes, [operand, amount]⟩ := by
  refine stuck_of_compute new fun limits source evaluate again => .node_bind ?_
  have yields := again.yields operand List.mem_cons_self _ stored
  have literal := again.yields amount (by simp) _ given
  have looked : Yields roll ⟨.modifier m, attributes, [operand, amount]⟩
      (EvalM.operandDice evaluate) := (yields.bind (yields_onDice stands)).onChild rfl
  have most : 0 < Node.childCount ⟨.modifier m, attributes, [operand, amount]⟩ ∧
      Node.childCount ⟨.modifier m, attributes, [operand, amount]⟩ ≤ 2 := by
    simp [Node.childCount]
  -- Keeping and dropping round the amount before anything else is done to the dice.
  have selecting : ∀ keep, Refuses (.outOfRange reason)
      ⟨.modifier m, attributes, [operand, amount]⟩ (EvalM.select keep evaluate) := by
    intro keep
    apply Refuses.requireChildrenUpTo_bind most
    apply Refuses.yields_bind looked
    apply Refuses.childCount_bind
    rw [if_neg (by simp [Node.childCount])]
    exact ((refuses_rounded literal fails).onChild rfl).bind
  rcases ranks with rfl | rfl
  · exact selecting true
  · exact selecting false

end

end

/-! ## Groups -/

/-- Adding the values of the nodes to a sum comes to the fault, behind nodes that have values. -/
inductive StuckSum (e : Fault) : Number → List Node → Prop where
  | member {sum : Number} {member : Node} {rest : List Node} (h : Stuck e member) :
      StuckSum e sum (member :: rest)
  | addition {sum n : Number} {member : Node} {rest : List Node} {reason : NumberError}
      (stored : member.value? = some (.number n)) (fails : sum.add n = .error reason)
      (same : e = .outOfRange reason) : StuckSum e sum (member :: rest)
  | later {sum n total : Number} {member : Node} {rest : List Node}
      (stored : member.value? = some (.number n)) (added : sum.add n = .ok total)
      (h : StuckSum e total rest) : StuckSum e sum (member :: rest)

/-- What is known of several nodes is known of all but the first one. -/
theorem Reevaluates.tail {evaluate : EvalM Value} {node : Node} {nodes : List Node}
    (h : Reevaluates evaluate (node :: nodes)) : Reevaluates evaluate nodes where
  yields child hchild := h.yields child (List.mem_cons_of_mem _ hchild)
  refuses child hchild := h.refuses child (List.mem_cons_of_mem _ hchild)

/-- A sum that is stuck comes to the same fault again, and its members stay as they are. -/
private theorem run_foldNodes_of_stuckSum {e : Fault} {evaluate : EvalM Value} {sum : Number}
    {nodes : List Node} (h : StuckSum e sum nodes) (again : Reevaluates evaluate nodes)
    (record : Record) :
    EvalM.foldNodes (fun acc => do EvalM.ofNumber (acc.add (← EvalM.number evaluate))) sum nodes
      record = .error e (nodes, record) := by
  have added {n : Number} {member : Node} {rest : List Node}
      (again : Reevaluates evaluate (member :: rest))
      (stored : member.value? = some (.number n)) : Yields n member (EvalM.number evaluate) :=
    (again.yields member List.mem_cons_self _ stored).number
  -- The members before the one that is stuck return their values, and the sum goes on as before.
  induction h with
  | @member sum member rest stuck =>
    have refuses := again.refuses member List.mem_cons_self e stuck
    have stops : Refuses e member (do EvalM.ofNumber (sum.add (← EvalM.number evaluate))) :=
      refuses.number.bind
    rw [EvalM.foldNodes, stops record]
  | @addition sum n member rest reason stored fails same =>
    subst same
    have stops : Refuses (.outOfRange reason) member
        (do EvalM.ofNumber (sum.add (← EvalM.number evaluate))) :=
      .yields_bind (added again stored) (refuses_ofNumber fails)
    rw [EvalM.foldNodes, stops record]
  | @later sum n total member rest stored added' _ ih =>
    have counted : Yields total member (EvalM.ofNumber (sum.add n)) := by
      rw [added']
      exact fun _ => rfl
    have goesOn : Yields total member (do EvalM.ofNumber (sum.add (← EvalM.number evaluate))) :=
      (added again stored).bind counted
    rw [EvalM.foldNodes, goesOn record]
    dsimp only
    rw [ih again.tail]

/-- The sum of a group that was repeated before, or never has to be. -/
theorem StuckSum.group {e : Fault} {node : Node} (kind : node.kind = .group)
    (new : node.value? = none) (single : node.get? "repeat" = none)
    (h : StuckSum e 0 node.children) : Stuck e node := by
  refine stuck_of_compute new fun limits source evaluate again => .node_bind ?_
  rw [kind]
  -- The repeats are gone, so the members stand as they were left.
  have expanded : Yields () node (EvalM.expandGroup limits) := by
    intro record
    unfold EvalM.expandGroup
    rw [EvalM.run_node_bind, single]
    rfl
  have summed : Refuses e node (EvalM.foldChildren
      (fun acc => do EvalM.ofNumber (acc.add (← EvalM.number evaluate))) (Number.int 0)) := by
    intro record
    have stops := run_foldNodes_of_stuckSum h again record
    have start : Number.int 0 = 0 := rfl
    simp only [EvalM.foldChildren, start, stops]
    cases node
    rfl
  exact .yields_bind expanded summed.bind

end DiceNotation
