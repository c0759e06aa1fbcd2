import DiceNotation.Evaluation.Rules

/-! # Success tests

A comparison of two expressions counts successes: each target on its left side is tested
against the threshold on its right side and marked.  The targets of a dice roll are its dice
that count, those of a group its members; anything else is its own target.

A modifier's condition is a comparison that has a threshold only. -/

namespace DiceNotation

namespace Node

/-- What a comparison with this node on its left side tests; nothing if that should be the dice
    of a roll and there is no roll. -/
def targets? (node : Node) : Option (List Node) :=
  if node.kind.isRoll then node.findDice?.map fun dice => Dice.live dice.children
  else if node.kind = .group then some node.children
  else some [node]

/-- Change the targets of a comparison with this node on its left side. -/
def mapTargets (f : Node → Node) (node : Node) : Node :=
  if node.kind.isRoll then
    match node.findDice? with
    | none => node
    | some dice =>
      node.replaceDice
        (dice.withChildren (dice.children.map fun die => if die.isDropped then die else f die))
  else if node.kind = .group then node.withChildren (node.children.map f)
  else f node

section

variable {node : Node} {f : Node → Node}

/-- The targets in a group are its members. -/
theorem targets?_of_group (kind : node.kind = .group) : node.targets? = some node.children := by
  unfold targets?
  rw [if_neg (by rw [kind]; exact nofun), if_pos kind]

/-- A node that is neither a roll nor a group is its own target. -/
theorem targets?_of_single (plain : node.kind.isRoll = false) (single : node.kind ≠ .group) :
    node.targets? = some [node] := by
  unfold targets?
  rw [if_neg (by rw [plain]; exact nofun), if_neg single]

/-- Marking the targets of a group marks its members. -/
theorem mapTargets_of_group (kind : node.kind = .group) :
    node.mapTargets f = node.withChildren (node.children.map f) := by
  unfold mapTargets
  rw [if_neg (by rw [kind]; exact nofun), if_pos kind]

/-- Marking the target of a node that is neither a roll nor a group marks the node. -/
theorem mapTargets_of_single (plain : node.kind.isRoll = false) (single : node.kind ≠ .group) :
    node.mapTargets f = f node := by
  unfold mapTargets
  rw [if_neg (by rw [plain]; exact nofun), if_neg single]

end

end Node

/-- Mark a target with the outcome of its test. -/
def Condition.mark (c : Condition) (target : Node) : Node :=
  target.set "success" (if c.holds target.value? then "yes" else "no")

namespace EvalM

/-- The condition that a comparison node states; its last child is the threshold. -/
def condition (evaluate : EvalM Value) : EvalM Condition := do
  let node ← node
  match node.kind with
  | .comparison op =>
    if node.children.isEmpty then throw (.noOperand node.kind)
    else return ⟨op, ← onChild (node.childCount - 1) evaluate⟩
  | kind => throw (.notAComparison kind)

/-- Check that the nodes can be tested. -/
def requireTestable (c : Condition) (nodes : List Node) : EvalM Unit :=
  if nodes.all fun node => c.admits node.value? then pure () else throw .notANumber

/-- Whether a value stands in the relation of the comparison in focus to its threshold. -/
def compareWith (left : Value) (evaluate : EvalM Value) : EvalM Bool := do
  let c ← condition evaluate
  if c.admits (some left) then return c.holds (some left) else throw .notANumber

/-- Evaluate a comparison: the number of targets that pass, or the threshold of a condition.  The
    threshold of a comparison is evaluated only if there is a target. -/
def comparison (evaluate : EvalM Value) : EvalM Value := do
  if (← childCount) = 1 then onChild 0 evaluate
  else
    requireChildren 2
    let _ ← onChild 0 evaluate
    let left ← onChild 0 node
    match left.targets? with
    | none => throw (.noDice left.kind)
    | some [] => return .int 0
    | some targets =>
      let c ← condition evaluate
      requireTestable c targets
      onChild 0 (modifyNode (Node.mapTargets c.mark))
      return .int (targets.countP fun target => c.holds target.value?)

end EvalM

end DiceNotation
