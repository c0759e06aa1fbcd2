import DiceNotation.Proofs.Trees.Rolls

/-! # Evaluating well-formed trees

The evaluation of a well-formed tree expands it or comes to one of few faults
(`evaluable_of_wellFormed`, by induction on the tree): what an evaluation does to a tree never
breaks the structure that the rest of it relies on.

* `interpret_wellFormed`   a whole tree, from its copy to its outcome
* `interpret_fault`        the faults that a well-formed tree can come to -/

namespace DiceNotation

open DiceNotation.EvalM (evaluateWithin compute)
open Node (WellFormed IsLiteral mem_preorder_trans child_mem_preorder)
open Sem (Lenient)

/-- What can go wrong with a well-formed tree: a number is out of range or has too many digits, or
    the tree calls a function that is not there. -/
inductive Node.CanFail (root : Node) : Fault → Prop where
  | outOfRange (e : NumberError) : CanFail root (.outOfRange e)
  | tooManyDigits : CanFail root .tooManyDigits
  | unknownFunction {node : Node} {name : String} (inside : node ∈ root.preorder)
      (kind : node.kind = .function) (named : node.get? "name" = some (.text name))
      (missing : FunctionTable.default.get? name = none) :
      CanFail root (.unknownFunction (some (.text name)))

/-- Numbers may be out of range or too long to be written in any tree. -/
private theorem lenient_canFail (root : Node) :
    Lenient root.CanFail := ⟨.outOfRange, .tooManyDigits⟩

section

variable {limits : Limits} {source : Source}

variable (limits source) in
/-- Well-formed trees can be evaluated within as many levels as they have. -/
theorem evaluable_of_wellFormed {root node : Node} {levels : Nat} (h : node.WellFormed)
    (inside : node ∈ root.preorder) (deep : node.depth ≤ levels) :
    Evaluable limits source root.CanFail (evaluateWithin ⟨limits, .default, source⟩ levels)
      node := by
  have lenient := lenient_canFail root
  -- Each level of the evaluation takes one level of the tree.
  induction levels generalizing node with
  | zero =>
    have positive := node.depth_pos
    omega
  | succ levels ih =>
    -- The children are inside the whole tree too, which says how they may fail.
    have below : ∀ child ∈ node.children, child.WellFormed →
        Evaluable limits source root.CanFail
          (evaluateWithin ⟨limits, .default, source⟩ levels) child := by
      intro child hchild wellFormed
      have lower := Node.depth_lt_of_mem hchild
      exact ih wellFormed (mem_preorder_trans (child_mem_preorder hchild) inside) (by omega)
    cases h with
    | literal literal =>
      obtain @⟨attributes, n, stored⟩ := literal
      have value : Node.value? ⟨.integer, attributes, []⟩ = some (.int n) := stored
      intro trace
      apply Ensures.of_run fun record =>
        remembers_evaluateWithin (Nat.succ_pos levels) _ _ record value
      exact ⟨_, rfl, .literal stored⟩
    | @dice _ count _ new hcount hsides =>
      obtain ⟨sides, stored⟩ := hsides
      have evaluable := below count List.mem_cons_self hcount
      exact evaluable_of_computed new fun _ =>
        .node_bind (ensures_roll lenient stored evaluable)
    | @modifier m _ operand _ new isRoll hoperand hargument =>
      -- The argument stands as high as the operand, so that there is a level left for it.
      have lower : operand.depth < levels + 1 :=
        (Node.depth_lt_of_mem List.mem_cons_self).trans_le deep
      have positive : 0 < levels := by
        have := operand.depth_pos
        omega
      have evaluable := below operand List.mem_cons_self hoperand
      have remembers : Remembers (evaluateWithin ⟨limits, .default, source⟩ levels) :=
        remembers_evaluateWithin positive
      exact evaluable_of_computed new fun _ =>
        .node_bind (ensures_modifier lenient remembers evaluable isRoll hargument)
    | @negate _ operand new hoperand =>
      have evaluable := below operand List.mem_cons_self hoperand
      exact evaluable_of_computed new fun _ => .node_bind (ensures_negation evaluable)
    | @operator op _ left right new hleft hright =>
      have evaluableLeft := below left (by simp) hleft
      have evaluableRight := below right (by simp) hright
      exact evaluable_of_computed new fun _ =>
        .node_bind (ensures_arithmetic lenient op evaluableLeft evaluableRight)
    | @comparison op _ left right new hleft hright =>
      have evaluableLeft := below left (by simp) hleft
      have evaluableRight := below right (by simp) hright
      exact evaluable_of_computed new fun _ =>
        .node_bind (ensures_comparison op evaluableLeft evaluableRight hright)
    | function name new named harguments =>
      have evaluable := fun argument hargument =>
        below argument hargument (harguments argument hargument)
      exact evaluable_of_computed new fun _ => .node_bind (ensures_function lenient named
        (.unknownFunction inside rfl named) harguments evaluable)
    | group repeats new repeated hmembers =>
      have evaluable := fun member hmember => below member hmember (hmembers member hmember)
      exact evaluable_of_computed new fun _ =>
        .node_bind (ensures_group lenient rfl repeats repeated evaluable)

/-! ## Whole trees -/

variable (limits source) in
/-- Interpreting a well-formed tree expands it, or comes to a fault that it can come to. -/
theorem interpret_wellFormed {tree : Node} (h : tree.WellFormed) (record : Record) :
    match interpret ⟨limits, .default, source⟩ tree record with
    | (.ok outcome, record') => ∃ n, outcome.total = .number n ∧
        Expands limits source tree ⟨[], record.requests.toList⟩ outcome.tree n
          ⟨outcome.problems, record'.requests.toList⟩
    | (.error e, _) => tree.CanFail e := by
  -- The whole tree is evaluated with as many levels as it is deep.
  have evaluated := evaluable_of_wellFormed limits source h tree.self_mem_preorder
    (Nat.le_refl _) ⟨[], record.requests.toList⟩
  have met := evaluated.met { record with problems := #[] } rfl
  rw [interpret_eq]
  generalize evaluateWithin _ _ _ = result at met ⊢
  cases result with
  | ok total t => exact met
  | error e t => exact met

/-- If interpreting a well-formed tree has an outcome, the tree was expanded. -/
theorem interpret_expands {tree : Node} (h : tree.WellFormed) {record record' : Record}
    {outcome : Outcome}
    (finished : interpret ⟨limits, .default, source⟩ tree record = (.ok outcome, record')) :
    ∃ n, outcome.total = .number n ∧
      Expands limits source tree ⟨[], record.requests.toList⟩ outcome.tree n
        ⟨outcome.problems, record'.requests.toList⟩ := by
  have met := interpret_wellFormed limits source h record
  rwa [finished] at met

/-- An interpretation that is answered has an outcome. -/
theorem exists_outcome {rules : Rules} {tree : Node} {record : Record}
    (answered : (interpret rules tree record).1.isOk = true) :
    ∃ outcome record', interpret rules tree record = (.ok outcome, record') := by
  generalize interpret rules tree record = result at answered
  obtain ⟨_ | outcome, record'⟩ := result
  · cases answered
  · exact ⟨outcome, record', rfl⟩

/-- An evaluation of a well-formed tree never computes with what is no number, looks for a child
    that is not there or goes below the bottom of the tree, and the only thing that it refuses is
    a function of the tree that is not there. -/
theorem interpret_fault {tree : Node} (h : tree.WellFormed) {record : Record} {e : Fault}
    (failed : (interpret ⟨limits, .default, source⟩ tree record).1 = .error e) :
    e ≠ .notANumber ∧ e ≠ .missingChild ∧ e ≠ .tooDeep ∧
      (e.isRefusal = true → ∃ node ∈ tree.preorder, ∃ name : String, node.kind = .function ∧
        node.get? "name" = some (.text name) ∧ FunctionTable.default.get? name = none ∧
          e = .unknownFunction (some (.text name)) ∧ e.message = "Unknown function: " ++ name) := by
  have met := interpret_wellFormed limits source h record
  generalize interpret ⟨limits, .default, source⟩ tree record = result at failed met
  obtain ⟨outcome, record'⟩ := result
  simp only at failed
  subst failed
  cases met with
  | outOfRange reason => exact ⟨nofun, nofun, nofun, nofun⟩
  | tooManyDigits => exact ⟨nofun, nofun, nofun, nofun⟩
  | @unknownFunction node name inside kind named missing =>
    refine ⟨nofun, nofun, nofun, fun _ => ?_⟩
    exact ⟨node, inside, name, kind, named, missing, rfl, rfl⟩

/-- A call of a function that is not there, in a tree whose first operand was evaluated before. -/
theorem interpret_fault_unknown :
    let tree := (Expr.binary .add (.negate (.literal 2)) (.call "twice" [.literal 3])).toNode
    let e := Fault.unknownFunction (some (.text "twice"))
    tree.WellFormed ∧ (interpret ⟨{}, .default, fun _ faces => faces.low⟩ tree {}).1 = .error e ∧
      e ≠ .notANumber ∧ e ≠ .missingChild ∧ e ≠ .tooDeep ∧
      (e.isRefusal = true → ∃ node ∈ tree.preorder, ∃ name : String, node.kind = .function ∧
        node.get? "name" = some (.text name) ∧ FunctionTable.default.get? name = none ∧
          e = .unknownFunction (some (.text name)) ∧ e.message = "Unknown function: " ++ name) := by
  intro tree e
  have wellFormed : tree.WellFormed := Expr.toNode_wellFormed _
  have failed : (interpret ⟨{}, .default, fun _ faces => faces.low⟩ tree {}).1 = .error e := rfl
  exact ⟨wellFormed, failed, interpret_fault wellFormed failed⟩

end

end DiceNotation
