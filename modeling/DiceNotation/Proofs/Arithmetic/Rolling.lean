import DiceNotation.Proofs.Arithmetic.Notation
import DiceNotation.Proofs.Semantics.Contract
import DiceNotation.Proofs.Trees.Preorder
import DiceNotation.Proofs.Trees.Sums
import DiceNotation.Roll

/-! # Rolling integer arithmetic

A text of integer arithmetic in the notation of textbooks is rolled to its exact value.  Nothing is
requested or counted, and the only thing that goes wrong is a remainder by zero.

* `ensures_evaluateWithin`   the evaluation of an expression, by induction on it
* `rollText_of_denotes`      whole texts -/

namespace DiceNotation

open DiceNotation.EvalM (evaluateWithin compute)
open Node (Everywhere everywhere_iff)

/-- More divisions by zero have been observed. -/
def Trace.divided (trace : Trace) (times : Nat) : Trace :=
  { trace with problems := trace.problems ++ List.replicate times .divisionByZero }

/-- No division by zero leaves the trace as it is. -/
private theorem Trace.divided_zero (trace : Trace) : trace.divided 0 = trace := by
  simp [divided]

/-- Divisions by zero add up. -/
private theorem Trace.divided_divided (trace : Trace) (m n : Nat) :
    (trace.divided m).divided n = trace.divided (m + n) := by
  simp [divided]

namespace Arithmetic

/-- Every operation on integers has its exact result, apart from a remainder by zero. -/
private theorem Operation.apply_operator (op : Operation) (a b : Int) :
    op.operator.apply (.int a) (.int b) =
      if op = .modulo ∧ b = 0 then .error .divisionByZero else .ok (.int (op.apply a b)) := by
  cases op with
  | modulo =>
    by_cases zero : b = 0
    · subst zero
      rfl
    · simp [operator, Operator.apply, apply, Number.modulo, zero]
  | _ => rfl

/-- A remainder by zero comes to zero. -/
private theorem Operation.apply_zero {op : Operation} {a b : Int} (h : op = .modulo ∧ b = 0) :
    op.apply a b = 0 := by
  obtain ⟨rfl, rfl⟩ := h
  rfl

/-! ## Evaluating -/

/-- The tree of an evaluated expression. -/
def evaluated : Arithmetic → Node
  | literal n => .integer n
  | negate operand => (Node.make .negate [] [operand.evaluated]).set "value" (.int (-operand.value))
  | binary op left right =>
    (Node.make (.operator op.operator) [] [left.evaluated, right.evaluated]).set "value"
      (.int (op.apply left.value right.value))

/-- What an evaluation has come to. -/
def Finished (e : Arithmetic) (trace : Trace) (value : Value) (node : Node) (trace' : Trace) :
    Prop :=
  value = .int e.value ∧ node = e.evaluated ∧ trace' = trace.divided e.zeroModuli

/-- No fault is allowed. -/
def Never (_ : Fault) : Prop := False

section

variable {rules : Rules} {levels : Nat} {evaluate : EvalM Value} {node node' : Node}
  {trace : Trace} {left right : Arithmetic}

/-- A node without a value is computed, and its value is stored. -/
private theorem ensures_store {n : Int} {trace' : Trace} (new : node.value? = none)
    (h : Ensures Never node trace (compute rules (evaluateWithin rules levels))
      fun value after trace'' => value = .int n ∧ after = node' ∧ trace'' = trace') :
    Ensures Never node trace (evaluateWithin rules (levels + 1))
      fun value after trace'' => value = .int n ∧ after = node'.set "value" (.int n) ∧
        trace'' = trace' := by
  rw [evaluateWithin]
  apply Ensures.node_bind
  rw [new]
  apply h.bind
  intro value after trace'' found
  obtain ⟨rfl, rfl, rfl⟩ := found
  exact .modifyNode_bind (.pure ⟨rfl, rfl, rfl⟩)

/-- The report of a division by zero leaves the node as it is. -/
private theorem ensures_divisionByZero :
    Ensures Never node trace (EvalM.report .divisionByZero) fun _ node' trace' =>
      node' = node ∧ trace' = trace.divided 1 := by
  have safe : Sem.Safe Never (Sem.collect .divisionByZero) trace := nofun
  apply (Ensures.of_simulates (Simulates.report _) safe).mono
  intro _ node' trace' found
  obtain ⟨_, told, same⟩ := found
  cases told
  exact ⟨same, rfl⟩

/-- A negation comes to the negated value, with the problems of its operand. -/
private theorem ensures_negate
    (h : Ensures Never left.toExpr.toNode trace evaluate (left.Finished trace)) :
    Ensures Never (.make .negate [] [left.toExpr.toNode]) trace (EvalM.negation evaluate)
      fun value node' trace' => value = .int (-left.value) ∧
        node' = .make .negate [] [left.evaluated] ∧ trace' = trace.divided left.zeroModuli := by
  -- The operand is an integer, so it passes as the number that is negated.
  have number : Ensures Never left.toExpr.toNode trace (EvalM.number evaluate)
      fun n node' trace' => n = .int left.value ∧ node' = left.evaluated ∧
        trace' = trace.divided left.zeroModuli := by
    unfold EvalM.number
    apply h.bind
    intro value node' trace' found
    obtain ⟨rfl, rfl, rfl⟩ := found
    exact .pure ⟨rfl, rfl, rfl⟩
  unfold EvalM.negation
  apply Ensures.requireChildren_bind rfl
  apply (Ensures.onChild rfl number).bind
  intro n node' trace' found
  obtain ⟨_, rfl, rfl, rfl, rfl⟩ := found
  exact .pure ⟨rfl, rfl, rfl⟩

/-- An operation comes to the result of the two values, with the problems of both sides and its own.
    -/
private theorem ensures_binary (op : Operation)
    (hl : Ensures Never left.toExpr.toNode trace evaluate (left.Finished trace))
    (hr : ∀ trace, Ensures Never right.toExpr.toNode trace evaluate (right.Finished trace)) :
    Ensures Never (.make (.operator op.operator) [] [left.toExpr.toNode, right.toExpr.toNode]) trace
      (EvalM.arithmetic op.operator evaluate) fun value node' trace' =>
        value = .int (op.apply left.value right.value) ∧
        node' = .make (.operator op.operator) [] [left.evaluated, right.evaluated] ∧
        trace' = trace.divided (binary op left right).zeroModuli := by
  unfold EvalM.arithmetic
  apply Ensures.requireChildren_bind rfl
  apply (Ensures.onChild rfl hl).bind
  intro _ _ trace₁ found
  obtain ⟨_, rfl, rfl, rfl, rfl⟩ := found
  apply (Ensures.onChild rfl (hr _)).bind
  intro _ _ trace₂ found
  obtain ⟨_, rfl, rfl, rfl, rfl⟩ := found
  simp only [Value.number?, Operation.apply_operator, zeroModuli, ← Trace.divided_divided]
  -- Of the four operations only the remainder can fail, and only by zero.
  by_cases zero : op = .modulo ∧ right.value = 0
  · rw [if_pos zero, if_pos zero, Operation.apply_zero zero]
    apply ensures_divisionByZero.bind
    intro _ _ _ found
    obtain ⟨rfl, rfl⟩ := found
    exact .pure ⟨rfl, rfl, rfl⟩
  · rw [if_neg zero, if_neg zero, Trace.divided_zero]
    exact .pure ⟨rfl, rfl, rfl⟩

end

/-- An expression is evaluated to its exact value. -/
theorem ensures_evaluateWithin (rules : Rules) (e : Arithmetic) {levels : Nat}
    (deep : e.toExpr.toNode.depth ≤ levels) (trace : Trace) :
    Ensures Never e.toExpr.toNode trace (evaluateWithin rules levels) (e.Finished trace) := by
  -- What stands below a node can be evaluated with one level less.
  have below : ∀ {e child : Arithmetic} {levels : Nat}, e.toExpr.toNode.depth ≤ levels + 1 →
      child.toExpr.toNode ∈ e.toExpr.toNode.children → child.toExpr.toNode.depth ≤ levels :=
    fun deep inside => Nat.le_of_lt_succ ((Node.depth_lt_of_mem inside).trans_le deep)
  -- By induction on the expression.  The trace is generalized because the right operand starts with
  -- what the left one has reported.
  induction e generalizing levels trace with
  | literal n =>
    obtain ⟨levels, rfl⟩ := Nat.exists_eq_add_one.mpr ((Node.depth_pos _).trans_le deep)
    have stored : ∀ record, evaluateWithin rules (levels + 1) ⟨.integer n, record⟩ =
        .ok (.int n) ⟨.integer n, record⟩ := fun _ => rfl
    exact .of_run stored ⟨rfl, rfl, trace.divided_zero.symm⟩
  | negate operand ih =>
    obtain ⟨levels, rfl⟩ := Nat.exists_eq_add_one.mpr ((Node.depth_pos _).trans_le deep)
    have evaluates := ih (below deep (by simp [toExpr, Expr.toNode, Node.make])) trace
    rw [toExpr, Expr.toNode]
    exact ensures_store rfl (.node_bind (ensures_negate evaluates))
  | binary op left right ih ih' =>
    obtain ⟨levels, rfl⟩ := Nat.exists_eq_add_one.mpr ((Node.depth_pos _).trans_le deep)
    have evaluates := ih (below deep (by simp [toExpr, Expr.toNode, Node.make])) trace
    have evaluates' := ih' (below deep (by simp [toExpr, Expr.toNode, Node.make]))
    rw [toExpr, Expr.toNode]
    exact ensures_store rfl (.node_bind (ensures_binary op evaluates evaluates'))

/-! ## Whole texts -/

/-- A comparison has marked no node of an evaluated expression. -/
private theorem unmarked_evaluated (e : Arithmetic) :
    Everywhere (fun node => node.get? "success" = none) e.evaluated := by
  induction e with
  | literal n =>
    rw [evaluated, everywhere_iff]
    exact ⟨rfl, nofun⟩
  | negate operand ih =>
    rw [evaluated, everywhere_iff]
    exact ⟨rfl, List.forall_mem_singleton.mpr ih⟩
  | binary op left right ih ih' =>
    rw [evaluated, everywhere_iff]
    exact ⟨rfl, List.forall_mem_cons.mpr ⟨ih, List.forall_mem_singleton.mpr ih'⟩⟩

/-- Arithmetic marks no node as a success or a failure. -/
private theorem countP_evaluated (e : Arithmetic) (outcome : String) :
    e.evaluated.walk.countP (·.hasText "success" outcome) = 0 := by
  rw [List.countP_eq_zero, Node.walk_eq_preorder]
  intro node inside
  rw [Node.hasText, e.unmarked_evaluated node inside]
  exact Bool.false_ne_true

/-- The outcome of an expression. -/
private theorem interpret_toExpr (rules : Rules) (e : Arithmetic) (record : Record) :
    ∃ record', interpret rules e.toExpr.toNode record =
        (.ok ⟨e.evaluated, .int e.value, 0, 0, List.replicate e.zeroModuli .divisionByZero⟩,
          record') ∧
      record'.requests = record.requests := by
  have met := (ensures_evaluateWithin rules e (Nat.le_refl _) ⟨[], record.requests.toList⟩).met
    { record with problems := #[] } rfl
  rw [interpret_eq]
  -- The evaluation of the tree within its own depth never fails, so only its result is left.
  generalize evaluateWithin _ _ _ = result at met ⊢
  cases result with
  | error _ _ => exact met.elim
  | ok total t =>
    obtain ⟨node, record'⟩ := t
    obtain ⟨rfl, rfl, observed⟩ := met
    have observed := Trace.mk.inj observed
    -- What was reported is a division by zero for each remainder, and no target was marked.
    have problems : record'.problems.toList = List.replicate e.zeroModuli .divisionByZero :=
      observed.1
    refine ⟨record', ?_, Array.toList_inj.mp observed.2⟩
    dsimp only
    rw [problems, Node.successes, Node.failures, countP_evaluated, countP_evaluated]

/-- A text of integer arithmetic in the notation of textbooks is rolled to the exact value of the
    expression.  There is one error for each remainder by zero and no other, nothing is counted and
    no random number is requested. -/
theorem rollText_of_denotes {text : String} {e : Arithmetic} (h : Denotes text e) (rules : Rules) :
    ∃ result record, rollText rules text = (.ok result, record) ∧
      result.total = .int e.value ∧
      result.errors = List.replicate e.zeroModuli "Division by zero." ∧
      result.successes = 0 ∧ result.failures = 0 ∧ record.requests = #[] := by
  obtain ⟨record, finished, requests⟩ := interpret_toExpr rules e {}
  -- The outcome is rendered as it is, since every problem can be written.
  have rolled : (ParseResult.mk e.toExpr.toNode []).roll rules =
      (.ok (Outcome.toResult ⟨e.evaluated, .int e.value, 0, 0,
        List.replicate e.zeroModuli .divisionByZero⟩), record) := by
    unfold ParseResult.roll
    rw [finished]
    rfl
  unfold rollText
  rw [parse_of_denotes h]
  dsimp only
  rw [rolled]
  exact ⟨_, _, rfl, rfl, List.map_replicate, rfl, rfl, requests⟩

/-- The leading minus takes the whole product, and `7 % (1 - 3)` is negative. -/
theorem rollText_of_denotes_remainders :
    let text := "-07 % (1 - 3)*2\n- 5 % 0"
    let e := binary .subtract
      (negate (binary .multiply
        (binary .modulo (literal 7) (binary .subtract (literal 1) (literal 3))) (literal 2)))
      (binary .modulo (literal 5) (literal 0))
    let rules : Rules := ⟨{}, .default, fun _ faces => faces.low⟩
    Denotes text e ∧ e.value = 2 ∧ e.zeroModuli = 1 ∧
      ∃ result record, rollText rules text = (.ok result, record) ∧
        result.total = .int e.value ∧
        result.errors = List.replicate e.zeroModuli "Division by zero." ∧
        result.successes = 0 ∧ result.failures = 0 ∧ record.requests = #[] := by
  intro text e rules
  -- The gaps that stand in the text.
  have space : IsGap [' '] := List.forall_mem_singleton.mpr rfl
  have line : IsGap ['\n'] := List.forall_mem_singleton.mpr rfl
  have digit : ∀ {gap : List Char} {c : Char}, IsGap gap → c.isDigit →
      Writes .factor (gap ++ [c]) (literal (Nat.ofDigitChars 10 [c] 0)) := fun blank digit =>
    .literal blank (List.cons_ne_nil _ _) (List.forall_mem_singleton.mpr digit)
      (Nat.le_add_left 1 4299)
  -- The text is put together from its numerals outwards.
  have seven : Writes .factor ['0', '7'] (literal 7) :=
    @Writes.literal [] ['0', '7'] nofun (List.cons_ne_nil _ _)
      (List.forall_mem_cons.mpr ⟨rfl, List.forall_mem_singleton.mpr rfl⟩) (Nat.le_add_left 2 4298)
  have one : Writes .sum ['1'] (literal 1) := .looser (.looser (@digit [] '1' nofun rfl))
  have three : Writes .term [' ', '3'] (literal 3) := .looser (digit space rfl)
  have difference : Writes .factor " (1 - 3)".toList (binary .subtract (literal 1) (literal 3)) :=
    @Writes.parentheses [' '] [] _ _ space (@Writes.binary .subtract _ _ _ _ _ one space three)
      nofun
  have remainder : Writes .term "07 % (1 - 3)".toList
      (binary .modulo (literal 7) (binary .subtract (literal 1) (literal 3))) :=
    @Writes.binary .modulo _ _ _ _ _ (.looser seven) space difference
  have product : Writes .term "07 % (1 - 3)*2".toList (binary .multiply
      (binary .modulo (literal 7) (binary .subtract (literal 1) (literal 3))) (literal 2)) :=
    @Writes.binary .multiply [] _ _ _ _ remainder nofun (@digit [] '2' nofun rfl)
  have zero : Writes .term " 5 % 0".toList (binary .modulo (literal 5) (literal 0)) :=
    @Writes.binary .modulo _ _ _ _ _ (.looser (digit space rfl)) space (digit space rfl)
  have written : Writes .sum "-07 % (1 - 3)*2\n- 5 % 0".toList e :=
    @Writes.binary .subtract _ _ _ _ _ (@Writes.negate [] _ _ nofun product) line zero
  have denotes : Denotes text e := ⟨_, [], (List.append_nil _).symm, written, nofun⟩
  exact ⟨denotes, rfl, rfl, rollText_of_denotes denotes rules⟩

end Arithmetic

end DiceNotation
