import DiceNotation.Proofs.Semantics.Meaning
import DiceNotation.Proofs.Semantics.Rolling

/-! # Operators, functions and groups are simulated

What is left of an evaluated expression (`Evaluated`) is its value, which is stored on the node,
and what a comparison finds to test there.  Given this for the children of a node, each kind of
node other than rolls is computed as the semantics says.

* `simulates_store`        the value of a node is computed and stored
* `simulates_comparison`   the targets on the left side are tested
* `simulates_group`        a repeated group is one pass over copies of its members -/

namespace DiceNotation

open DiceNotation.Expr (Sides Bound Step)
open DiceNotation.EvalM (evaluateWithin compute)

/-- What is left of an evaluated expression. -/
structure Evaluated (value : Value) (node : Node) (m : Meaning) : Prop where
  value : value = .number m.value
  stored : node.value? = some (.number m.value)
  targets : ∃ targets, node.targets? = some targets ∧
    targets.map Node.value? = m.targets.map fun n => some (.number n)

/-! ## Storing values -/

section Store

variable {rules : Rules} {levels : Nat} {node : Node} {β : Type} {sem : Sem β}
  {rel : Value → Node → β → Prop}

/-- A node without a value is computed, and its value is stored. -/
theorem simulates_store (new : node.value? = none)
    (h : Simulates node (compute rules (evaluateWithin rules levels)) sem rel) :
    Simulates node (evaluateWithin rules (levels + 1)) sem fun value node' b =>
      ∃ raw node'', value = raw.normalize ∧ node' = node''.set "value" raw.normalize ∧
        rel raw node'' b := by
  rw [evaluateWithin]
  refine .node_bind ?_
  rw [new]
  dsimp only
  rw [← bind_pure sem]
  refine h.bind fun raw node' b related => ?_
  exact .modifyNode_bind (.pure ⟨raw, node', rfl, rfl, related⟩)

/-- An evaluator with at least one level evaluates literals. -/
theorem evaluatesLiterals (positive : 0 < levels) :
    EvaluatesLiterals (evaluateWithin rules levels) := by
  obtain ⟨levels, rfl⟩ := Nat.exists_eq_add_one.mpr positive
  exact fun n record => rfl

/-- A stored number is what a comparison tests, unless the node is a roll or a group. -/
theorem evaluated_single {node : Node} {n : Number}
    (plain : node.kind.isRoll = false ∧ node.kind ≠ .group) :
    Evaluated (Value.number n).normalize (node.set "value" (Value.number n).normalize)
      (.single n) := by
  have stored : (node.set "value" (Value.number n).normalize).value? =
      some (.number n.normalize) := by
    unfold Node.value?
    rw [Node.get?_set, if_pos rfl]
    rfl
  refine ⟨rfl, stored, [node.set "value" (Value.number n).normalize], ?_, ?_⟩
  · exact Node.targets?_of_single plain.1 plain.2
  · rw [List.map_singleton, stored]
    rfl

end Store

/-! ## Operators and comparisons -/

section Operands

variable {evaluate : EvalM Value} {left right : Node} {a b : Sem Meaning} {node : Node}

/-- A problem is collected, and the value is zero. -/
private theorem simulates_zero (problem : Problem) :
    Simulates node (do EvalM.report problem; return Value.int 0)
      (do Sem.collect problem; return (0 : Number)) fun value node' n =>
        value = .number n ∧ node' = node :=
  (Simulates.report problem).bind fun _ _ _ same => .pure ⟨rfl, same⟩

/-- What goes wrong with an operation: it fails, or it is not finite. -/
def Operator.problem? (op : Operator) (a b : Number) : Option Problem :=
  match op.apply a b with
  | .ok result => if result.isUnbounded then some (.overflow op a b) else none
  | .error .divisionByZero => some .divisionByZero
  | .error e => some (.invalidOperation op a b e)

/-- An operator is applied to two numbers. -/
theorem simulates_operate (op : Operator) (a b : Number) :
    Simulates node
      (match op.apply a b with
        | .ok result =>
          if result.isUnbounded then do
            EvalM.report (.overflow op a b)
            return Value.int 0
          else return .number result
        | .error .divisionByZero => do
          EvalM.report .divisionByZero
          return .int 0
        | .error e => do
          EvalM.report (.invalidOperation op a b e)
          return .int 0)
      (Sem.operate op a b) fun value node' n => value = .number n ∧ node' = node := by
  unfold Sem.operate
  -- What cannot be computed is collected, and zero takes its place on both sides.
  cases op.apply a b with
  | ok result =>
    dsimp only
    cases result.isUnbounded with
    | true => exact simulates_zero _
    | false => exact .pure ⟨rfl, rfl⟩
  | error e => cases e <;> exact simulates_zero _

/-- Arithmetic on a tree takes the left operand first and then the right one, as the operation on
    their meanings does. -/
theorem simulates_arithmetic (op : Operator) {kind : NodeKind} {attributes : OrderedMap Value}
    (hl : Simulates left evaluate a Evaluated) (hr : Simulates right evaluate b Evaluated) :
    Simulates ⟨kind, attributes, [left, right]⟩ (EvalM.arithmetic op evaluate)
      (do
        let a ← a
        let b ← b
        Sem.operate op a.value b.value)
      fun value node' n => value = .number n ∧ node'.kind = kind := by
  unfold EvalM.arithmetic
  refine .requireChildren_bind rfl ?_
  refine (Simulates.onChild rfl hl).bind fun value node' a found => ?_
  obtain ⟨left', rfl, rfl, -⟩ := found
  refine (Simulates.onChild rfl hr).bind fun value node' b found => ?_
  obtain ⟨right', rfl, rfl, -⟩ := found
  exact (simulates_operate op a.value b.value).mono fun _ _ _ h => ⟨h.1, by rw [h.2]; rfl⟩

/-- Negation on a tree is negation of the meaning of the operand. -/
theorem simulates_negation {kind : NodeKind} {attributes : OrderedMap Value}
    (h : Simulates left evaluate a Evaluated) :
    Simulates ⟨kind, attributes, [left]⟩ (EvalM.negation evaluate)
      (do return (← a).value.negate) fun value node' n =>
        value = .number n ∧ node'.kind = kind := by
  unfold EvalM.negation
  refine .requireChildren_bind rfl ?_
  refine (Simulates.onChild rfl (h.number fun _ _ _ e => e.value)).bind fun n node' m found => ?_
  obtain ⟨left', rfl, rfl, -⟩ := found
  exact .pure ⟨rfl, rfl⟩

/-- Targets that show these numbers pass a test as often as the numbers do. -/
theorem countP_targets (op : Comparison) (threshold : Number) {targets : List Node}
    {numbers : List Number}
    (h : targets.map Node.value? = numbers.map fun n => some (.number n)) :
    (targets.countP fun target => Condition.holds ⟨op, .number threshold⟩ target.value?) =
      numbers.countP fun n => op.relates n threshold := by
  have nodes :
      (targets.countP fun target => Condition.holds ⟨op, .number threshold⟩ target.value?) =
      (targets.map Node.value?).countP (Condition.holds ⟨op, .number threshold⟩) := by
    rw [List.countP_map]
    rfl
  rw [nodes, h, List.countP_map]
  refine List.countP_congr fun n _ => ?_
  have tested : Condition.holds ⟨op, .number threshold⟩ (some (.number n)) =
      op.holds (.number n) (.number threshold) := rfl
  rw [Function.comp_apply, tested, holds_number]

/-- A comparison on a tree counts the targets that hold, and takes the right side only where there
    are targets. -/
theorem simulates_comparison (op : Comparison)
    (hl : Simulates left evaluate a Evaluated) (hr : Simulates right evaluate b Evaluated) :
    Simulates (.make (.comparison op) [] [left, right]) (EvalM.comparison evaluate)
      (do
        let tested ← a
        if tested.targets.isEmpty then return (0 : Number)
        let threshold ← b
        let passed := tested.targets.countP fun target => op.relates target threshold.value
        return .int passed)
      fun value node' n => value = .number n ∧ node'.kind = .comparison op := by
  unfold EvalM.comparison
  refine .childCount_bind ?_
  rw [if_neg (by simp [Node.childCount, Node.make])]
  refine .requireChildren_bind rfl ?_
  refine (Simulates.onChild rfl hl).bind fun value node' tested found => ?_
  obtain ⟨left', rfl, -, -, targets, htargets, shown⟩ := found
  -- The targets are read off the evaluated left side, which the semantics has at hand.
  have looked : Simulates left' EvalM.node (Pure.pure ()) fun a node' _ =>
      a = left' ∧ node' = left' :=
    fun record => .ok ⟨rfl, rfl⟩
  refine (Simulates.onChild rfl looked).bind_left fun value node' found => ?_
  obtain ⟨child, rfl, hvalue, hchild⟩ := found
  rw [hvalue, hchild]
  -- Looking at the left side puts it back as it was.
  have moved : ((Node.make (.comparison op) [] [left, right]).setChild 0 left').setChild 0 left' =
      .make (.comparison op) [] [left', right] := rfl
  rw [htargets, moved]
  -- The threshold is evaluated only if there is a target.
  cases targets with
  | nil =>
    obtain none : tested.targets = [] := List.map_eq_nil_iff.mp shown.symm
    rw [none]
    exact .pure ⟨rfl, rfl⟩
  | cons target targets =>
    have some : tested.targets.isEmpty = false := by
      cases hm : tested.targets with
      | nil => rw [hm] at shown; cases shown
      | cons => rfl
    rw [some]
    dsimp only
    have threshold : Simulates (.make (.comparison op) [] [left', right])
        (EvalM.condition evaluate) b fun c node' m => c = ⟨op, .number m.value⟩ ∧
          ∃ right', node' = .make (.comparison op) [] [left', right'] := by
      unfold EvalM.condition
      refine .node_bind ?_
      rw [← bind_pure b]
      refine (Simulates.onChild rfl hr).bind fun value node' m found => ?_
      obtain ⟨right', rfl, e⟩ := found
      exact .pure ⟨by rw [e.value], right', rfl⟩
    refine threshold.bind fun c node' m found => ?_
    obtain ⟨rfl, right', rfl⟩ := found
    -- The targets hold numbers, so the test of the condition cannot fail.
    have admitted : ∀ node ∈ target :: targets,
        Condition.admits ⟨op, .number m.value⟩ node.value? := by
      intro node hn
      have := List.mem_map_of_mem (f := Node.value?) hn
      rw [shown] at this
      obtain ⟨n, -, hvalue⟩ := List.mem_map.mp this
      rw [← hvalue]
      exact Bool.or_true _
    have marked : Simulates left' (EvalM.modifyNode
        (Node.mapTargets (Condition.mark ⟨op, .number m.value⟩))) (Pure.pure ())
        fun _ _ _ => True := fun record => .ok trivial
    refine (simulates_requireTestable admitted).bind_left fun _ node' same => ?_
    rw [same]
    refine (Simulates.onChild rfl marked).bind_left fun _ node' found => ?_
    obtain ⟨left'', rfl, -⟩ := found
    rw [countP_targets op m.value shown]
    exact .pure ⟨rfl, rfl⟩

end Operands

/-! ## Functions -/

section Functions

variable {evaluate : EvalM Value} {limits : Limits} {source : Source}

/-- A function on trees does what a function on numbers does. -/
def Applies (f : Number → EvalM Number) (g : Number → Sem Number) : Prop :=
  ∀ node n, Simulates node (f n) (g n) fun a node' b => a = b ∧ node' = node

/-- A function applied to a number on a tree and in the semantics: it comes to a number or is out of
    range, or a problem is collected and it counts zero. -/
inductive Alike : EvalM Number → Sem Number → Prop where
  | number (number : Except NumberError Number) : Alike (EvalM.ofNumber number) (Sem.demand number)
  | zero (problem : Problem) :
      Alike (do EvalM.report problem; return 0) (do Sem.collect problem; return 0)

/-- A function that does alike on trees and in the semantics leaves the node as it is. -/
private theorem Alike.simulates {step : EvalM Number} {sem : Sem Number} (h : Alike step sem)
    (node : Node) : Simulates node step sem fun a node' b => a = b ∧ node' = node := by
  cases h with
  | number number => exact .ofNumber number
  | zero problem => exact (Simulates.report _).bind fun _ node' _ same => .pure ⟨rfl, same⟩

/-- The functions that are always there are those of the semantics. -/
theorem default_alike (name : String) :
    (∃ label f g, FunctionTable.default.get? name = some (.ofNumber label f) ∧
      Sem.function? name = some g ∧ ∀ n, Alike (f n) (g n)) ∨
    (FunctionTable.default.get? name = none ∧ Sem.function? name = none) := by
  -- The functions that round are one function with another rounding.
  have integer (number : Except NumberError Int) :
      Alike (do return .int (← EvalM.ofNumber number)) (do return .int (← Sem.demand number)) := by
    cases number with
    | ok k => exact .number (.ok (.int k))
    | error e => exact .number (.error e)
  unfold Sem.function?
  split
  · exact .inl ⟨_, _, _, rfl, rfl, fun n => .number (.ok n.abs)⟩
  · exact .inl ⟨_, _, _, rfl, rfl, fun n => integer n.ceil⟩
  · exact .inl ⟨_, _, _, rfl, rfl, fun n => integer n.floor⟩
  · exact .inl ⟨_, _, _, rfl, rfl, fun n => integer n.roundHalfUp⟩
  · refine .inl ⟨_, _, _, rfl, rfl, fun n => ?_⟩
    unfold DiceFunction.squareRoot Sem.squareRoot
    cases n.lt 0 with
    | true => exact .zero (.negativeRoot n)
    | false => exact .number n.sqrt
  · -- The table has no other names than those that were tried.
    next abs ceil floor round sqrt =>
    refine .inr ⟨?_, rfl⟩
    have entries : FunctionTable.default.get? name = List.lookup name
      [("abs", .ofNumber "abs" fun n => Pure.pure n.abs),
        ("ceil", .toInteger "ceil" Number.ceil),
        ("floor", .toInteger "floor" Number.floor),
        ("round", .toInteger "round" Number.roundHalfUp),
        ("sqrt", .ofNumber "sqrt" DiceFunction.squareRoot)] := rfl
    rw [entries]
    simp only [List.lookup, beq_false_of_ne abs, beq_false_of_ne ceil, beq_false_of_ne floor,
      beq_false_of_ne round, beq_false_of_ne sqrt]

/-- A name is that of a function of the default table exactly when the semantics has one, and then
    both do the same. -/
theorem default_get? (name : String) :
    (∃ label f g, FunctionTable.default.get? name = some (.ofNumber label f) ∧
      Sem.function? name = some g ∧ Applies f g) ∨
    (FunctionTable.default.get? name = none ∧ Sem.function? name = none) := by
  rcases default_alike name with ⟨label, f, g, known, known', alike⟩ | unknown
  · exact .inl ⟨label, f, g, known, known', fun node n => (alike n).simulates node⟩
  · exact .inr unknown

/-- A function is applied to its only argument. -/
theorem simulates_ofNumber {label name : String} {f : Number → EvalM Number}
    {g : Number → Sem Number} (applies : Applies f g) {arguments : List Expr}
    (h : ∀ e ∈ arguments, Simulates e.toNode evaluate (meaning limits source e) Evaluated) :
    Simulates (Expr.call name arguments).toNode ((DiceFunction.ofNumber label f).run evaluate)
      (Sem.applyTo name arguments.length g (meaningOfOnly limits source arguments))
      fun value node' n => value = .number n ∧ node'.kind = .function := by
  have count : (Expr.call name arguments).toNode.childCount = arguments.length := by
    rw [Expr.toNode, Expr.toNodes_eq_map]
    exact List.length_map ..
  -- With any other number of arguments the value is zero and no argument is looked at.
  have others : arguments.length ≠ 1 →
      Simulates (Expr.call name arguments).toNode ((DiceFunction.ofNumber label f).run evaluate)
        (do
          Sem.collect (.argumentCount (some (.text name)) arguments.length)
          return (0 : Number))
        fun value node' n => value = .number n ∧ node'.kind = .function := by
    intro wrong
    unfold DiceFunction.ofNumber DiceFunction.singleArgument
    dsimp only
    rw [bind_assoc]
    refine .node_bind ?_
    rw [count, if_pos wrong, bind_assoc]
    refine (Simulates.report _).bind fun _ node' _ same => ?_
    rw [same]
    exact .pure ⟨rfl, rfl⟩
  -- Only a single argument is evaluated.
  rcases arguments with _ | ⟨argument, _ | ⟨second, rest⟩⟩
  case nil => exact others (by decide)
  case cons.cons => exact others (by simp)
  case cons.nil =>
    unfold DiceFunction.ofNumber DiceFunction.singleArgument
    dsimp only
    rw [bind_assoc]
    refine .node_bind ?_
    rw [count, if_neg (by simp), bind_assoc]
    have child := (h argument List.mem_cons_self).number fun _ _ _ e => e.value
    refine (Simulates.onChild rfl child).bind fun n node' m found => ?_
    obtain ⟨argument', rfl, rfl, -⟩ := found
    rw [← bind_pure (g m.value)]
    refine (applies _ m.value).bind fun a node' b found => ?_
    obtain ⟨rfl, rfl⟩ := found
    exact .pure ⟨rfl, rfl⟩

end Functions

/-! ## Groups -/

section Groups

variable {evaluate : EvalM Value} {limits : Limits} {source : Source}

/-- The members of two lists are added one list after the other. -/
private theorem addMembers_append (members others : List Expr) (sum : Number) :
    addMembers limits source (members ++ others) sum = do
      let (sum, first) ← addMembers limits source members sum
      let (sum, second) ← addMembers limits source others sum
      return (sum, first ++ second) := by
  induction members generalizing sum with
  | nil => simp [addMembers]
  | cons member members ih => simp [addMembers, ih]

/-- Passes over the members are one pass over as many copies of them. -/
theorem sumPasses_eq (members : List Expr) (times : Nat) (sum : Number) :
    Sem.sumPasses (addMembers limits source members) times sum =
      addMembers limits source (List.replicate times members).flatten sum := by
  induction times generalizing sum with
  | zero => simp [Sem.sumPasses, addMembers]
  | succ times ih =>
    rw [List.replicate_succ, List.flatten_cons, addMembers_append]
    simp [Sem.sumPasses, ih]

/-- The same fault, or the same sum with the values of the nodes. -/
inductive AgreeAll : EStateM.Result Fault (List Node × Record) Number →
    EStateM.Result Fault Trace (Number × List Number) → Prop where
  | ok {sum nodes record values}
      (shown : nodes.map Node.value? = values.map fun n => some (.number n)) :
      AgreeAll (.ok sum (nodes, record)) (.ok (sum, values) record.trace)
  | error {e nodes record} : AgreeAll (.error e (nodes, record)) (.error e record.trace)

/-- A member is evaluated and added to a sum. -/
private theorem simulates_add {member : Expr}
    (h : Simulates member.toNode evaluate (meaning limits source member) Evaluated) (sum : Number) :
    Simulates member.toNode (do EvalM.ofNumber (sum.add (← EvalM.number evaluate)))
      (do
        let value := (← meaning limits source member).value
        return (← Sem.demand (sum.add value), value))
      fun total node' result => total = result.1 ∧ node'.value? = some (.number result.2) := by
  refine (h.number fun _ _ _ e => e.value).bind fun n node' m found => ?_
  obtain ⟨rfl, evaluated⟩ := found
  refine (Simulates.ofNumber _).map_right fun a node' b found => ?_
  obtain ⟨rfl, rfl⟩ := found
  exact ⟨rfl, evaluated.stored⟩

/-- Folding over the members of a group adds up their meanings, and leaves every member with its
    value. -/
private theorem agreeAll_members {members : List Expr}
    (h : ∀ e ∈ members, Simulates e.toNode evaluate (meaning limits source e) Evaluated)
    (sum : Number) (record : Record) :
    AgreeAll
      (EvalM.foldNodes (fun acc => do EvalM.ofNumber (acc.add (← EvalM.number evaluate))) sum
        (members.map Expr.toNode) record)
      (addMembers limits source members sum record.trace) := by
  -- The sum that is carried along and the trace change from member to member.
  induction members generalizing sum record with
  | nil => exact .ok rfl
  | cons member members ih =>
    have ih := ih fun e he => h e (List.mem_cons_of_mem _ he)
    have first := simulates_add (h member List.mem_cons_self) sum record
    have rest : addMembers limits source (member :: members) sum =
        (do
          let value := (← meaning limits source member).value
          return (← Sem.demand (sum.add value), value)) >>= fun result =>
        addMembers limits source members result.1 >>= fun others =>
        Pure.pure (others.1, result.2 :: others.2) := by
      simp [addMembers]
    rw [rest, List.map_cons, EvalM.foldNodes]
    change AgreeAll _ (EStateM.bind _ _ _)
    unfold EStateM.bind
    generalize (do EvalM.ofNumber (sum.add (← EvalM.number evaluate)) : EvalM Number)
      ⟨member.toNode, record⟩ = result at first ⊢
    generalize (do
      let value := (← meaning limits source member).value
      return (← Sem.demand (sum.add value), value) : Sem (Number × Number)) record.trace = result'
      at first ⊢
    -- A failing member ends both sums; otherwise the rest is the induction hypothesis.
    cases first with
    | error => exact .error
    | @ok total t b related =>
      obtain ⟨rfl, stored⟩ := related
      have others := ih b.1 t.record
      change AgreeAll _ (EStateM.bind _ _ _)
      unfold EStateM.bind
      dsimp only
      generalize EvalM.foldNodes _ b.1 _ t.record = result at others ⊢
      generalize addMembers limits source members b.1 t.record.trace = result' at others ⊢
      cases others with
      | error => exact .error
      | ok shown =>
        refine .ok ?_
        rw [List.map_cons, List.map_cons, stored, shown]

/-- The members are evaluated and added up one by one. -/
private theorem simulates_members {node : Node} {members : List Expr}
    (children : node.children = members.map Expr.toNode)
    (h : ∀ e ∈ members, Simulates e.toNode evaluate (meaning limits source e) Evaluated)
    (sum : Number) :
    Simulates node
      (EvalM.foldChildren (fun acc => do EvalM.ofNumber (acc.add (← EvalM.number evaluate))) sum)
      (addMembers limits source members sum) fun total node' result =>
        total = result.1 ∧ ∃ nodes, node' = node.withChildren nodes ∧
          nodes.map Node.value? = result.2.map fun n => some (.number n) := by
  intro record
  have all := agreeAll_members h sum record
  unfold EvalM.foldChildren
  rw [children]
  dsimp only
  generalize EvalM.foldNodes _ sum _ record = result at all ⊢
  generalize addMembers limits source members sum record.trace = result' at all ⊢
  -- The children are put back into the node, which changes nothing in the record.
  cases all with
  | @ok sum nodes record values shown =>
    have moved : record.trace = (Focus.mk (node.withChildren nodes) record).record.trace := rfl
    rw [moved]
    exact .ok ⟨rfl, nodes, rfl, shown⟩
  | @error e nodes record =>
    have moved : record.trace = (Focus.mk (node.withChildren nodes) record).record.trace := rfl
    rw [moved]
    exact .error

/-- What is left of an evaluated group. -/
def IsGroup (value : Value) (node : Node) (m : Meaning) : Prop :=
  node.kind = .group ∧ ∃ sum values, value = .number sum ∧ m = .ofGroup sum values ∧
    node.children.map Node.value? = values.map fun n => some (.number n)

/-- The sum of a group that is not repeated any more. -/
private theorem simulates_sum {node : Node} {members : List Expr} (kind : node.kind = .group)
    (children : node.children = members.map Expr.toNode)
    (h : ∀ e ∈ members, Simulates e.toNode evaluate (meaning limits source e) Evaluated) :
    Simulates node
      (do
        let sum ← EvalM.foldChildren
          (fun acc => do EvalM.ofNumber (acc.add (← EvalM.number evaluate))) (Number.int 0)
        return Value.number sum)
      (do
        let (sum, members) ← addMembers limits source members 0
        return Meaning.ofGroup sum members) IsGroup := by
  refine (simulates_members children h 0).bind fun sum node' result found => ?_
  obtain ⟨rfl, nodes, rfl, shown⟩ := found
  exact .pure ⟨kind, _, _, rfl, rfl, shown⟩

/-- No limit is below the repeats. -/
theorem le_of_filter_none {limit? : Option Nat} {times : Nat}
    (h : (limit?.filter fun limit : Nat => (Number.int limit).lt (.int times)) = none) :
    ∀ limit ∈ limit?, times ≤ limit := by
  intro limit given
  have above := Option.filter_eq_none_iff.mp h limit given
  rw [Number.lt_int, decide_eq_true_eq] at above
  omega

/-- There is a limit below the repeats. -/
theorem lt_of_filter_some {limit? : Option Nat} {times limit : Nat}
    (h : (limit?.filter fun limit : Nat => (Number.int limit).lt (.int times)) = some limit) :
    limit? = some limit ∧ limit < times := by
  obtain ⟨given, above⟩ := Option.filter_eq_some_iff.mp h
  rw [Number.lt_int, decide_eq_true_eq] at above
  exact ⟨given, by omega⟩

/-- A group on a tree sums up its members as often as they are repeated. -/
theorem simulates_group {members : List Expr} (repeats : Option Nat)
    (h : ∀ e ∈ members, Simulates e.toNode evaluate (meaning limits source e) Evaluated) :
    Simulates (Expr.group members repeats).toNode (EvalM.group limits evaluate)
      (Sem.sumGroup limits repeats (addMembers limits source members)) IsGroup := by
  have children : (Expr.group members repeats).toNode.children = members.map Expr.toNode := by
    rw [Expr.toNode, Expr.toNodes_eq_map]
    rfl
  have kind : (Expr.group members repeats).toNode.kind = .group := by
    rw [Expr.toNode]
    rfl
  have given : (Expr.group members repeats).toNode.get? "repeat" =
      repeats.map fun n : Nat => Value.int n := by
    rw [Expr.toNode]
    cases repeats <;> rfl
  unfold EvalM.group EvalM.expandGroup
  rw [bind_assoc]
  refine .node_bind ?_
  rw [given]
  cases repeats with
  | none =>
    -- A group without repeats is summed once.
    rw [Sem.sumGroup_within fun _ h => absurd h (Option.not_mem_none _), sumPasses_eq,
      Option.getD_none, List.replicate_one, List.flatten_singleton]
    exact simulates_sum kind children h
  | some times =>
    dsimp only [Option.map_some, Value.number?]
    rw [bind_assoc]
    refine .modifyNode_bind ?_
    cases hexcess : limits.maxRolls.filter
        fun limit : Nat => (Number.int limit).lt (.int times) with
    | none =>
      have within : ∀ n ∈ some times, ∀ limit ∈ limits.maxRolls, n ≤ limit := by
        intro n hn
        cases hn
        exact le_of_filter_none hexcess
      have count : (EvalM.ofNumber (Number.int times).truncate : EvalM Int) =
        Pure.pure (times : Int) := rfl
      -- The members are copied first, and all copies are summed in one pass.
      dsimp only
      rw [bind_assoc]
      refine .modifyNode_bind ?_
      rw [bind_assoc, count, pure_bind]
      refine .modifyNode_bind ?_
      rw [Sem.sumGroup_within within, sumPasses_eq]
      refine simulates_sum kind ?_ fun e he => ?_
      · rw [List.map_flatten, List.map_replicate, ← children]
        rfl
      · obtain ⟨es, hes, he⟩ := List.mem_flatten.mp he
        rw [List.eq_of_mem_replicate hes] at he
        exact h e he
    | some limit =>
      -- Too many repeats are collected, and the group is left without members.
      obtain ⟨hlimit, above⟩ := lt_of_filter_some hexcess
      dsimp only
      rw [Sem.sumGroup_above hlimit above, bind_assoc]
      refine .note_bind ?_
      rw [bind_assoc]
      refine (Simulates.report _).bind fun _ node' _ same => ?_
      rw [same]
      refine .modifyNode_bind ?_
      have none : ∀ e ∈ ([] : List Expr),
          Simulates e.toNode evaluate (meaning limits source e) Evaluated :=
        fun e he => absurd he List.not_mem_nil
      refine simulates_sum ?_ List.map_nil.symm none
      exact kind

end Groups

end DiceNotation
