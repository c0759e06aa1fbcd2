import DiceNotation.Proofs.Range.Lenient
import DiceNotation.Proofs.Semantics.Contract
import DiceNotation.Proofs.Trees.Expansion

/-! # Evaluating operators, comparisons, functions and groups

A node is `Evaluable` if its evaluation, whatever was observed before, expands the node or comes to
a fault that is allowed.  Given this for the children of a node, each kind of node other than
rolls and modifiers is computed as `Expands` says; what is computed is stored last
(`evaluable_of_computed`).

The faults allowed are those of numbers (`Lenient`) and that of a function that is not there. -/

namespace DiceNotation

open DiceNotation.EvalM (evaluateWithin compute)
open Node (WellFormed)
open Sem (Lenient)

section

variable (limits : Limits) (source : Source)

/-- The node was expanded, and the value is the one that is stored. -/
def Expanded (before : Node) (trace : Trace) (value : Value) (after : Node) (trace' : Trace) :
    Prop :=
  ∃ n, value = .number n ∧ Expands limits source before trace after n trace'

/-- The node is expanded when the value is stored. -/
def Computed (before : Node) (trace : Trace) (value : Value) (after : Node) (trace' : Trace) :
    Prop :=
  ∃ n, value = .number n ∧ Expands limits source before trace (after.store n) n.normalize trace'

/-- Evaluating the node expands it. -/
def Evaluable (allowed : Fault → Prop) (evaluate : EvalM Value) (node : Node) : Prop :=
  ∀ trace, Ensures allowed node trace evaluate (Expanded limits source node trace)

end

section

variable {limits : Limits} {source : Source} {allowed : Fault → Prop} {evaluate : EvalM Value}
  {node left right : Node} {attributes : OrderedMap Value} {trace : Trace}

/-- A node without a value is computed, and its value is stored. -/
theorem evaluable_of_computed {rules : Rules} {levels : Nat} (new : node.value? = none)
    (h : ∀ trace, Ensures allowed node trace (compute rules (evaluateWithin rules levels))
      (Computed limits source node trace)) :
    Evaluable limits source allowed (evaluateWithin rules (levels + 1)) node := by
  intro trace
  rw [evaluateWithin]
  apply Ensures.node_bind
  rw [new]
  apply (h trace).bind
  intro value after trace' computed
  obtain ⟨n, rfl, expands⟩ := computed
  exact .modifyNode_bind (.pure ⟨n.normalize, rfl, expands⟩)

/-- The value of an expanded node is a number. -/
theorem Evaluable.number (h : Evaluable limits source allowed evaluate node) (trace : Trace) :
    Ensures allowed node trace (EvalM.number evaluate) fun n after trace' =>
      Expands limits source node trace after n trace' := by
  unfold EvalM.number
  apply (h trace).bind
  intro value after trace' expanded
  obtain ⟨n, rfl, expands⟩ := expanded
  exact .pure expands

/-- A problem is collected, unless its message cannot be written. -/
theorem ensures_report {problem : Problem}
    (long : problem.isWritable = false → allowed .tooManyDigits) :
    Ensures allowed node trace (EvalM.report problem) fun _ node' trace' =>
      node' = node ∧ Sem.collect problem trace = .ok () trace' := by
  -- Reporting fails only for a problem that cannot be written.
  have safe : Sem.Safe allowed (Sem.collect problem) trace := by
    intro e trace' failed
    unfold Sem.collect at failed
    split at failed
    · cases failed
    · next unwritable =>
      cases failed
      exact long (Bool.eq_false_iff.mpr unwritable)
  apply (Ensures.of_simulates (Simulates.report problem) safe).mono
  intro _ node' trace' found
  obtain ⟨_, told, same⟩ := found
  exact ⟨same, told⟩

/-! ## Operators and comparisons -/

/-- An operation is expanded if its operands are. -/
theorem ensures_arithmetic (lenient : Lenient allowed) (op : Operator)
    (hleft : Evaluable limits source allowed evaluate left)
    (hright : Evaluable limits source allowed evaluate right) :
    Ensures allowed ⟨.operator op, attributes, [left, right]⟩ trace (EvalM.arithmetic op evaluate)
      (Computed limits source ⟨.operator op, attributes, [left, right]⟩ trace) := by
  unfold EvalM.arithmetic
  apply Ensures.requireChildren_bind rfl
  apply (Ensures.onChild rfl (hleft trace)).bind
  intro _ _ trace₁ found
  obtain ⟨left', rfl, a, rfl, expandsLeft⟩ := found
  apply (Ensures.onChild rfl (hright trace₁)).bind
  intro _ _ trace₂ found
  obtain ⟨right', rfl, b, rfl, expandsRight⟩ := found
  -- Both operands are numbers now.
  have safe : Sem.Safe allowed (Sem.operate op a b) trace₂ := lenient.operate op a b
  apply (Ensures.of_simulates (simulates_operate op a b) safe).mono
  intro value after trace' found
  obtain ⟨n, applied, rfl, rfl⟩ := found
  exact ⟨n, rfl, .operator expandsLeft expandsRight applied⟩

/-- A negation is expanded if its operand is. -/
theorem ensures_negation (h : Evaluable limits source allowed evaluate node) :
    Ensures allowed ⟨.negate, attributes, [node]⟩ trace (EvalM.negation evaluate)
      (Computed limits source ⟨.negate, attributes, [node]⟩ trace) := by
  unfold EvalM.negation
  apply Ensures.requireChildren_bind rfl
  apply (Ensures.onChild rfl (h.number trace)).bind
  intro a _ trace' found
  obtain ⟨operand', rfl, expands⟩ := found
  exact .pure ⟨a.negate, rfl, .negate expands⟩

/-- Numbers can be tested against a number. -/
theorem admits_number (op : Comparison) (b : Number) {value : Option Value}
    (number : ∃ n, value = some (.number n)) : Condition.admits ⟨op, .number b⟩ value := by
  obtain ⟨n, rfl⟩ := number
  exact Bool.or_true _

/-- The threshold of a comparison is evaluated. -/
private theorem ensures_condition (op : Comparison)
    (h : Evaluable limits source allowed evaluate right) :
    Ensures allowed ⟨.comparison op, attributes, [left, right]⟩ trace (EvalM.condition evaluate)
      fun c after trace' => ∃ right' b, c = ⟨op, .number b⟩ ∧
        after = ⟨.comparison op, attributes, [left, right']⟩ ∧
          Expands limits source right trace right' b trace' := by
  apply Ensures.node_bind
  apply (Ensures.onChild rfl (h trace)).bind
  intro _ _ trace' found
  obtain ⟨right', rfl, b, rfl, expands⟩ := found
  exact .pure ⟨right', b, rfl, rfl, expands⟩

/-- A comparison is expanded if its left side is, and its right side where there are targets. -/
theorem ensures_comparison (op : Comparison)
    (hleft : Evaluable limits source allowed evaluate left)
    (hright : Evaluable limits source allowed evaluate right) (wellFormed : right.WellFormed) :
    Ensures allowed ⟨.comparison op, attributes, [left, right]⟩ trace (EvalM.comparison evaluate)
      (Computed limits source ⟨.comparison op, attributes, [left, right]⟩ trace) := by
  unfold EvalM.comparison
  apply Ensures.childCount_bind
  rw [if_neg (by simp [Node.childCount])]
  apply Ensures.requireChildren_bind rfl
  apply (Ensures.onChild rfl (hleft trace)).bind
  intro _ _ trace₁ found
  obtain ⟨left', rfl, a, rfl, expandsLeft⟩ := found
  -- The targets are read without changing the left side.
  have looked : ∀ record,
      EvalM.onChild 0 EvalM.node ⟨⟨.comparison op, attributes, [left', right]⟩, record⟩ =
        .ok left' ⟨⟨.comparison op, attributes, [left', right]⟩, record⟩ :=
    fun _ => rfl
  apply Ensures.run_bind looked
  -- The targets of an expanded node are numbers, so they can be tested.
  obtain ⟨targets, found, numbers⟩ := expandsLeft.targets
  simp only [found]
  by_cases empty : targets = []
  · subst empty
    exact .pure ⟨0, rfl, .untested expandsLeft found wellFormed⟩
  · -- The threshold is evaluated, and then the targets are marked.
    have tested : Ensures allowed ⟨.comparison op, attributes, [left', right]⟩ trace₁ (do
        let c ← EvalM.condition evaluate
        EvalM.requireTestable c targets
        EvalM.onChild 0 (EvalM.modifyNode (Node.mapTargets c.mark))
        return .int (targets.countP fun target => c.holds target.value?))
        (Computed limits source ⟨.comparison op, attributes, [left, right]⟩ trace) := by
      apply (ensures_condition op hright).bind
      intro c after trace' found
      obtain ⟨right', b, rfl, rfl, expandsRight⟩ := found
      have testable : ∀ target ∈ targets, Condition.admits ⟨op, .number b⟩ target.value? :=
        fun target htarget => admits_number op b (numbers target htarget)
      apply Ensures.run_bind (run_requireTestable testable)
      have marked : ∀ record, EvalM.onChild 0
          (EvalM.modifyNode (Node.mapTargets (Condition.mark ⟨op, .number b⟩)))
            ⟨⟨.comparison op, attributes, [left', right']⟩, record⟩ =
          .ok () ⟨⟨.comparison op, attributes,
            [left'.mapTargets (Condition.mark ⟨op, .number b⟩), right']⟩, record⟩ :=
        fun _ => rfl
      apply Ensures.run_bind marked
      exact .pure ⟨_, rfl, .tested expandsLeft found empty expandsRight rfl⟩
    cases targets with
    | nil => exact absurd rfl empty
    | cons target targets => exact tested

/-! ## Functions -/

/-- A function is applied to its only argument; with another number of them, none is evaluated. -/
private theorem ensures_ofNumber (lenient : Lenient allowed) {label name : String}
    {f : Number → EvalM Number} {g : Number → Sem Number} (applies : Applies f g)
    (named : attributes.get? "name" = some (.text name)) (known : Sem.function? name = some g)
    {arguments : List Node} (wellFormed : ∀ argument ∈ arguments, argument.WellFormed)
    (h : ∀ argument ∈ arguments, Evaluable limits source allowed evaluate argument) :
    Ensures allowed ⟨.function, attributes, arguments⟩ trace
      ((DiceFunction.ofNumber label f).run evaluate)
      (Computed limits source ⟨.function, attributes, arguments⟩ trace) := by
  unfold DiceFunction.ofNumber DiceFunction.singleArgument
  dsimp only
  rw [bind_assoc]
  apply Ensures.node_bind
  have count : Node.childCount ⟨.function, attributes, arguments⟩ = arguments.length := rfl
  have found : Node.get? ⟨.function, attributes, arguments⟩ "name" = some (.text name) := named
  rw [count, found]
  -- One argument is evaluated; any other number of them is reported.
  by_cases single : arguments.length = 1
  · obtain ⟨argument, rfl⟩ := List.length_eq_one_iff.mp single
    simp only [List.length_singleton, ne_eq, not_true_eq_false, if_false, bind_assoc, pure_bind]
    apply (Ensures.onChild rfl ((h argument List.mem_cons_self).number trace)).bind
    intro a _ trace₁ found
    obtain ⟨argument', rfl, expands⟩ := found
    apply Ensures.compute_bind (applies _ a) (lenient.function known a)
    intro n trace' applied
    exact .pure ⟨n, rfl, .call named known expands applied⟩
  · simp only [ne_eq, single, not_false_eq_true, if_true, bind_assoc]
    apply (ensures_report fun _ => lenient.tooManyDigits).bind
    intro _ _ trace' found
    obtain ⟨rfl, told⟩ := found
    exact .pure ⟨0, rfl, .miscall named known single wellFormed told⟩

/-- A call is expanded if the argument that its function takes is. -/
theorem ensures_function (lenient : Lenient allowed) {name : String}
    (named : attributes.get? "name" = some (.text name))
    (missing : FunctionTable.default.get? name = none →
      allowed (.unknownFunction (some (.text name))))
    {arguments : List Node} (wellFormed : ∀ argument ∈ arguments, argument.WellFormed)
    (h : ∀ argument ∈ arguments, Evaluable limits source allowed evaluate argument) :
    Ensures allowed ⟨.function, attributes, arguments⟩ trace (EvalM.function .default evaluate)
      (Computed limits source ⟨.function, attributes, arguments⟩ trace) := by
  unfold EvalM.function
  apply Ensures.node_bind
  have found : Node.get? ⟨.function, attributes, arguments⟩ "name" = some (.text name) := named
  simp only [found]
  rcases default_get? name with ⟨label, f, g, known, known', applies⟩ | ⟨unknown, -⟩
  · rw [known]
    exact ensures_ofNumber lenient applies named known' wellFormed h
  · rw [unknown]
    exact .throw (missing unknown)

/-! ## Groups -/

/-- The only thing that can go wrong is that there are too many repeats to write how many. -/
private theorem ensures_expandGroup (repeats : Option Nat)
    (given : node.get? "repeat" = repeats.map fun n : Nat => .int n)
    (told : ∀ n ∈ repeats, ∀ limit : Nat, limit < n →
      (Problem.tooManyRepeats (.int n) limit).isWritable = false → allowed .tooManyDigits) :
    Ensures allowed node trace (EvalM.expandGroup limits) fun _ unfolded trace' =>
      Unfolds limits node trace unfolded trace' := by
  unfold EvalM.expandGroup
  apply Ensures.node_bind
  rw [given]
  cases repeats with
  | none => exact .pure (.once given)
  | some times =>
    simp only [Option.map_some, Value.number?]
    apply Ensures.modifyNode_bind
    -- The repeats are forgotten first, and then compared with the limit.
    cases excess : limits.maxRolls.filter fun limit : Nat =>
        (Number.int limit).lt (.int times) with
    | none =>
      dsimp only
      apply Ensures.modifyNode_bind
      apply Ensures.run_bind (a := (times : Int)) fun _ => rfl
      exact .modifyNode (.repeated given (le_of_filter_none excess))
    | some limit =>
      -- Too many repeats are noted and reported, and the group becomes empty.
      obtain ⟨limited, above⟩ := lt_of_filter_some excess
      dsimp only
      apply Ensures.note_bind
      apply (ensures_report (told times rfl limit above)).bind
      intro _ _ trace' found
      obtain ⟨rfl, told⟩ := found
      exact .modifyNode (.excess given limited above told)

/-- The group of a parsed text is always expanded: what is said of its repeats can be written. -/
theorem ensures_expandGroup_of_writable (repeats : Option Nat)
    (given : node.get? "repeat" = repeats.map fun n : Nat => .int n)
    (small : ∀ n ∈ repeats, (Value.int n).isWritable = true) :
    Ensures (fun _ => False) node trace (EvalM.expandGroup limits) fun _ unfolded trace' =>
      Unfolds limits node trace unfolded trace' := by
  apply ensures_expandGroup repeats given
  intro n hn limit above long
  have low := isWritable_of_lt (Int.ofNat_lt.mpr above) (small n hn)
  rw [(isWritable_pair rfl).mpr ⟨small n hn, low⟩] at long
  cases long

/-- The members of a group are visited one after the other, and their values are added up. -/
private theorem visits_of_foldNodes (lenient : Lenient allowed) {members : List Node}
    (h : ∀ member ∈ members, Evaluable limits source allowed evaluate member) (sum : Number)
    (record : Record) :
    match EvalM.foldNodes (fun acc => do EvalM.ofNumber (acc.add (← EvalM.number evaluate))) sum
      members record with
    | .ok total (nodes, record') => ∃ visits : List Visit, members = visits.map Visit.before ∧
        nodes = visits.map Visit.after ∧ Visit.Linked visits record.trace record'.trace ∧
        (∀ visit ∈ visits, Expands limits source visit.before visit.start visit.after visit.value
          visit.finish) ∧
        (visits.map Visit.value).foldlM Number.add sum = .ok total
    | .error e _ => allowed e := by
  -- The first member is visited with the sum so far, the others with what it adds to.
  induction members generalizing sum record with
  | nil => exact ⟨[], rfl, rfl, rfl, fun _ none => absurd none List.not_mem_nil, rfl⟩
  | cons member members ih =>
    have first : Ensures allowed member record.trace
        (do EvalM.ofNumber (sum.add (← EvalM.number evaluate)) : EvalM Number)
        fun total after trace' => ∃ n, Expands limits source member record.trace after n trace' ∧
          sum.add n = .ok total := by
      apply ((h member List.mem_cons_self).number record.trace).bind
      intro n after trace' expands
      apply (Ensures.ofNumber lenient.outOfRange).mono
      intro total _ _ found
      obtain ⟨added, rfl, rfl⟩ := found
      exact ⟨n, expands, added⟩
    have visited := first.met record rfl
    rw [EvalM.foldNodes]
    -- The failure of one member ends the sum.
    cases run : (do EvalM.ofNumber (sum.add (← EvalM.number evaluate)) : EvalM Number)
        ⟨member, record⟩ with
    | error e t =>
      rw [run] at visited
      exact visited
    | ok total t =>
      rw [run] at visited
      obtain ⟨n, expands, added⟩ := visited
      have others := ih (fun m hm => h m (List.mem_cons_of_mem _ hm)) total t.record
      dsimp only
      cases run' : EvalM.foldNodes
          (fun acc => do EvalM.ofNumber (acc.add (← EvalM.number evaluate))) total members
          t.record with
      | error e rest =>
        rw [run'] at others
        exact others
      | ok total' rest =>
        rw [run'] at others
        obtain ⟨visits, hbefore, hafter, linked, hvisits, summed⟩ := others
        refine ⟨⟨member, record.trace, t.node, n, t.record.trace⟩ :: visits, ?_, ?_, ?_, ?_, ?_⟩
        · rw [List.map_cons, hbefore]
        · rw [List.map_cons, hafter]
        · exact ⟨rfl, linked⟩
        · exact List.forall_mem_cons.mpr ⟨expands, hvisits⟩
        · rw [List.map_cons, List.foldlM_cons, added]
          exact summed

/-- A group is expanded if its members are. -/
theorem ensures_group (lenient : Lenient allowed) (kind : node.kind = .group)
    (repeats : Option Nat) (given : node.get? "repeat" = repeats.map fun n : Nat => .int n)
    (h : ∀ member ∈ node.children, Evaluable limits source allowed evaluate member) :
    Ensures allowed node trace (EvalM.group limits evaluate)
      (Computed limits source node trace) := by
  unfold EvalM.group
  apply (ensures_expandGroup repeats given fun _ _ _ _ _ => lenient.tooManyDigits).bind
  intro _ unfolded trace₁ unfolds
  -- The members that stand in the group now are its own, so that each of them can be evaluated.
  have summed : Ensures allowed unfolded trace₁ (EvalM.foldChildren
      (fun acc => do EvalM.ofNumber (acc.add (← EvalM.number evaluate))) (Number.int 0))
      fun sum after trace' =>
        Expands limits source node trace (after.store sum) sum.normalize trace' := by
    constructor
    intro record same
    subst same
    have visited := visits_of_foldNodes lenient
      (fun member hmember => h member (unfolds.mem_children hmember)) (Number.int 0) record
    unfold EvalM.foldChildren
    dsimp only
    cases run : EvalM.foldNodes
        (fun acc => do EvalM.ofNumber (acc.add (← EvalM.number evaluate))) (Number.int 0)
        unfolded.children record with
    | error e rest =>
      rw [run] at visited
      exact visited
    | ok sum rest =>
      rw [run] at visited
      -- The visits of the members are what the rule for groups asks for.
      obtain ⟨visits, hbefore, hafter, linked, hvisits, added⟩ := visited
      dsimp only
      rw [hafter]
      exact .group kind unfolds hbefore linked hvisits added
  apply summed.bind
  intro sum after trace' expands
  exact .pure ⟨sum, rfl, expands⟩

end

end DiceNotation
