import DiceNotation.Proofs.Memory.Stuck
import DiceNotation.Proofs.Trees.Evaluation

/-! # What a failed rule leaves

A rule for a kind of node that comes to a fault leaves the node stuck.  It evaluates children first;
then it changes the node, and from there on nothing can fail any more.

There are three exceptions.  A group is unfolded before its members are evaluated, but it is
unfolded once.  Explosions and rerolls report a limit after they have changed the dice, and a group
reports its repeats after it has forgotten them; these reports could only fail if the numbers in
them had too many digits to be written.  Repeats that are read from a text have few digits, and a
limit that has so many is never reached by a run that ends (`Limits.Expressible`).

* `Halts`             evaluating the node expands it, or leaves it stuck
* `meets_negation`, …  one rule for each kind of node, given that its children halt -/

namespace DiceNotation

open DiceNotation.EvalM (evaluateWithin compute)
open DiceNotation.Expr (Sides)
open Node (IsArgument StandsOn)
open Sem (Lenient)

/-! ## Budgets -/

namespace Dice

variable {condition : Condition} {draw : Draw} {budget drawn : Nat}

/-- Explosions are cut off when the budget is used up. -/
private theorem length_chain_of_cut {value : Option Value}
    (cut : (chain condition draw budget drawn value).2 = true) :
    (chain condition draw budget drawn value).1.length = budget := by
  induction budget generalizing drawn value with
  | zero => rfl
  | succ budget ih =>
    unfold chain at cut ⊢
    by_cases due : condition.holds value
    · simp only [due, if_true] at cut ⊢
      simpa using ih cut
    · simp [due] at cut

/-- Explosions that were cut off have drawn a whole budget. -/
private theorem le_draws_of_capped {extra : Int → Node} {dice : List Node}
    (capped : (explode condition draw extra budget drawn dice).capped = true) :
    drawn + budget ≤ (explode condition draw extra budget drawn dice).draws := by
  induction dice generalizing budget drawn with
  | nil => cases capped
  | cons die dice ih =>
    unfold explode at capped ⊢
    by_cases dropped : die.isDropped
    · simp only [dropped, if_true] at capped ⊢
      exact ih capped
    · simp only [dropped, Bool.false_eq_true, if_false] at capped ⊢
      -- The die that is cut off has used up what was left of the budget.
      by_cases cut : (chain condition draw budget drawn die.value?).2
      · simp only [cut, if_true]
        rw [length_chain_of_cut cut]
      · simp only [cut, Bool.false_eq_true, if_false] at capped ⊢
        have later := ih capped
        omega

/-- A die whose rerolls were cut off was rolled again as often as the budget allows. -/
private theorem count_of_capped {once : Bool} {value : Option Value}
    (capped : (rerollValue condition draw once budget drawn value).capped = true) :
    (rerollValue condition draw once budget drawn value).count = budget := by
  induction budget generalizing drawn value with
  | zero => rfl
  | succ budget ih =>
    unfold rerollValue at capped ⊢
    by_cases due : condition.holds value
    · cases once with
      | true => simp [due] at capped
      | false =>
        simp only [due, if_true, Bool.false_eq_true, if_false] at capped ⊢
        rw [ih capped]
    · simp [due] at capped

/-- Each die has the whole budget, and one of them used it up. -/
private theorem le_draws_of_reroll_capped {once : Bool} {dice : List Node} :
    drawn ≤ (reroll condition draw once budget drawn dice).draws ∧
      ((reroll condition draw once budget drawn dice).capped = true →
        drawn + budget ≤ (reroll condition draw once budget drawn dice).draws) := by
  induction dice generalizing drawn with
  | nil => exact ⟨Nat.le_refl _, nofun⟩
  | cons die dice ih =>
    unfold reroll
    by_cases dropped : die.isDropped
    · simp only [dropped, if_true]
      exact ih
    · simp only [dropped, Bool.false_eq_true, if_false, Bool.or_eq_true]
      obtain ⟨more, others⟩ :=
        @ih (drawn + (rerollValue condition draw once budget drawn die.value?).count)
      constructor
      · omega
      · intro capped
        -- The die that was given up on used the whole budget, whether it is this one or a later
        -- one.
        rcases capped with here | later
        · have whole := count_of_capped here
          omega
        · have := others later
          omega

end Dice

/-! ## What a fault leaves -/

/-- If the limit on explosions and rerolls is reached within so many requests, it can be written.
    A limit with too many digits would take more requests than any run that ends can make. -/
def Limits.Expressible (limits : Limits) (requests : Nat) : Prop :=
  limits.maxIterations < Number.writableBound ∨ requests < Number.writableBound

/-- The fault leaves the node stuck. -/
def Stalls (limits : Limits) (e : Fault) (node : Node) (trace : Trace) : Prop :=
  limits.Expressible trace.requests.length → Stuck e node

/-- Wherever the step is made, it comes to the same fault at once, or else it does not fail. -/
def Steady (step : EvalM α) : Prop :=
  (∃ e, ∀ node, Refuses e node step) ∨
    ∀ node trace, Ensures (fun _ => False) node trace step fun _ _ _ => True

/-- Evaluating the node expands it, or leaves it stuck. -/
def Halts (limits : Limits) (source : Source) (evaluate : EvalM Value) (node : Node) : Prop :=
  ∀ trace, Meets node trace evaluate (Expanded limits source node trace) (Stalls limits)

section

variable {limits : Limits} {source : Source} {functions : FunctionTable} {evaluate : EvalM Value}
  {node left right operand : Node} {attributes : OrderedMap Value} {trace : Trace}

/-- The number at a node that halts is the value of its expansion. -/
private theorem Halts.number (h : Halts limits source evaluate node) (trace : Trace) :
    Meets node trace (EvalM.number evaluate)
      (fun n after trace' => Expands limits source node trace after n trace') (Stalls limits) := by
  have isNumber : ∀ value after trace', Expanded limits source node trace value after trace' →
      ∃ n, value = .number n := by
    intro value after trace' expanded
    obtain ⟨n, rfl, -⟩ := expanded
    exact ⟨n, rfl⟩
  apply ((h trace).number isNumber).mono
  · intro n after trace' expanded
    obtain ⟨_, same, expands⟩ := expanded
    cases same
    exact expands
  · exact fun _ _ _ stalls => stalls

/-- What a node without a value comes to is stored, and what it fails with is left. -/
theorem halts_of_compute {levels : Nat} (new : node.value? = none)
    (expands : Evaluable limits source node.CanFail
      (evaluateWithin ⟨limits, .default, source⟩ (levels + 1)) node)
    (h : ∀ trace, Meets node trace
      (compute ⟨limits, .default, source⟩ (evaluateWithin ⟨limits, .default, source⟩ levels))
      (fun _ _ _ => True) (Stalls limits)) :
    Halts limits source (evaluateWithin ⟨limits, .default, source⟩ (levels + 1)) node := by
  intro trace
  have stored : Meets node trace (evaluateWithin ⟨limits, .default, source⟩ (levels + 1))
      (fun _ _ _ => True) (Stalls limits) := by
    rw [evaluateWithin]
    apply Meets.node_bind
    rw [new]
    apply (h trace).bind
    intro value after trace' _
    exact .modifyNode_bind (.pure trivial)
  exact stored.and_ensures (expands trace)

section

variable (new : attributes.get? "value" = none)
include new

/-! ## Operators and comparisons -/

/-- A negation fails at its operand only. -/
theorem meets_negation (h : Halts limits source evaluate operand) :
    Meets ⟨.negate, attributes, [operand]⟩ trace (EvalM.negation evaluate) (fun _ _ _ => True)
      (Stalls limits) := by
  unfold EvalM.negation
  apply Meets.requireChildren_bind rfl
  apply Meets.onChild_bind rfl (h.number trace)
  · intro e operand' trace' stalls few
    exact (stalls few).negation new
  · intro n operand' trace' _
    exact .pure trivial

/-- An operation fails at its left operand, or at its right one with the left one evaluated. -/
theorem meets_arithmetic (op : Operator) (hleft : Halts limits source evaluate left)
    (hright : Halts limits source evaluate right) :
    Meets ⟨.operator op, attributes, [left, right]⟩ trace (EvalM.arithmetic op evaluate)
      (fun _ _ _ => True) (Stalls limits) := by
  unfold EvalM.arithmetic
  apply Meets.requireChildren_bind rfl
  apply Meets.onChild_bind rfl (hleft trace)
  · intro e left' trace' stalls few
    exact (stalls few).operator_left new
  intro _ left' trace₁ expanded
  obtain ⟨a, rfl, expandsLeft⟩ := expanded
  apply Meets.onChild_bind rfl (hright trace₁)
  · intro e right' trace' stalls few
    exact (stalls few).operator_right new expandsLeft.stored
  intro _ right' trace₂ expanded
  obtain ⟨b, rfl, expandsRight⟩ := expanded
  -- What is reported depends on the values of the operands only.
  have reported : ∀ problem, op.problem? a b = some problem →
      Meets ⟨.operator op, attributes, [left', right']⟩ trace₂ (do
        EvalM.report problem
        return Value.int 0) (fun _ _ _ => True) (Stalls limits) := by
    intro problem failed
    have told : Meets ⟨.operator op, attributes, [left', right']⟩ trace₂ (EvalM.report problem)
        (fun _ _ _ => True) (Stalls limits) := by
      apply (Meets.report problem).mono fun _ _ _ _ => trivial
      intro e node' trace' found few
      obtain ⟨long, rfl, rfl, rfl⟩ := found
      exact stuck_operator new expandsLeft.stored expandsRight.stored failed long
    apply told.bind
    exact fun _ _ _ _ => .pure trivial
  -- A result can be returned unless it is an error or not finite.
  unfold Operator.problem? at reported
  simp only [Value.number?]
  cases applied : op.apply a b with
  | ok result =>
    rw [applied] at reported
    cases unbounded : result.isUnbounded with
    | false =>
      simp only [unbounded, Bool.false_eq_true, if_false]
      exact .pure trivial
    | true =>
      simp only [unbounded, if_true] at reported ⊢
      exact reported _ rfl
  | error reason =>
    rw [applied] at reported
    cases reason <;> exact reported _ rfl

/-- A comparison fails at its left side, or at its right one with the left one evaluated. -/
theorem meets_comparison (op : Comparison) (hleft : Halts limits source evaluate left)
    (hright : Halts limits source evaluate right) :
    Meets ⟨.comparison op, attributes, [left, right]⟩ trace (EvalM.comparison evaluate)
      (fun _ _ _ => True) (Stalls limits) := by
  unfold EvalM.comparison
  apply Meets.childCount_bind
  rw [if_neg (by simp [Node.childCount])]
  apply Meets.requireChildren_bind rfl
  apply Meets.onChild_bind rfl (hleft trace)
  · intro e left' trace' stalls few
    exact (stalls few).comparison_left new
  intro _ left' trace₁ expanded
  obtain ⟨a, rfl, expandsLeft⟩ := expanded
  -- Looking at the left side changes nothing.
  have looked : ∀ record,
      EvalM.onChild 0 EvalM.node ⟨⟨.comparison op, attributes, [left', right]⟩, record⟩ =
        .ok left' ⟨⟨.comparison op, attributes, [left', right]⟩, record⟩ :=
    fun _ => rfl
  apply Meets.run_bind looked
  obtain ⟨targets, found, numbers⟩ := expandsLeft.targets
  simp only [found]
  -- Without targets the right side is not evaluated, so nothing more can fail.
  cases targets with
  | nil => exact .pure trivial
  | cons target targets =>
    have stated : Meets ⟨.comparison op, attributes, [left', right]⟩ trace₁
        (EvalM.condition evaluate) (fun c node' _ => ∃ right' b, c = ⟨op, .number b⟩ ∧
          node' = ⟨.comparison op, attributes, [left', right']⟩) (Stalls limits) := by
      apply Meets.node_bind
      apply Meets.onChild_bind rfl (hright trace₁)
      · intro e right' trace' stalls few
        exact (stalls few).comparison_right new expandsLeft.stored found (List.cons_ne_nil _ _)
      · intro _ right' trace' expanded
        obtain ⟨b, rfl, -⟩ := expanded
        exact .pure ⟨right', b, rfl, rfl⟩
    apply stated.bind
    intro c _ trace' found
    obtain ⟨right', b, rfl, rfl⟩ := found
    -- Testing and marking the targets does not fail.
    have testable : ∀ node ∈ target :: targets, Condition.admits ⟨op, .number b⟩ node.value? :=
      fun node hnode => admits_number op b (numbers node hnode)
    apply Meets.run_bind (run_requireTestable testable)
    have marked : ∀ record, EvalM.onChild 0
        (EvalM.modifyNode (Node.mapTargets (Condition.mark ⟨op, .number b⟩)))
          ⟨⟨.comparison op, attributes, [left', right']⟩, record⟩ =
        .ok () ⟨⟨.comparison op, attributes,
          [left'.mapTargets (Condition.mark ⟨op, .number b⟩), right']⟩, record⟩ :=
      fun _ => rfl
    apply Meets.run_bind marked
    exact .pure trivial

/-! ## Functions -/

omit new in
/-- A function that is always there may fail on a number, but nowhere else. -/
private theorem steady_of_alike {step : EvalM Number} {sem : Sem Number} (h : Alike step sem) :
    Steady step := by
  cases h with
  | number number =>
    cases number with
    | ok a => exact .inr fun node trace => .pure trivial
    | error reason => exact .inl ⟨.outOfRange reason, fun node => refuses_ofNumber rfl⟩
  | zero problem =>
    -- A problem that cannot be written is refused on any node, and one that can be written on none.
    cases writable : problem.isWritable with
    | false => exact .inl ⟨.tooManyDigits, fun node => (refuses_report writable).bind⟩
    | true =>
      have told : problem.isWritable = false → False := by
        rw [writable]
        nofun
      exact .inr fun node trace => (ensures_report told).bind fun _ _ _ _ => .pure trivial

/-- A call fails where the name is unknown or at its argument. -/
theorem meets_function {name : String} (named : attributes.get? "name" = some (.text name))
    {arguments : List Node} (h : ∀ argument ∈ arguments, Halts limits source evaluate argument) :
    Meets ⟨.function, attributes, arguments⟩ trace (EvalM.function .default evaluate)
      (fun _ _ _ => True) (Stalls limits) := by
  unfold EvalM.function
  apply Meets.node_bind
  have found : Node.get? ⟨.function, attributes, arguments⟩ "name" = some (.text name) := named
  simp only [found]
  rcases default_alike name with ⟨label, f, g, known, -, alike⟩ | ⟨unknown, -⟩
  · rw [known]
    unfold DiceFunction.ofNumber DiceFunction.singleArgument
    dsimp only
    rw [bind_assoc]
    apply Meets.node_bind
    have count : Node.childCount ⟨.function, attributes, arguments⟩ = arguments.length := rfl
    rw [count, found]
    -- Only with exactly one argument is an argument evaluated.
    by_cases single : arguments.length = 1
    · obtain ⟨argument, rfl⟩ := List.length_eq_one_iff.mp single
      simp only [List.length_singleton, ne_eq, not_true_eq_false, if_false, bind_assoc, pure_bind]
      apply Meets.onChild_bind rfl ((h argument List.mem_cons_self).number trace)
      · intro e argument' trace' stalls few
        exact (stalls few).function_argument new named known
      intro a argument' trace' expands
      rcases steady_of_alike (alike a) with ⟨e, refuses⟩ | safe
      · exact .of_refuses (refuses _).bind fun _ =>
          stuck_call new named known expands.stored refuses
      · exact .ensures_bind (safe _ _) fun _ _ _ _ => .pure trivial
    · simp only [ne_eq, single, not_false_eq_true, if_true, bind_assoc]
      -- The number of arguments is no number that is computed, and can be written.
      have told : Ensures (fun _ => False) ⟨.function, attributes, arguments⟩ trace
          (EvalM.report (.argumentCount (some (.text name)) arguments.length)) _ :=
        ensures_report nofun
      exact .ensures_bind told fun _ _ _ _ => .pure trivial
  · rw [unknown]
    exact .of_refuses (fun _ => rfl) fun _ => stuck_unknown new named unknown

/-! ## Rolls -/

omit new in
/-- What the limits say of a count and of sides that were rounded can be written. -/
private theorem ensures_checks {sem : Sem Bool} {step : EvalM Bool}
    (h : Simulates node step sem fun a node' b => a = b ∧ node' = node)
    (refusal : Sem.Safe Sem.Refusal sem trace)
    (lenient : Sem.Safe (fun e => e.isRefusal = false) sem trace) :
    Ensures (fun _ => False) node trace step fun _ node' _ => node' = node := by
  have safe : Sem.Safe (fun _ => False) sem trace := by
    intro e trace' failed
    have refused : e.isRefusal = true := refusal e trace' failed
    rw [lenient e trace' failed] at refused
    cases refused
  apply (Ensures.of_simulates h safe).mono
  intro _ _ _ found
  obtain ⟨_, -, -, same⟩ := found
  exact same

omit new in
/-- Nothing fails when the sides are known: both checks are made, and dice are thrown. -/
private theorem meets_throw {times : Int} {sides : Option Int}
    (smallCount : (Value.int times).isWritable = true)
    (smallSides : ∀ s ∈ sides, (Value.int s).isWritable = true) :
    Meets (.thrown attributes times sides []) trace (do
      let countAllowed ← EvalM.within limits.onCount times
      let sidesAllowed ← match sides with
        | none => pure true
        | some s => EvalM.within limits.onSides s
      EvalM.throwDice ⟨limits, functions, source⟩ (countAllowed && sidesAllowed) times sides)
      (fun _ _ _ => True) (Stalls limits) := by
  -- Neither check refuses an amount that can be written.
  have mild : Lenient (fun e => e.isRefusal = false) := ⟨fun _ => rfl, rfl⟩
  have counted : Ensures (fun _ => False) (.thrown attributes times sides []) trace
      (EvalM.within limits.onCount times)
      fun _ node' _ => node' = .thrown attributes times sides [] :=
    ensures_checks (simulates_within _ times) (Roll.safe_within _ smallCount trace)
      (mild.within _ times trace)
  apply Meets.ensures_bind counted
  intro countAllowed _ trace₁ same
  subst same
  have sided := ensures_checks
    (@simulates_sidesAllowed limits (.thrown attributes times sides []) sides)
    (Roll.safe_sidesAllowed smallSides trace₁) (mild.sidesAllowed sides trace₁)
  -- Fate dice have no sides to judge, but are thrown in the same way.
  cases sides with
  | none =>
    apply Meets.ensures_bind sided
    intro sidesAllowed _ trace₂ same
    subst same
    exact .of_ensures ((ensures_throwDice _ times none).mono fun _ _ _ _ => trivial)
  | some s =>
    apply Meets.ensures_bind sided
    intro sidesAllowed _ trace₂ same
    subst same
    exact .of_ensures ((ensures_throwDice _ times (some s)).mono fun _ _ _ _ => trivial)

/-- A roll fails at its count or at its sides, before it is thrown. -/
theorem meets_roll {count : Node} {sidesAttributes : OrderedMap Value} {sides : Sides}
    (stored : sidesAttributes.get? "value" = some sides.toValue)
    (h : Halts limits source evaluate count) :
    Meets ⟨.dice, attributes, [count, ⟨.diceSides, sidesAttributes, []⟩]⟩ trace
      (EvalM.roll ⟨limits, functions, source⟩ evaluate) (fun _ _ _ => True) (Stalls limits) := by
  -- The count is evaluated and rounded before the sides are looked at; each failure on the way
  -- leaves the roll stuck at its count.
  have counted : Meets count trace (EvalM.rounded evaluate)
      (fun times count' _ => ∃ a, count'.value? = some (.number a) ∧ a.roundHalfUp = .ok times)
      fun e count' =>
        Stalls limits e ⟨.dice, attributes, [count', ⟨.diceSides, sidesAttributes, []⟩]⟩ := by
    unfold EvalM.rounded
    have evaluated : Meets count trace (EvalM.number evaluate)
        (fun a count' trace' => Expands limits source count trace count' a trace')
        fun e count' trace' =>
          Stalls limits e ⟨.dice, attributes, [count', ⟨.diceSides, sidesAttributes, []⟩]⟩ trace' :=
      (h.number trace).mono (fun _ _ _ expands => expands)
        fun _ _ _ stalls few => (stalls few).dice_count new
    apply evaluated.bind
    intro a count' trace' expands
    apply (Meets.ofNumber a.roundHalfUp).mono
    · intro times _ _ found
      obtain ⟨rounded, rfl, rfl⟩ := found
      exact ⟨a, expands.stored, rounded⟩
    · intro e _ _ found few
      obtain ⟨reason, fails, rfl, rfl, rfl⟩ := found
      exact stuck_count new expands.stored fails
  unfold EvalM.roll
  apply Meets.requireChildren_bind rfl
  apply Meets.onChild_bind rfl counted
  · exact fun _ _ _ stalls => stalls
  intro times count' trace₁ found
  obtain ⟨a, value, rounded⟩ := found
  have smallCount := Number.isWritable_of_roundHalfUp rounded
  cases sides with
  | fate =>
    apply Meets.run_bind (yields_rollSides_fate stored)
    apply Meets.modifyNode_bind
    exact meets_throw smallCount nofun
  | faces n =>
    cases known : (Number.int n).roundHalfUp with
    -- The sides of the text are refused by their rounding alone, without any evaluation.
    | error reason =>
      exact .of_refuses (refuses_rollSides stored known).bind fun _ =>
        stuck_sides new value rounded stored known
    | ok s =>
      apply Meets.run_bind (yields_rollSides stored known)
      apply Meets.modifyNode_bind
      have smallSides := Number.isWritable_of_roundHalfUp known
      exact meets_throw smallCount fun _ same => Option.some.inj same ▸ smallSides

/-! ## Modifiers -/

section

variable {m : Modifier} {argument dice : List Node} {roll : Node}

omit new in
/-- When the dice are in their place, they are summed up. -/
private theorem meets_refresh (stands : StandsOn roll operand) (hdice : ∀ die ∈ dice, die.IsDie) :
    Meets ⟨.modifier m, attributes, operand.replaceDice (roll.withChildren dice) :: argument⟩ trace
      EvalM.refresh (fun _ _ _ => True) (Stalls limits) :=
  .of_ensures (.of_run (run_refresh stands hdice) trivial)

omit new in
/-- A limit that was reached can be written, if the number of requests can be. -/
private theorem meets_tell {β : Type} {capped : Bool} {n : Note} {problem : Problem}
    (values : problem.values = [.int limits.maxIterations])
    (reached : capped = true → limits.maxIterations ≤ trace.requests.length) {rest : EvalM β}
    (h : ∀ trace', Meets node trace' rest (fun _ _ _ => True) (Stalls limits)) :
    Meets node trace
      (if capped then do
        EvalM.note n
        EvalM.report problem
        rest
      else rest) (fun _ _ _ => True) (Stalls limits) := by
  cases capped with
  | false => exact h trace
  | true =>
    have told : Meets node trace (EvalM.report problem) (fun _ node' _ => node' = node)
        (Stalls limits) := by
      apply (Meets.report problem).mono
      · exact fun _ _ _ found => found.1
      · intro e node' trace' found few
        obtain ⟨long, rfl, rfl, rfl⟩ := found
        -- As many dice as the limit have been thrown, so where the requests are few the limit is
        -- short enough to be written.
        have small : (Value.int limits.maxIterations).isWritable = true := by
          have made := reached rfl
          unfold Limits.Expressible at few
          unfold Value.isWritable Number.isWritable
          rw [decide_eq_true_eq]
          omega
        rw [(isWritable_single values).mpr small] at long
        cases long
    apply Meets.note_bind
    apply told.bind
    intro _ _ trace' same
    subst same
    exact h trace'

/-- The operand is evaluated, and it has its value when the roll is found. -/
private theorem meets_operandDice (h : Halts limits source evaluate operand)
    (isRoll : operand.kind.isRoll = true) (hargument : IsArgument m argument) :
    Meets ⟨.modifier m, attributes, operand :: argument⟩ trace (EvalM.operandDice evaluate)
      (fun roll after trace' => ∃ operand' a,
        after = ⟨.modifier m, attributes, operand' :: argument⟩ ∧
          Expands limits source operand trace operand' a trace' ∧ StandsOn roll operand')
      (Stalls limits) := by
  -- The operand is evaluated as a child, and a failure there is passed on by the modifier.
  have inner : Meets operand trace (do
      let _ ← evaluate
      EvalM.onDice EvalM.node)
      (fun roll operand' trace' => ∃ a,
        Expands limits source operand trace operand' a trace' ∧ StandsOn roll operand')
      (Stalls limits) := by
    apply (h trace).bind
    intro _ operand' trace' expanded
    obtain ⟨a, rfl, expands⟩ := expanded
    obtain ⟨roll, stands, -⟩ := expands.onRoll isRoll
    exact .of_ensures (.of_run (yields_onDice stands) ⟨a, expands, stands⟩)
  unfold EvalM.operandDice
  -- A step that does nothing is put behind, so that the rule for a child applies.
  rw [← bind_pure (EvalM.onChild 0 _)]
  apply Meets.onChild_bind rfl inner
  · intro e operand' trace' stalls few
    exact (stalls few).modifier_operand new hargument
  · intro roll operand' trace' found
    obtain ⟨a, expands, stands⟩ := found
    exact .pure ⟨operand', a, rfl, expands, stands⟩

/-- Explosions, rerolls and critical marks begin alike. -/
private theorem meets_operandFaces {β : Type} (h : Halts limits source evaluate operand)
    (isRoll : operand.kind.isRoll = true) (hargument : IsArgument m argument)
    {next : Node → Value × Faces → EvalM β}
    (hnext : ∀ roll operand' sides faces trace', StandsOn roll operand' → roll.IsThrown →
      Meets ⟨.modifier m, attributes, operand' :: argument⟩ trace' (next roll (sides, faces))
        (fun _ _ _ => True) (Stalls limits)) :
    Meets ⟨.modifier m, attributes, operand :: argument⟩ trace
      (do
        EvalM.requireChildrenUpTo 2
        let roll ← EvalM.operandDice evaluate
        let known ← EvalM.facesOf roll
        next roll known) (fun _ _ _ => True) (Stalls limits) := by
  apply Meets.requireChildrenUpTo_bind (childCount_modifier hargument)
  apply (meets_operandDice new h isRoll hargument).bind
  intro roll _ trace₁ found
  obtain ⟨operand', a, rfl, expands, stands⟩ := found
  have thrown := expands.isThrown stands
  obtain ⟨sides, hsides⟩ := thrown.sides
  apply Meets.run_bind (run_facesOf hsides (faces_shownSides sides))
  exact hnext roll operand' _ _ trace₁ stands thrown

omit new in
/-- The condition of a modifier is read without changing anything. -/
private theorem meets_modifierCondition {β : Type} (remembers : Remembers evaluate)
    (h : IsArgument m argument) (tests : m ≠ .keep ∧ m ≠ .drop) {default : Condition}
    {examined : List Node} (faces : ∀ die ∈ examined, die.IsDie) {next : Condition → EvalM β}
    (hnext : ∀ c, Meets ⟨.modifier m, attributes, operand :: argument⟩ trace (next c)
      (fun _ _ _ => True) (Stalls limits)) :
    Meets ⟨.modifier m, attributes, operand :: argument⟩ trace
      (EvalM.modifierCondition evaluate default examined >>= next) (fun _ _ _ => True)
      (Stalls limits) := by
  have read : Ensures (fun _ => False) ⟨.modifier m, attributes, operand :: argument⟩ trace
      (EvalM.modifierCondition evaluate default examined >>= pure) fun _ after trace' =>
        after = ⟨.modifier m, attributes, operand :: argument⟩ ∧ trace' = trace :=
    ensures_modifierCondition remembers h tests faces fun _ _ => .pure ⟨rfl, rfl⟩
  rw [bind_pure] at read
  apply Meets.ensures_bind read
  intro c _ _ found
  obtain ⟨rfl, rfl⟩ := found
  exact hnext c

section

variable (remembers : Remembers evaluate) (h : Halts limits source evaluate operand)
  (isRoll : operand.kind.isRoll = true)
include remembers h isRoll

/-- An explosion fails at its operand or at its condition, before the dice are changed, unless its
    report has too many digits. -/
private theorem meets_explode (hargument : IsArgument .explode argument) :
    Meets ⟨.modifier .explode, attributes, operand :: argument⟩ trace
      (EvalM.explode ⟨limits, functions, source⟩ evaluate) (fun _ _ _ => True) (Stalls limits) := by
  unfold EvalM.explode
  apply meets_operandFaces new h isRoll hargument
  intro roll operand' sides faces trace₁ stands thrown
  apply Meets.node_bind
  apply meets_modifierCondition remembers hargument (by decide) thrown.live
  intro c
  apply Meets.draw_bind
  apply Meets.request_bind
  apply Meets.run_bind (run_setDice stands _)
  apply meets_tell rfl
  · intro capped
    -- An explosion that is cut off has drawn as often as its budget says, so with expressible
    -- requests the budget can be written.
    have drawn := Dice.le_draws_of_capped capped
    simp only [Trace.after, List.length_append, List.length_replicate]
    dsimp only at drawn
    omega
  · intro trace'
    exact .note_bind (meets_refresh stands (kept_isDie.explode _ _ _ _ _ _ thrown.faces))

/-- A reroll fails at its operand or at its condition, before the dice are changed, unless its
    report has too many digits. -/
private theorem meets_reroll (hargument : IsArgument .reroll argument) :
    Meets ⟨.modifier .reroll, attributes, operand :: argument⟩ trace
      (EvalM.reroll ⟨limits, functions, source⟩ evaluate) (fun _ _ _ => True) (Stalls limits) := by
  unfold EvalM.reroll
  apply meets_operandFaces new h isRoll hargument
  intro roll operand' sides faces trace₁ stands thrown
  apply Meets.node_bind
  apply meets_modifierCondition remembers hargument (by decide) thrown.live
  intro c
  apply Meets.draw_bind
  apply Meets.request_bind
  apply Meets.run_bind (run_setDice stands _)
  apply meets_tell rfl
  · intro capped
    -- A reroll that is cut off has drawn as often as its budget says, so with expressible requests
    -- the budget can be written.
    have drawn := Dice.le_draws_of_reroll_capped.2 capped
    simp only [Trace.after, List.length_append, List.length_replicate]
    dsimp only at drawn
    omega
  · intro trace'
    exact meets_refresh stands (kept_isDie.reroll _ _ _ _ _ thrown.faces)

/-- A critical mark fails at its operand or at its condition, before the dice are changed. -/
private theorem meets_critical (hargument : IsArgument .critical argument) :
    Meets ⟨.modifier .critical, attributes, operand :: argument⟩ trace (EvalM.critical evaluate)
      (fun _ _ _ => True) (Stalls limits) := by
  unfold EvalM.critical
  apply meets_operandFaces new h isRoll hargument
  intro roll operand' sides faces trace₁ stands thrown
  apply Meets.node_bind
  apply meets_modifierCondition remembers hargument (by decide) thrown.faces
  intro c
  apply Meets.run_bind (run_setDice stands _)
  exact meets_refresh stands (kept_isDie.markCritical _ _ thrown.faces)

/-- Keeping and dropping; the number of dice may be out of range. -/
private theorem meets_select (keep : Bool)
    (hargument : IsArgument (if keep then .keep else .drop) argument) :
    Meets ⟨.modifier (if keep then .keep else .drop), attributes, operand :: argument⟩ trace
      (EvalM.select keep evaluate) (fun _ _ _ => True) (Stalls limits) := by
  have ranks : (if keep then Modifier.keep else .drop) = .keep ∨
      (if keep then Modifier.keep else .drop) = .drop := by
    cases keep <;> simp
  generalize (if keep then Modifier.keep else .drop) = m at hargument ranks
  unfold EvalM.select
  apply Meets.requireChildrenUpTo_bind (childCount_modifier hargument)
  apply (meets_operandDice new h isRoll hargument).bind
  intro roll _ trace₁ found
  obtain ⟨operand', a, rfl, expands, stands⟩ := found
  have faces := (expands.isThrown stands).faces
  -- With a number of dice, the rest does not fail.
  have rest : ∀ amount : Int, Meets ⟨.modifier m, attributes, operand' :: argument⟩ trace₁ (do
      let highest := (← EvalM.node).hasText "type" "highest"
      if (Dice.liveNumbers? roll.children).isNone then throw .notANumber
      EvalM.setDice ((if keep then Dice.keep else Dice.drop) highest amount roll.children)
      EvalM.refresh) (fun _ _ _ => True) (Stalls limits) := by
    intro amount
    apply Meets.node_bind
    rw [liveNumbers?_eq faces]
    simp only [Option.isNone_some, Bool.false_eq_true, if_false]
    apply Meets.run_bind (run_setDice stands _)
    cases keep with
    | true => exact meets_refresh stands (kept_isDie.keep _ _ faces)
    | false => exact meets_refresh stands (kept_isDie.drop _ _ faces)
  apply Meets.childCount_bind
  cases hargument with
  | none =>
    rw [if_pos (by simp [Node.childCount])]
    exact rest 1
  | @amount literal _ isLiteral =>
    rw [if_neg (by simp [Node.childCount])]
    obtain ⟨n, value⟩ := isLiteral.value?
    have yields := remembers.yields value
    -- The amount is a literal, which can only fail by being too large to be rounded.
    cases known : (Number.int n).roundHalfUp with
    | ok amount =>
      apply Meets.run_bind ((yields.rounded known).onChild rfl)
      exact rest amount
    | error reason =>
      exact .of_refuses ((refuses_rounded yields known).onChild rfl).bind fun _ =>
        stuck_amount new ranks expands.stored stands value known
  | condition tests _ _ =>
    rcases ranks with rfl | rfl <;> simp at tests

omit remembers in
/-- A sort fails at its operand only. -/
private theorem meets_sort (hargument : IsArgument .sort argument) :
    Meets ⟨.modifier .sort, attributes, operand :: argument⟩ trace (EvalM.sort evaluate)
      (fun _ _ _ => True) (Stalls limits) := by
  obtain rfl := hargument.sort
  unfold EvalM.sort
  apply Meets.requireChildrenUpTo_bind (by simp [Node.childCount])
  apply (meets_operandDice new h isRoll hargument).bind
  intro roll _ trace₁ found
  obtain ⟨operand', a, rfl, expands, stands⟩ := found
  have faces := (expands.isThrown stands).faces
  apply Meets.node_bind
  -- Every die shows a face, so sorting is never refused.
  rw [mapM_number? faces]
  simp only [Option.isNone_some, Bool.false_eq_true, if_false]
  apply Meets.run_bind (run_setDice stands _)
  exact meets_refresh stands (Kept.sort _ faces)

/-- Every modifier that fails leaves the node stuck. -/
theorem meets_modifier (hargument : IsArgument m argument) :
    Meets ⟨.modifier m, attributes, operand :: argument⟩ trace
      (EvalM.modifier ⟨limits, functions, source⟩ evaluate m) (fun _ _ _ => True)
      (Stalls limits) := by
  cases m with
  | explode => exact meets_explode new remembers h isRoll hargument
  | keep => exact meets_select new remembers h isRoll true hargument
  | drop => exact meets_select new remembers h isRoll false hargument
  | critical => exact meets_critical new remembers h isRoll hargument
  | reroll => exact meets_reroll new remembers h isRoll hargument
  | sort => exact meets_sort new h isRoll hargument

end

end

end

/-! ## Groups -/

/-- A sum that fails at a member is stuck there: the members before it keep their values. -/
private theorem stuckSum_of_foldNodes {members nodes : List Node} {sum : Number}
    {record record' : Record}
    {e : Fault} (h : ∀ member ∈ members, Halts limits source evaluate member)
    (few : limits.Expressible record'.trace.requests.length)
    (failed : EvalM.foldNodes (fun acc => do EvalM.ofNumber (acc.add (← EvalM.number evaluate))) sum
      members record = .error e (nodes, record')) : StuckSum e sum nodes := by
  -- The member that fails is the first one, or one behind it.
  induction members generalizing sum record nodes with
  | nil => cases failed
  | cons member members ih =>
    have first : Meets member record.trace
        (do EvalM.ofNumber (sum.add (← EvalM.number evaluate)) : EvalM Number)
        (fun total member' _ => ∃ n, member'.value? = some (.number n) ∧ sum.add n = .ok total)
        fun e member' trace' => limits.Expressible trace'.requests.length →
          ∀ rest, StuckSum e sum (member' :: rest) := by
      -- The member itself may fail, or the addition of its value.
      have evaluated : Meets member record.trace (EvalM.number evaluate)
          (fun n member' _ => member'.value? = some (.number n))
          fun e member' trace' => limits.Expressible trace'.requests.length →
            ∀ rest, StuckSum e sum (member' :: rest) :=
        ((h member List.mem_cons_self).number record.trace).mono
          (fun _ _ _ expands => expands.stored) fun _ _ _ stalls few _ => .member (stalls few)
      apply evaluated.bind
      intro n member' trace' stored
      apply (Meets.ofNumber (sum.add n)).mono
      · intro total _ _ found
        obtain ⟨added, rfl, rfl⟩ := found
        exact ⟨n, stored, added⟩
      · intro e _ _ found _ rest
        obtain ⟨reason, fails, rfl, rfl, rfl⟩ := found
        exact .addition stored fails rfl
    have visited := first.met record rfl
    rw [EvalM.foldNodes] at failed
    cases run : (do EvalM.ofNumber (sum.add (← EvalM.number evaluate)) : EvalM Number)
        ⟨member, record⟩ with
    | error e' t =>
      rw [run] at visited failed
      cases failed
      exact visited few members
    | ok total t =>
      rw [run] at visited failed
      obtain ⟨n, stored, added⟩ := visited
      dsimp only at failed
      -- With this member added, the failure is one of the members behind it.
      cases run' : EvalM.foldNodes
          (fun acc => do EvalM.ofNumber (acc.add (← EvalM.number evaluate))) total members
          t.record with
      | ok total' rest =>
        rw [run'] at failed
        cases failed
      | error e' rest =>
        rw [run'] at failed
        cases failed
        exact .later stored added (ih (fun m hm => h m (List.mem_cons_of_mem _ hm)) run')

/-- A group fails at a member, and its members are then unfolded for good. -/
theorem meets_group (kind : node.kind = .group) (new : node.value? = none) (repeats : Option Nat)
    (given : node.get? "repeat" = repeats.map fun n : Nat => .int n)
    (small : ∀ n ∈ repeats, (Value.int n).isWritable = true)
    (h : ∀ member ∈ node.children, Halts limits source evaluate member) :
    Meets node trace (EvalM.group limits evaluate) (fun _ _ _ => True) (Stalls limits) := by
  unfold EvalM.group
  apply Meets.ensures_bind (ensures_expandGroup_of_writable repeats given small)
  intro _ unfolded trace₁ unfolds
  -- The members are added up one after another, so a failure leaves the ones before it evaluated.
  have summed : Meets unfolded trace₁ (EvalM.foldChildren
      (fun acc => do EvalM.ofNumber (acc.add (← EvalM.number evaluate))) (Number.int 0))
      (fun _ _ _ => True) (Stalls limits) := by
    constructor
    intro record same
    unfold EvalM.foldChildren
    dsimp only
    cases run : EvalM.foldNodes
        (fun acc => do EvalM.ofNumber (acc.add (← EvalM.number evaluate))) (Number.int 0)
        unfolded.children record with
    | ok sum rest => trivial
    | error e rest =>
      intro few
      -- The fold stops at the member that fails, with the sum of those before it.
      have stuck : StuckSum e 0 rest.1 :=
        stuckSum_of_foldNodes (fun member hmember => h member (unfolds.mem_children hmember)) few
          run
      exact StuckSum.group (unfolds.kind.trans kind) (unfolds.value?.trans new) unfolds.single stuck
  apply summed.bind
  exact fun _ _ _ _ => .pure trivial

end

end DiceNotation
