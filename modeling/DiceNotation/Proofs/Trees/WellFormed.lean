import DiceNotation.Proofs.Expr
import DiceNotation.Proofs.Trees.Preorder

/-! # Well-formed trees

`Node.WellFormed` says of a tree what an evaluation relies on: operators have their operands,
modifiers stand on a roll and have an argument of the right kind, functions have a name, and only
literals and sides hold a value.  Nothing is asked of the attributes that tell the variants of a
modifier apart.

* `WellFormed.unevaluated`   no part of a well-formed tree was evaluated
* `toNode_wellFormed`        the tree of an expression is well formed -/

namespace DiceNotation

open DiceNotation.Expr (Sides Bound Step)

namespace Node

/-- A literal: it holds a natural number and has no children. -/
inductive IsLiteral : Node → Prop where
  | intro {attributes : OrderedMap Value} (n : Nat)
      (value : attributes.get? "value" = some (.int n)) : IsLiteral ⟨.integer, attributes, []⟩

/-- A literal holds a natural number. -/
theorem IsLiteral.value? {node : Node} (h : IsLiteral node) :
    ∃ n : Nat, node.value? = some (.int n) := by
  obtain ⟨n, value⟩ := h
  exact ⟨n, value⟩

/-- Sides of dice: they hold a natural number or the mark of fate dice, and have no children. -/
inductive IsSides : Node → Prop where
  | intro {attributes : OrderedMap Value} (sides : Sides)
      (value : attributes.get? "value" = some sides.toValue) :
      IsSides ⟨.diceSides, attributes, []⟩

/-- What may stand behind the roll below a modifier: a number of dice to keep or drop, a condition
    that dice are tested against, or nothing. -/
inductive IsArgument : Modifier → List Node → Prop where
  | none (m : Modifier) : IsArgument m []
  | amount {m : Modifier} {amount : Node} (ranks : m = .keep ∨ m = .drop)
      (literal : IsLiteral amount) : IsArgument m [amount]
  | condition {m : Modifier} {op : Comparison} {attributes : OrderedMap Value} {limit : Node}
      (tests : m = .explode ∨ m = .reroll ∨ m = .critical)
      (new : attributes.get? "value" = none) (literal : IsLiteral limit) :
      IsArgument m [⟨.comparison op, attributes, [limit]⟩]

/-- Sorting takes no argument. -/
theorem IsArgument.sort {argument : List Node} (h : IsArgument .sort argument) : argument = [] := by
  cases h with
  | none => rfl
  | amount ranks _ => simp at ranks
  | condition tests _ _ => simp at tests

/-- The tree has the shape that an evaluation relies on. -/
inductive WellFormed : Node → Prop where
  | literal {node : Node} (literal : IsLiteral node) : WellFormed node
  | dice {attributes : OrderedMap Value} {count sides : Node}
      (new : attributes.get? "value" = none) (hcount : WellFormed count) (hsides : IsSides sides) :
      WellFormed ⟨.dice, attributes, [count, sides]⟩
  | modifier {m : Modifier} {attributes : OrderedMap Value} {operand : Node}
      {argument : List Node} (new : attributes.get? "value" = none)
      (roll : operand.kind.isRoll = true) (hoperand : WellFormed operand)
      (hargument : IsArgument m argument) :
      WellFormed ⟨.modifier m, attributes, operand :: argument⟩
  | negate {attributes : OrderedMap Value} {operand : Node}
      (new : attributes.get? "value" = none) (hoperand : WellFormed operand) :
      WellFormed ⟨.negate, attributes, [operand]⟩
  | operator {op : Operator} {attributes : OrderedMap Value} {left right : Node}
      (new : attributes.get? "value" = none) (hleft : WellFormed left)
      (hright : WellFormed right) : WellFormed ⟨.operator op, attributes, [left, right]⟩
  | comparison {op : Comparison} {attributes : OrderedMap Value} {left right : Node}
      (new : attributes.get? "value" = none) (hleft : WellFormed left)
      (hright : WellFormed right) : WellFormed ⟨.comparison op, attributes, [left, right]⟩
  | function {attributes : OrderedMap Value} {arguments : List Node} (name : String)
      (new : attributes.get? "value" = none) (named : attributes.get? "name" = some (.text name))
      (harguments : ∀ argument ∈ arguments, WellFormed argument) :
      WellFormed ⟨.function, attributes, arguments⟩
  | group {attributes : OrderedMap Value} {members : List Node} (repeats : Option Nat)
      (new : attributes.get? "value" = none)
      (repeated : attributes.get? "repeat" = repeats.map fun n : Nat => .int n)
      (hmembers : ∀ member ∈ members, WellFormed member) :
      WellFormed ⟨.group, attributes, members⟩

/-! ## Nodes that were not evaluated -/

/-- What a node is before its evaluation: a literal, sides, or a node without a value that is not a
    die. -/
inductive Unevaluated (node : Node) : Prop where
  | literal (h : IsLiteral node)
  | sides (h : IsSides node)
  | new (plain : node.kind ≠ .diceRoll) (new : node.value? = none)

/-- A literal is unevaluated. -/
theorem IsLiteral.unevaluated {node : Node} (h : IsLiteral node) : Everywhere Unevaluated node := by
  rw [everywhere_iff]
  refine ⟨.literal h, ?_⟩
  cases h
  exact nofun

/-- Sides are unevaluated. -/
private theorem IsSides.unevaluated {node : Node} (h : IsSides node) :
    Everywhere Unevaluated node := by
  rw [everywhere_iff]
  refine ⟨.sides h, ?_⟩
  cases h
  exact nofun

/-- The argument of a modifier is unevaluated. -/
theorem IsArgument.unevaluated {m : Modifier} {argument : List Node} (h : IsArgument m argument) :
    ∀ node ∈ argument, Everywhere Unevaluated node := by
  cases h with
  | none => exact nofun
  | amount _ literal => exact List.forall_mem_singleton.mpr literal.unevaluated
  | condition _ new literal =>
    rw [List.forall_mem_singleton, everywhere_iff]
    exact ⟨.new nofun new, List.forall_mem_singleton.mpr literal.unevaluated⟩

/-- A well-formed tree is unevaluated. -/
theorem WellFormed.unevaluated {node : Node} (h : node.WellFormed) :
    Everywhere Unevaluated node := by
  -- Only literals and sides hold a value; every other construct is new.
  induction h with
  | literal literal => exact literal.unevaluated
  -- The sides of a roll are written with their value.
  | dice new _ hsides ih =>
    rw [everywhere_iff]
    exact ⟨.new nofun new,
      List.forall_mem_cons.mpr ⟨ih, List.forall_mem_singleton.mpr hsides.unevaluated⟩⟩
  | modifier new _ _ hargument ih =>
    rw [everywhere_iff]
    exact ⟨.new nofun new, List.forall_mem_cons.mpr ⟨ih, hargument.unevaluated⟩⟩
  | negate new _ ih =>
    rw [everywhere_iff]
    exact ⟨.new nofun new, List.forall_mem_singleton.mpr ih⟩
  | operator new _ _ ih ih' =>
    rw [everywhere_iff]
    exact ⟨.new nofun new, List.forall_mem_cons.mpr ⟨ih, List.forall_mem_singleton.mpr ih'⟩⟩
  | comparison new _ _ ih ih' =>
    rw [everywhere_iff]
    exact ⟨.new nofun new, List.forall_mem_cons.mpr ⟨ih, List.forall_mem_singleton.mpr ih'⟩⟩
  | function _ new _ _ ih =>
    rw [everywhere_iff]
    exact ⟨.new nofun new, ih⟩
  | group _ new _ _ ih =>
    rw [everywhere_iff]
    exact ⟨.new nofun new, ih⟩

/-- A node that was written and not evaluated: it is no die, and nothing but a literal or sides
    holds a value. -/
structure Written (node : Node) : Prop where
  plain : node.kind ≠ .diceRoll
  quiet : node.value? = none ∨ node.kind = .integer ∨ node.kind = .diceSides

/-- What is unevaluated was written. -/
private theorem Unevaluated.written {node : Node} (h : node.Unevaluated) : node.Written := by
  cases h with
  | literal h => cases h; exact ⟨nofun, .inr (.inl rfl)⟩
  | sides h => cases h; exact ⟨nofun, .inr (.inr rfl)⟩
  | new plain new => exact ⟨plain, .inl new⟩

/-- A literal was written. -/
theorem IsLiteral.written {node : Node} (h : IsLiteral node) : Everywhere Written node :=
  h.unevaluated.mono fun _ => Unevaluated.written

/-- The argument of a modifier was written. -/
theorem IsArgument.written {m : Modifier} {argument : List Node} (h : IsArgument m argument) :
    ∀ node ∈ argument, Everywhere Written node :=
  fun node hnode => (h.unevaluated node hnode).mono fun _ => Unevaluated.written

/-- A well-formed tree was written. -/
theorem WellFormed.written {node : Node} (h : node.WellFormed) : Everywhere Written node :=
  h.unevaluated.mono fun _ => Unevaluated.written

end Node

/-! ## Trees of expressions -/

namespace Expr

open Node (IsLiteral IsSides IsArgument WellFormed)

/-- An integer literal is a literal. -/
theorem isLiteral_integer (n : Nat) : IsLiteral (.integer n) := .intro n rfl

/-- The sides that are parsed are sides. -/
theorem isSides_diceSides (sides : Sides) : IsSides (.diceSides sides.toValue) := .intro sides rfl

/-- The argument of a modifier that is parsed is one. -/
theorem isArgument_step (step : Step) : IsArgument step.modifier step.argument.toList := by
  -- An argument is a condition or an amount, by the kind of the modifier.
  have condition {m : Modifier} (tests : m = .explode ∨ m = .reroll ∨ m = .critical)
      (bound : Option Bound) : IsArgument m (bound.map Bound.toNode).toList := by
    cases bound with
    | none => exact .none m
    | some bound => exact .condition tests rfl (isLiteral_integer bound.limit)
  have amount {m : Modifier} (ranks : m = .keep ∨ m = .drop) (amount : Option Nat) :
      IsArgument m (amount.map fun k : Nat => Node.integer k).toList := by
    cases amount with
    | none => exact .none m
    | some n => exact .amount ranks (isLiteral_integer n)
  cases step with
  | explode _ bound => exact condition (by simp [Step.modifier]) bound
  | keep _ n => exact amount (by simp [Step.modifier]) n
  | drop _ n => exact amount (by simp [Step.modifier]) n
  | critical _ bound => exact condition (by simp [Step.modifier]) bound
  | reroll _ bound => exact condition (by simp [Step.modifier]) bound
  | sort _ => exact .none .sort

/-- A modifier brings no value with it. -/
theorem new_step (step : Step) : (OrderedMap.ofList step.attributes).get? "value" = none := by
  cases step <;> rfl

/-- Dice with their modifiers show a roll. -/
theorem isRoll_modified (count : Node) (sides : Sides) (steps : List Step) :
    (modified (plainRoll count sides) steps).kind.isRoll = true := by
  rcases kind_modified count sides steps with h | ⟨m, h⟩ <;> rw [h] <;> rfl

/-- Dice with their modifiers are well-formed if their count is. -/
theorem wellFormed_modified {count : Node} (h : WellFormed count) (sides : Sides)
    (steps : List Step) : WellFormed (modified (plainRoll count sides) steps) := by
  induction steps using List.reverseRecOn with
  | nil => exact .dice rfl h (isSides_diceSides sides)
  | append_singleton steps step ih =>
    rw [modified_append]
    exact .modifier (new_step step) (isRoll_modified count sides steps) ih (isArgument_step step)

/-- The tree of an expression is well formed. -/
theorem toNode_wellFormed (e : Expr) : e.toNode.WellFormed := by
  -- Each construct is built by the rule that is named after it.
  induction e with
  | literal n => exact .literal (isLiteral_integer n)
  | roll count sides steps ih => exact wellFormed_modified ih sides steps
  | negate operand ih => exact .negate rfl ih
  | binary op left right ih ih' => exact .operator rfl ih ih'
  | compare op left right ih ih' => exact .comparison rfl ih ih'
  | call name arguments ih =>
    rw [toNode, toNodes_eq_map]
    refine .function name rfl rfl fun node h => ?_
    obtain ⟨e, he, rfl⟩ := List.mem_map.mp h
    exact ih e he
  | group members repeats ih =>
    rw [toNode, toNodes_eq_map]
    refine .group repeats (by cases repeats <;> rfl) (by cases repeats <;> rfl) fun node h => ?_
    obtain ⟨e, he, rfl⟩ := List.mem_map.mp h
    exact ih e he

end Expr

end DiceNotation
