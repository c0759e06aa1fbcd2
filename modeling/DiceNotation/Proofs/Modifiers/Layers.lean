import DiceNotation.Proofs.Modifiers.Operand

/-! # Modifiers over modifiers

A `Layer` is a modifier without its operand.  A chain of modifiers is a list of layers on a node,
the outermost one first, which is the one that is evaluated last.

A layer that was not evaluated first evaluates its operand.  If this fails, the layer fails in the
same way; otherwise it goes on with the roll that it finds, and what it comes to is stored. -/

namespace DiceNotation

open DiceNotation.EvalM (evaluateWithin)
open Node (StandsOn)

/-- A modifier without its operand. -/
structure Layer where
  modifier : Modifier
  attributes : OrderedMap Value
  argument : List Node

/-- The largest number of children of a modifier. -/
def Modifier.most : Modifier → Nat
  | .sort => 1
  | _ => 2

namespace Layer

/-- The modifier on its operand. -/
def on (layer : Layer) (operand : Node) : Node :=
  ⟨.modifier layer.modifier, layer.attributes, operand :: layer.argument⟩

/-- A modifier that was not evaluated and has no more children than it may have. -/
structure Fresh (layer : Layer) : Prop where
  new : layer.attributes.get? "value" = none
  few : layer.argument.length < layer.modifier.most

end Layer

/-- Layers on a node, the outermost one first. -/
def Node.under (base : Node) (layers : List Layer) : Node := layers.foldr Layer.on base

/-- The first layer is the outermost one. -/
theorem Node.under_cons (base : Node) (layer : Layer) (layers : List Layer) :
    base.under (layer :: layers) = layer.on (base.under layers) := rfl

/-- Layers can be put around a node in two steps. -/
theorem Node.under_append (base : Node) (outer inner : List Layer) :
    base.under (outer ++ inner) = (base.under inner).under outer :=
  List.foldr_append

/-- What a modifier does when it has found its roll. -/
private theorem exists_next (rules : Rules) (evaluate : EvalM Value) (m : Modifier) :
    ∃ next : Node → EvalM Value, EvalM.modifier rules evaluate m = (do
      EvalM.requireChildrenUpTo m.most
      let roll ← EvalM.operandDice evaluate
      next roll) := by
  cases m <;> exact ⟨_, rfl⟩

section

variable {rules : Rules} {levels : Nat} {layer : Layer} {operand roll : Node} {record : Record}
  {after : Focus} {e : Fault}

/-- A layer fails where its operand does. -/
theorem run_layer_error (fresh : layer.Fresh)
    (failed : evaluateWithin rules levels ⟨operand, record⟩ = .error e after) :
    evaluateWithin rules (levels + 1) ⟨layer.on operand, record⟩ =
      .error e ⟨layer.on after.node, after.record⟩ := by
  obtain ⟨next, begins⟩ := exists_next rules (evaluateWithin rules levels) layer.modifier
  have counted : 0 < (layer.on operand).childCount ∧
      (layer.on operand).childCount ≤ layer.modifier.most := by
    have few := fresh.few
    simp only [Layer.on, Node.childCount, List.length_cons]
    omega
  -- The operand is evaluated first, and its fault is that of the modifier.
  have operandFails : EvalM.operandDice (evaluateWithin rules levels)
      ⟨layer.on operand, record⟩ = .error e ⟨layer.on after.node, after.record⟩ :=
    EvalM.onChild_of_error rfl (EvalM.bind_of_error failed)
  unfold Layer.on at *
  rw [run_new_modifier fresh.new]
  apply EvalM.bind_of_error
  rw [begins, EvalM.bind_of_ok (EvalM.run_requireChildrenUpTo counted record)]
  exact EvalM.bind_of_error operandFails

/-- A modifier that refuses what it is asked for when it has found its roll fails. -/
theorem Pending.run_refused {m : Modifier} {attributes : OrderedMap Value} {argument : List Node}
    {rolled : Focus} {most : Nat} {next : Node → EvalM Value}
    (pending : Pending rules levels attributes operand record rolled roll)
    (begins : EvalM.modifier rules (evaluateWithin rules levels) m = (do
      EvalM.requireChildrenUpTo most
      let roll ← EvalM.operandDice (evaluateWithin rules levels)
      next roll))
    (few : argument.length < most)
    (refuses : Refuses e ⟨.modifier m, attributes, rolled.node :: argument⟩ (next roll)) :
    ∃ after, evaluateWithin rules (levels + 1)
      ⟨⟨.modifier m, attributes, operand :: argument⟩, record⟩ = .error e after := by
  obtain ⟨_, evaluated⟩ := pending.evaluated
  have failed := refuses rolled.record
  rw [← run_modifier begins few evaluated pending.stands] at failed
  rw [run_new_modifier pending.new]
  exact ⟨_, EvalM.bind_of_error failed⟩

end

end DiceNotation
