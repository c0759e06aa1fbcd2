import DiceNotation.Evaluation.Comparing
import DiceNotation.Proofs.Trees.Preorder

/-! # Modifiers on a roll

A modifier stands on a roll or on another modifier.  `StandsOn roll node` says that `node` is the
roll itself or the last of a chain of modifiers on it.  This is where `findDice?` finds the roll,
and `replaceDice` puts another one in its place without touching the modifiers.

* `StandsOn.replace`      another roll stands where the roll stood
* `StandsOn.everywhere`   what holds of every node of the chain still holds then

The targets of a comparison are the dice that count of such a roll, the members of a group, or the
node itself; `target_cases` tells these apart. -/

namespace DiceNotation.Node

/-- The node is the roll or a modifier that stands on it, directly or on other modifiers. -/
inductive StandsOn (roll : Node) : Node → Prop where
  | roll (kind : roll.kind = .dice) : StandsOn roll roll
  | modifier {m : Modifier} {attributes : OrderedMap Value} {operand : Node} {rest : List Node}
      (h : StandsOn roll operand) : StandsOn roll ⟨.modifier m, attributes, operand :: rest⟩

/-- A roll finds itself. -/
theorem findDice?_of_kind {node : Node} (h : node.kind = .dice) : node.findDice? = some node := by
  obtain ⟨kind, attributes, children⟩ := node
  unfold findDice?
  rw [if_pos h]

/-- A roll is replaced as a whole. -/
theorem replaceDice_of_kind {node : Node} (h : node.kind = .dice) (other : Node) :
    node.replaceDice other = other := by
  obtain ⟨kind, attributes, children⟩ := node
  unfold replaceDice
  rw [if_pos h]

/-- The roll below a modifier is the one below its operand. -/
@[simp] theorem findDice?_modifier (m : Modifier) (attributes : OrderedMap Value) (operand : Node)
    (rest : List Node) :
    (Node.mk (.modifier m) attributes (operand :: rest)).findDice? = operand.findDice? := by
  rw [findDice?, if_neg nofun]

/-- The roll below a modifier is replaced in its operand. -/
@[simp] theorem replaceDice_modifier (m : Modifier) (attributes : OrderedMap Value)
    (operand : Node) (rest : List Node) (other : Node) :
    (Node.mk (.modifier m) attributes (operand :: rest)).replaceDice other =
      ⟨.modifier m, attributes, operand.replaceDice other :: rest⟩ := by
  rw [replaceDice, if_neg nofun]

namespace StandsOn

variable {roll node other : Node}

/-- What is stood on is a roll. -/
theorem kind (h : StandsOn roll node) : roll.kind = .dice := by
  induction h with
  | roll kind => exact kind
  | modifier _ ih => exact ih

/-- What stands on a roll shows one. -/
theorem isRoll (h : StandsOn roll node) : node.kind.isRoll = true := by
  cases h with
  | roll kind => rw [kind]; rfl
  | modifier _ => rfl

/-- The roll that is found is the one that is stood on. -/
theorem findDice? (h : StandsOn roll node) : node.findDice? = some roll := by
  induction h with
  | roll kind => exact findDice?_of_kind kind
  | modifier _ ih => rw [findDice?_modifier, ih]

/-- What stands on a roll stands on the roll that replaces it. -/
theorem replace (h : StandsOn roll node) (kind : other.kind = .dice) :
    StandsOn other (node.replaceDice other) := by
  induction h with
  | roll isDice =>
    rw [replaceDice_of_kind isDice]
    exact .roll kind
  | modifier _ ih =>
    rw [replaceDice_modifier]
    exact .modifier ih

/-- The roll itself can be put in its own place. -/
theorem replace_self (h : StandsOn roll node) : node.replaceDice roll = node := by
  induction h with
  | roll kind => exact replaceDice_of_kind kind roll
  | modifier _ ih => rw [replaceDice_modifier, ih]

/-- Of two rolls put in the same place one after the other, the second one stays. -/
theorem replace_replace (h : StandsOn roll node) (kind : other.kind = .dice) (last : Node) :
    (node.replaceDice other).replaceDice last = node.replaceDice last := by
  induction h with
  | roll isDice => rw [replaceDice_of_kind isDice, replaceDice_of_kind isDice,
      replaceDice_of_kind kind]
  | modifier _ ih => rw [replaceDice_modifier, replaceDice_modifier, replaceDice_modifier, ih]

/-- The modifiers keep their attributes. -/
theorem get?_replace (h : StandsOn roll node) (name : String)
    (same : other.get? name = roll.get? name) :
    (node.replaceDice other).get? name = node.get? name := by
  cases h with
  | roll kind => rw [replaceDice_of_kind kind, same]
  | modifier _ => rw [replaceDice_modifier]; rfl

/-- A property that a modifier has whatever it stands on is kept, if the other roll has it. -/
theorem everywhere {P : Node → Prop} (h : StandsOn roll node)
    (change : ∀ m attributes operand operand' rest, StandsOn roll operand →
      P ⟨.modifier m, attributes, operand :: rest⟩ →
        P ⟨.modifier m, attributes, operand' :: rest⟩)
    (before : Everywhere P node) (inside : Everywhere P other) :
    Everywhere P (node.replaceDice other) := by
  induction h with
  | roll kind =>
    rw [replaceDice_of_kind kind]
    exact inside
  | @modifier m attributes operand rest stands ih =>
    rw [everywhere_iff] at before
    obtain ⟨here, below⟩ := before
    rw [replaceDice_modifier, everywhere_iff]
    constructor
    · exact change m attributes operand _ rest stands here
    · -- Only the operand changes; the argument behind it stays.
      intro child hchild
      rcases List.mem_cons.mp hchild with rfl | old
      · exact ih (below operand List.mem_cons_self)
      · exact below child (List.mem_cons_of_mem _ old)

end StandsOn

/-! ## Targets -/

section

variable {roll node : Node} {c : Condition}

/-- The roll with the dice that count marked. -/
def markLive (c : Condition) (roll : Node) : Node :=
  roll.withChildren (roll.children.map fun die => if die.isDropped then die else c.mark die)

/-- What is compared stands on a roll, is a group, or is a single target. -/
theorem target_cases (rolls : node.kind.isRoll = true → ∃ roll, StandsOn roll node) :
    (∃ roll, StandsOn roll node) ∨ node.kind = .group ∨
      (node.kind.isRoll = false ∧ node.kind ≠ .group) := by
  cases isRoll : node.kind.isRoll with
  | true => exact .inl (rolls isRoll)
  | false =>
    by_cases isGroup : node.kind = .group
    · exact .inr (.inl isGroup)
    · exact .inr (.inr ⟨rfl, isGroup⟩)

/-- The targets of what stands on a roll are its live dice. -/
theorem targets?_of_standsOn (stands : StandsOn roll node) :
    node.targets? = some (Dice.live roll.children) := by
  unfold targets?
  rw [if_pos stands.isRoll, stands.findDice?, Option.map_some]

/-- Marking the targets of what stands on a roll marks its live dice. -/
theorem mapTargets_of_standsOn (stands : StandsOn roll node) :
    node.mapTargets c.mark = node.replaceDice (roll.markLive c) := by
  unfold mapTargets
  rw [if_pos stands.isRoll, stands.findDice?]
  rfl

end

end DiceNotation.Node
