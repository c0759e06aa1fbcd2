import DiceNotation.Evaluation.Comparing
import DiceNotation.Proofs.Trees.Chain
import DiceNotation.Proofs.Trees.Walk
import Mathlib

/-! # Sums over trees

What is counted in a tree is a sum over its nodes: `sumOver f root` adds up what `f` says of each
node of the tree.  It is computed child by child (`sumOver_eq`), and the changes that an evaluation
makes in a tree change it by what they do to single nodes.

* `sumOver_replaceDice`    another roll below modifiers
* `sumOver_mapTargets`     marks on the targets of a comparison -/

namespace DiceNotation.Node

/-! ## Sums -/

/-- The sum of what the nodes of a tree count for. -/
def sumOver (f : Node → Int) (root : Node) : Int := (root.preorder.map f).sum

variable {f : Node → Int} {node roll : Node}

/-- The nodes of several trees count for the sum over the trees. -/
theorem sum_preorderAll (f : Node → Int) (nodes : List Node) :
    ((preorderAll nodes).map f).sum = (nodes.map (sumOver f)).sum := by
  induction nodes with
  | nil => rfl
  | cons node nodes ih =>
    rw [preorderAll, List.map_append, List.sum_append, ih, List.map_cons, List.sum_cons]
    rfl

/-- A tree counts for its root and the trees below it. -/
theorem sumOver_eq (f : Node → Int) (root : Node) :
    root.sumOver f = f root + (root.children.map (sumOver f)).sum := by
  obtain ⟨kind, attributes, children⟩ := root
  rw [sumOver, preorder, List.map_cons, List.sum_cons, sum_preorderAll]

/-- A tree counts for its root and the trees below it. -/
@[simp] theorem sumOver_mk (f : Node → Int) (kind : NodeKind) (attributes : OrderedMap Value)
    (children : List Node) :
    sumOver f ⟨kind, attributes, children⟩ =
      f ⟨kind, attributes, children⟩ + (children.map (sumOver f)).sum :=
  sumOver_eq f _

/-- A tree whose nodes count for nothing counts for nothing. -/
theorem sumOver_eq_zero (h : Everywhere (fun node => f node = 0) node) : node.sumOver f = 0 := by
  apply List.sum_eq_zero
  intro count hcount
  obtain ⟨inside, hinside, rfl⟩ := List.mem_map.mp hcount
  exact h inside hinside

/-- A leaf counts for itself. -/
theorem sumOver_of_leaf (leaf : node.children = []) : node.sumOver f = f node := by
  rw [sumOver_eq, leaf, List.map_nil, List.sum_nil, Int.add_zero]

/-- An attribute changes what its own node counts for. -/
theorem sumOver_set (f : Node → Int) (node : Node) (key : String) (value : Value) :
    (node.set key value).sumOver f = node.sumOver f + (f (node.set key value) - f node) := by
  rw [sumOver_eq f (node.set key value), sumOver_eq f node, children_set]
  omega

/-- Setting an attribute of each root changes the sum by what the roots count for more. -/
theorem sum_map_set (f : Node → Int) (key : String) (value : Node → Value) (nodes : List Node) :
    ((nodes.map fun node => node.set key (value node)).map (sumOver f)).sum =
      (nodes.map (sumOver f)).sum +
        (nodes.map fun node => f (node.set key (value node)) - f node).sum := by
  rw [List.map_map, ← List.sum_map_add]
  exact congrArg List.sum (List.map_congr_left fun node _ => sumOver_set f node key _)

/-! ## Changes of an evaluation -/

/-- What a node counts for does not depend on the nodes below it, unless it is a comparison. -/
def CountsAlone (f : Node → Int) : Prop :=
  ∀ kind attributes children children', (∀ op, kind ≠ .comparison op) →
    f ⟨kind, attributes, children⟩ = f ⟨kind, attributes, children'⟩

/-- Modifiers count for the same, whatever roll they stand on. -/
theorem StandsOn.sumOver_replaceDice (stands : StandsOn roll node) (alone : CountsAlone f)
    (other : Node) :
    (node.replaceDice other).sumOver f + roll.sumOver f = node.sumOver f + other.sumOver f := by
  induction stands with
  | roll kind =>
    rw [replaceDice_of_kind kind]
    omega
  | @modifier m attributes operand rest stands ih =>
    have same := alone (.modifier m) attributes (operand.replaceDice other :: rest)
      (operand :: rest) nofun
    rw [replaceDice_modifier, sumOver_mk, sumOver_mk, List.map_cons, List.sum_cons, List.map_cons,
      List.sum_cons, same]
    omega

/-- A roll counts for what its dice count for and what it does itself. -/
theorem sumOver_withChildren (alone : CountsAlone f) (plain : ∀ op, node.kind ≠ .comparison op)
    (children : List Node) :
    (node.withChildren children).sumOver f + (node.children.map (sumOver f)).sum =
      node.sumOver f + (children.map (sumOver f)).sum := by
  obtain ⟨kind, attributes, old⟩ := node
  have same := alone kind attributes children old plain
  simp only [withChildren, sumOver_mk, same]
  omega

/-- The dice that count change the sum by what marks change of them. -/
theorem sum_map_live (f : Node → Int) (c : Condition) (dice : List Node) :
    ((dice.map fun die => if die.isDropped then die else c.mark die).map (sumOver f)).sum =
      (dice.map (sumOver f)).sum +
        ((Dice.live dice).map fun die => f (c.mark die) - f die).sum := by
  -- A dropped die adds to neither side of the difference.
  induction dice with
  | nil => rfl
  | cons die dice ih =>
    simp only [List.map_cons, List.sum_cons, ih]
    by_cases dropped : die.isDropped
    · simp only [dropped, if_true, Dice.live, List.filter_cons, Bool.not_true, Bool.false_eq_true,
        if_false]
      omega
    · have marked := sumOver_set f die "success" (if c.holds die.value? then "yes" else "no")
      have mark : die.set "success" (if c.holds die.value? then "yes" else "no") = c.mark die := rfl
      rw [mark] at marked
      simp only [dropped, Bool.false_eq_true, if_false, Dice.live, List.filter_cons, Bool.not_false,
        if_true, List.map_cons, List.sum_cons, marked]
      omega

/-- Marking the targets of a comparison changes the sum by what the marks change of the targets. -/
theorem sumOver_mapTargets {targets : List Node} (alone : CountsAlone f) (c : Condition)
    (rolls : node.kind.isRoll = true → ∃ roll, StandsOn roll node)
    (found : node.targets? = some targets) :
    (node.mapTargets c.mark).sumOver f =
      node.sumOver f + (targets.map fun target => f (c.mark target) - f target).sum := by
  rcases target_cases rolls with ⟨roll, stands⟩ | isGroup | ⟨plain, single⟩
  · obtain rfl := Option.some.inj ((targets?_of_standsOn stands).symm.trans found)
    rw [mapTargets_of_standsOn stands]
    have plain : ∀ op, roll.kind ≠ .comparison op := by
      rw [stands.kind]
      exact nofun
    -- The dice change the sum of the roll, and the roll changes that of the chain on it.
    have replaced := stands.sumOver_replaceDice alone (roll.markLive c)
    have rolled : (roll.markLive c).sumOver f + _ = _ := sumOver_withChildren alone plain
      (roll.children.map fun die => if die.isDropped then die else c.mark die)
    have marked := sum_map_live f c roll.children
    omega
  · obtain rfl := Option.some.inj ((targets?_of_group isGroup).symm.trans found)
    rw [mapTargets_of_group isGroup]
    have plain : ∀ op, node.kind ≠ .comparison op := by
      rw [isGroup]
      exact nofun
    -- The members stand directly below the group, so their changes add up.
    have grouped := sumOver_withChildren alone plain (node.children.map c.mark)
    have marked := sum_map_set f "success"
      (fun node => if c.holds node.value? then "yes" else "no") node.children
    change ((node.children.map c.mark).map (sumOver f)).sum = _ + (node.children.map fun node =>
      f (c.mark node) - f node).sum at marked
    omega
  · obtain rfl := Option.some.inj ((targets?_of_single plain single).symm.trans found)
    rw [mapTargets_of_single plain single, List.map_singleton, List.sum_singleton]
    exact sumOver_set f node "success" (if c.holds node.value? then "yes" else "no")

end DiceNotation.Node
