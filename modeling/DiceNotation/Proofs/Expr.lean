import DiceNotation.Node.Basic
import Mathlib

/-! # Expressions as a type

An `Expr` is an expression without the freedom of a tree: every operator has its operands, every
modifier stands on a roll, and only literals, sides and arguments carry numbers.  `toNode` is the
tree of an expression.

The modifiers of a roll are a list, the first one standing next to the dice; in the tree the
last one is the root.

* `Expr.induct`    induction with one hypothesis for each member of a list
* `toNode_roll`    the tree of a roll, modifier by modifier -/

namespace DiceNotation

namespace Expr

/-- The sides of the dice of a roll. -/
inductive Sides where
  | faces (n : Nat)
  | fate
deriving DecidableEq, Repr

/-- A comparison sign and a numeral, which dice are tested against. -/
structure Bound where
  op : Comparison
  limit : Nat
deriving DecidableEq, Repr

/-- A modifier with its argument. -/
inductive Step where
  | explode (penetrating : Bool) (bound : Option Bound)
  | keep (highest : Bool) (amount : Option Nat)
  | drop (highest : Bool) (amount : Option Nat)
  | critical (success : Bool) (bound : Option Bound)
  | reroll (once : Bool) (bound : Option Bound)
  | sort (descending : Bool)
deriving DecidableEq, Repr

end Expr

/-- An expression. -/
inductive Expr where
  | literal (n : Nat)
  | roll (count : Expr) (sides : Expr.Sides) (steps : List Expr.Step)
  | negate (operand : Expr)
  | binary (op : Operator) (left right : Expr)
  | compare (op : Comparison) (left right : Expr)
  | call (name : String) (arguments : List Expr)
  | group (members : List Expr) (repeats : Option Nat)

namespace Expr

instance : Inhabited Expr := ⟨literal 0⟩

/-- Induction on an expression; in a call or a group the statement is known of every member. -/
@[elab_as_elim, induction_eliminator]
theorem induct {motive : Expr → Prop}
    (literal : ∀ n, motive (literal n))
    (roll : ∀ count sides steps, motive count → motive (roll count sides steps))
    (negate : ∀ operand, motive operand → motive (negate operand))
    (binary : ∀ op left right, motive left → motive right → motive (binary op left right))
    (compare : ∀ op left right, motive left → motive right → motive (compare op left right))
    (call : ∀ name arguments, (∀ e ∈ arguments, motive e) → motive (call name arguments))
    (group : ∀ members repeats, (∀ e ∈ members, motive e) → motive (group members repeats))
    (e : Expr) : motive e :=
  @Expr.rec motive (fun es => ∀ e ∈ es, motive e) literal roll negate binary compare call group
    (fun _ h => nomatch h)
    (fun _ _ head tail e h => by
      rcases List.mem_cons.mp h with rfl | h
      · exact head
      · exact tail e h)
    e

/-! ## Trees -/

/-- The sides as the value of a node. -/
def Sides.toValue : Sides → Value
  | faces n => .int n
  | fate => .fate

/-- The tree of a condition: a comparison with a threshold only. -/
def Bound.toNode (bound : Bound) : Node :=
  .make (.comparison bound.op) [] [.integer bound.limit]

namespace Step

/-- The modifier of a step. -/
def modifier : Step → Modifier
  | explode .. => .explode
  | keep .. => .keep
  | drop .. => .drop
  | critical .. => .critical
  | reroll .. => .reroll
  | sort _ => .sort

/-- The attributes that tell the variants of a modifier apart. -/
def attributes : Step → List (String × Value)
  | explode penetrating _ => [("penetrate", if penetrating then "yes" else "no")]
  | keep highest _ => [("type", if highest then "highest" else "lowest")]
  | drop highest _ => [("type", if highest then "highest" else "lowest")]
  | critical success _ => [("type", if success then "success" else "failure")]
  | reroll once _ => [("once", if once then "yes" else "no")]
  | sort descending => [("direction", if descending then "descending" else "ascending")]

/-- The tree of the argument, if there is one. -/
def argument : Step → Option Node
  | explode _ bound | critical _ bound | reroll _ bound => bound.map Bound.toNode
  | keep _ amount | drop _ amount => amount.map fun k : Nat => .integer k
  | sort _ => none

/-- An argument is a bound or an amount. -/
theorem forall_argument {P : Node → Prop} (bound : ∀ b : Bound, P b.toNode)
    (amount : ∀ n : Nat, P (.integer n)) (step : Step) : ∀ node ∈ step.argument, P node := by
  have bounds (given : Option Bound) : ∀ node ∈ given.map Bound.toNode, P node := by
    rintro node h
    obtain ⟨b, -, rfl⟩ := Option.mem_map.mp h
    exact bound b
  have amounts (given : Option Nat) : ∀ node ∈ given.map fun k : Nat => Node.integer k, P node := by
    rintro node h
    obtain ⟨n, -, rfl⟩ := Option.mem_map.mp h
    exact amount n
  -- Each modifier has a condition, an amount, or no argument.
  cases step with
  | explode _ given => exact bounds given
  | keep _ given => exact amounts given
  | drop _ given => exact amounts given
  | critical _ given => exact bounds given
  | reroll _ given => exact bounds given
  | sort _ => exact nofun

/-- The tree of a roll to which the step is applied. -/
def toNode (step : Step) (operand : Node) : Node :=
  .make (.modifier step.modifier) step.attributes (operand :: step.argument.toList)

end Step

/-- The tree of a roll before its modifiers. -/
def plainRoll (count : Node) (sides : Sides) : Node :=
  .make .dice [] [count, .diceSides sides.toValue]

/-- The tree of a roll with modifiers, the first one applied first. -/
def modified (roll : Node) (steps : List Step) : Node :=
  steps.foldl (fun node step => step.toNode node) roll

/-- The attributes of a group. -/
def groupAttributes (repeats : Option Nat) : List (String × Value) :=
  match repeats with
  | none => []
  | some n => [("repeat", .int n)]

mutual

/-- The tree of an expression. -/
def toNode : Expr → Node
  | literal n => .integer n
  | roll count sides steps => modified (plainRoll count.toNode sides) steps
  | negate operand => .make .negate [] [operand.toNode]
  | binary op left right => .make (.operator op) [] [left.toNode, right.toNode]
  | compare op left right => .make (.comparison op) [] [left.toNode, right.toNode]
  | call name arguments => .make .function [("name", .text name)] (toNodes arguments)
  | group members repeats => .make .group (groupAttributes repeats) (toNodes members)

/-- The trees of several expressions. -/
def toNodes : List Expr → List Node
  | [] => []
  | e :: es => e.toNode :: toNodes es

end

/-- The trees of several expressions are those of each of them. -/
@[simp] theorem toNodes_eq_map (es : List Expr) : toNodes es = es.map toNode := by
  induction es with
  | nil => rfl
  | cons e es ih => rw [toNodes, ih, List.map_cons]

@[simp] theorem modified_nil (roll : Node) : modified roll [] = roll := rfl

/-- The last step stands outermost. -/
theorem modified_append (roll : Node) (steps : List Step) (step : Step) :
    modified roll (steps ++ [step]) = step.toNode (modified roll steps) := by
  rw [modified, List.foldl_append]
  rfl

/-! ## An expression can be told from its tree -/

/-- A map with one entry determines the entry. -/
theorem ofList_singleton_inj {key key' : String} {value value' : Value}
    (h : OrderedMap.ofList [(key, value)] = OrderedMap.ofList [(key', value')]) :
    key = key' ∧ value = value' := by
  have : [(key, value)] = [(key', value')] := congrArg OrderedMap.entries h
  rw [List.cons.injEq, Prod.mk.injEq] at this
  exact this.1

/-- A node that was made of kind, attributes and children determines all three. -/
theorem make_inj {kind kind' : NodeKind} {attributes attributes' : List (String × Value)}
    {children children' : List Node}
    (h : Node.make kind attributes children = .make kind' attributes' children') :
    kind = kind' ∧ OrderedMap.ofList attributes = OrderedMap.ofList attributes' ∧
      children = children' := by
  rw [Node.make, Node.make, Node.mk.injEq] at h
  exact h

/-- The tree of an integer determines the integer. -/
theorem integer_inj {m n : Int} (h : Node.integer m = .integer n) : m = n := by
  have := (ofList_singleton_inj (make_inj h).2.1).2
  cases this
  rfl

/-- The value of the sides determines the sides. -/
theorem Sides.toValue_inj {sides sides' : Sides} (h : sides.toValue = sides'.toValue) :
    sides = sides' := by
  cases sides <;> cases sides' <;> cases h <;> rfl

/-- The tree of a condition determines the condition. -/
private theorem Bound.toNode_inj {bound bound' : Bound} (h : bound.toNode = bound'.toNode) :
    bound = bound' := by
  obtain ⟨op, limit⟩ := bound
  obtain ⟨op', limit'⟩ := bound'
  obtain ⟨hop, -, hchildren⟩ := make_inj h
  have hlimit : limit = limit' := Int.ofNat.inj (integer_inj (List.cons.inj hchildren).1)
  cases hop
  rw [hlimit]

/-- A choice between two values tells which one was chosen. -/
theorem flag_inj {x y : Value} (ne : x ≠ y) {p q : Bool}
    (h : (if p then x else y) = if q then x else y) : p = q := by
  cases p <;> cases q
  · rfl
  · exact absurd h.symm ne
  · exact absurd h ne
  · rfl

/-- The tree of an amount determines the amount, and whether there is one. -/
theorem amount_inj {a b : Option Nat}
    (h : a.map (fun k : Nat => Node.integer k) = b.map fun k : Nat => .integer k) : a = b :=
  Option.map_injective (fun _ _ h => Int.ofNat.inj (integer_inj h)) h

/-- The tree of an optional condition determines the condition, and whether there is one. -/
theorem bound_inj {a b : Option Bound} (h : a.map Bound.toNode = b.map Bound.toNode) : a = b :=
  Option.map_injective (fun _ _ => Bound.toNode_inj) h

/-- The tree of a modifier determines the modifier and its operand. -/
private theorem Step.toNode_inj {step step' : Step} {operand operand' : Node}
    (h : step.toNode operand = step'.toNode operand') : step = step' ∧ operand = operand' := by
  obtain ⟨hkind, hattributes, hchildren⟩ := make_inj h
  obtain ⟨hoperand, hargument⟩ := List.cons.inj hchildren
  have hargument : step.argument = step'.argument := by
    have := congrArg List.head? hargument
    rwa [Option.head?_toList, Option.head?_toList] at this
  refine ⟨?_, hoperand⟩
  -- The attribute tells which of two variants the modifier is.
  have flag {key : String} {x y : Value} {p q : Bool} (ne : x ≠ y)
      (h : OrderedMap.ofList [(key, if p then x else y)] =
        OrderedMap.ofList [(key, if q then x else y)]) : p = q :=
    flag_inj ne (ofList_singleton_inj h).2
  -- Modifiers of different kinds make nodes of different kinds.
  cases step <;> cases step' <;> try cases hkind
  case explode.explode => rw [flag (by simp) hattributes, bound_inj hargument]
  case keep.keep => rw [flag (by simp) hattributes, amount_inj hargument]
  case drop.drop => rw [flag (by simp) hattributes, amount_inj hargument]
  case critical.critical => rw [flag (by simp) hattributes, bound_inj hargument]
  case reroll.reroll => rw [flag (by simp) hattributes, bound_inj hargument]
  case sort.sort => rw [flag (by simp) hattributes]

/-- A modified roll is a roll or a modifier. -/
theorem kind_modified (count : Node) (sides : Sides) (steps : List Step) :
    (modified (plainRoll count sides) steps).kind = .dice ∨
      ∃ m, (modified (plainRoll count sides) steps).kind = .modifier m := by
  induction steps using List.reverseRecOn with
  | nil => exact .inl rfl
  | append_singleton steps step _ =>
    rw [modified_append]
    exact .inr ⟨_, rfl⟩

/-- The tree of a modified roll determines its count, its sides and its modifiers in order. -/
theorem modified_inj {count count' : Node} {sides sides' : Sides} {steps steps' : List Step}
    (h : modified (plainRoll count sides) steps = modified (plainRoll count' sides') steps') :
    count = count' ∧ sides = sides' ∧ steps = steps' := by
  -- The last modifier is the root of the tree, so the induction is on the list from its end.
  induction steps using List.reverseRecOn generalizing steps' with
  | nil =>
    obtain rfl | ⟨steps', step', rfl⟩ := steps'.eq_nil_or_concat'
    · obtain ⟨-, -, hchildren⟩ := make_inj h
      obtain ⟨hcount, hchildren⟩ := List.cons.inj hchildren
      have hsides := ofList_singleton_inj (make_inj (List.cons.inj hchildren).1).2.1
      exact ⟨hcount, Sides.toValue_inj hsides.2, rfl⟩
    · rw [modified_append] at h
      cases (make_inj h).1
  | append_singleton steps step ih =>
    obtain rfl | ⟨steps', step', rfl⟩ := steps'.eq_nil_or_concat'
    · rw [modified_append] at h
      cases (make_inj h).1
    · rw [modified_append, modified_append] at h
      obtain ⟨hstep, h⟩ := Step.toNode_inj h
      obtain ⟨hcount, hsides, hsteps⟩ := ih h
      exact ⟨hcount, hsides, by rw [hsteps, hstep]⟩

/-- The attributes of a group determine its repeats. -/
theorem groupAttributes_inj {repeats repeats' : Option Nat}
    (h : OrderedMap.ofList (groupAttributes repeats) =
      OrderedMap.ofList (groupAttributes repeats')) : repeats = repeats' := by
  cases repeats <;> cases repeats'
  · rfl
  · cases congrArg OrderedMap.entries h
  · cases congrArg OrderedMap.entries h
  · have := (ofList_singleton_inj h).2
    cases this
    rfl

/-- The tree of a roll is no tree of another kind. -/
theorem toNode_roll_ne {count : Expr} {sides : Sides} {steps : List Step} {node : Node}
    (kind : node.kind.isRoll = false) : (roll count sides steps).toNode ≠ node := by
  rintro rfl
  rw [toNode] at kind
  rcases kind_modified count.toNode sides steps with h | ⟨m, h⟩ <;> rw [h] at kind <;> cases kind

/-- Two operands that are no different as trees are no different as expressions. -/
theorem operands_inj {left right left' right' : Expr} {kind kind' : NodeKind}
    {attributes attributes' : List (String × Value)}
    (ih : ∀ ⦃e⦄, left.toNode = e.toNode → left = e)
    (ih' : ∀ ⦃e⦄, right.toNode = e.toNode → right = e)
    (h : Node.make kind attributes [left.toNode, right.toNode] =
      Node.make kind' attributes' [left'.toNode, right'.toNode]) :
    kind = kind' ∧ left = left' ∧ right = right' := by
  obtain ⟨same, -, children⟩ := make_inj h
  obtain ⟨first, others⟩ := List.cons.inj children
  exact ⟨same, ih first, ih' (List.cons.inj others).1⟩

/-- Equal lists of trees come from equal lists of members. -/
theorem map_toNode_inj {es : List Expr} (inj : ∀ e ∈ es, ∀ ⦃e'⦄, e.toNode = e'.toNode → e = e')
    {es' : List Expr} (h : es.map toNode = es'.map toNode) : es = es' := by
  induction es generalizing es' with
  | nil => exact (List.map_eq_nil_iff.mp h.symm).symm
  | cons e es ih =>
    obtain _ | ⟨e', es'⟩ := es'
    · cases h
    · obtain ⟨head, tail⟩ := List.cons.inj h
      rw [inj e List.mem_cons_self head, ih (fun e he => inj e (List.mem_cons_of_mem _ he)) tail]

/-- Different expressions have different trees. -/
theorem toNode_injective : Function.Injective toNode := by
  intro e
  -- The second expression is of the kind of the first one: the root says so, or the last modifier.
  induction e with
  | literal n =>
    intro e' h
    cases e' with
    | literal n' =>
      rw [toNode, toNode] at h
      rw [Int.ofNat.inj (integer_inj h)]
    | roll => exact absurd h.symm (toNode_roll_ne rfl)
    | _ => cases (make_inj h).1
  | roll count sides steps ih =>
    intro e' h
    cases e' with
    | roll count' sides' steps' =>
      rw [toNode, toNode] at h
      obtain ⟨hcount, hsides, hsteps⟩ := modified_inj h
      rw [ih hcount, hsides, hsteps]
    | _ => exact absurd h (toNode_roll_ne rfl)
  | negate operand ih =>
    intro e' h
    cases e' with
    | negate operand' =>
      rw [toNode, toNode] at h
      rw [ih (List.cons.inj (make_inj h).2.2).1]
    | roll => exact absurd h.symm (toNode_roll_ne rfl)
    | _ => cases (make_inj h).1
  | binary op left right ih ih' =>
    intro e' h
    cases e' with
    | binary op' left' right' =>
      rw [toNode, toNode] at h
      obtain ⟨⟨⟩, rfl, rfl⟩ := operands_inj ih ih' h
      rfl
    | roll => exact absurd h.symm (toNode_roll_ne rfl)
    | _ => cases (make_inj h).1
  | compare op left right ih ih' =>
    intro e' h
    cases e' with
    | compare op' left' right' =>
      rw [toNode, toNode] at h
      obtain ⟨⟨⟩, rfl, rfl⟩ := operands_inj ih ih' h
      rfl
    | roll => exact absurd h.symm (toNode_roll_ne rfl)
    | _ => cases (make_inj h).1
  | call name arguments ih =>
    intro e' h
    cases e' with
    | call name' arguments' =>
      rw [toNode, toNode, toNodes_eq_map, toNodes_eq_map] at h
      obtain ⟨-, hname, hchildren⟩ := make_inj h
      cases (ofList_singleton_inj hname).2
      rw [map_toNode_inj ih hchildren]
    | roll => exact absurd h.symm (toNode_roll_ne rfl)
    | _ => cases (make_inj h).1
  | group members repeats ih =>
    intro e' h
    cases e' with
    | group members' repeats' =>
      rw [toNode, toNode, toNodes_eq_map, toNodes_eq_map] at h
      obtain ⟨-, hrepeats, hchildren⟩ := make_inj h
      rw [map_toNode_inj ih hchildren, groupAttributes_inj hrepeats]
    | roll => exact absurd h.symm (toNode_roll_ne rfl)
    | _ => cases (make_inj h).1

end Expr

end DiceNotation
