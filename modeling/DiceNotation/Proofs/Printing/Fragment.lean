import DiceNotation.Proofs.Printing.RoundTrip
import DiceNotation.Proofs.Trees.Preorder
import DiceNotation.Proofs.Trees.WellFormed

/-! # Trees that are read back

Whether a rendering is read as the same tree can be told from the tree: no comparison may have
another comparison as its left operand, and none an operand whose text ends with a modifier that
would take the comparison sign for its own condition (`Node.Unambiguous`).

* `endsOpen_toNode`          the end of a rendering is that of the expression's text
* `unambiguous_toNode_iff`   a tree is unambiguous iff its expression has no clash -/

namespace DiceNotation

open DiceNotation.Expr (Sides Bound Step modified plainRoll)

namespace Node

/-- A comparison of two expressions, not a condition. -/
def isComparison (node : Node) : Bool :=
  match node.kind with
  | .comparison _ => node.childCount == 2
  | _ => false

/-- The modifiers that may have a condition. -/
def takesCondition : Modifier → Bool
  | .explode | .reroll | .critical => true
  | _ => false

/-- Whether the text of a tree ends with a modifier that has no condition and may have one.  The
    last thing in the text of an operation is its right operand, unless that stands in
    parentheses. -/
def endsOpen : Node → Bool
  | ⟨.modifier m, _, [_]⟩ => takesCondition m
  | ⟨.negate, _, [operand]⟩ => decide (3 ≤ operand.kind.precedence) && endsOpen operand
  | ⟨.operator op, _, [_, right]⟩ =>
    decide ((if op = .exponent then op.precedence else op.precedence + 1) ≤
      right.kind.precedence) && endsOpen right
  | ⟨.comparison _, _, [_, right]⟩ => decide (2 ≤ right.kind.precedence) && endsOpen right
  | _ => false

/-- If the node is a comparison, its sign is read as its own: the left operand is no comparison,
    and its text does not end with a modifier that could take the sign. -/
def KeepsSign (node : Node) : Prop :=
  node.isComparison = true →
    ∀ left ∈ node.children.head?, left.isComparison = false ∧ left.endsOpen = false

/-- Every comparison sign in the text of the tree is read as the comparison's own. -/
def Unambiguous (root : Node) : Prop := root.Everywhere KeepsSign

end Node

namespace Expr

/-- A roll is no comparison. -/
private theorem isComparison_of_isRoll {node : Node} (h : node.kind.isRoll = true) :
    node.isComparison = false := by
  unfold Node.isComparison
  split
  · next comparison => simp [comparison, NodeKind.isRoll] at h
  · rfl

/-- A tree is a comparison if its expression binds as loosely as one. -/
private theorem isComparison_toNode (e : Expr) : e.toNode.isComparison = decide
    (e.precedence < 2) := by
  cases e with
  | roll count sides steps =>
    exact isComparison_of_isRoll (isRoll_modified count.toNode sides steps)
  | binary op left right => cases op <;> rfl
  | _ => rfl

/-- A modifier ends open in the tree where it does in the expression. -/
private theorem endsOpen_step (step : Step) (operand : Node) :
    (step.toNode operand).endsOpen = step.isOpen := by
  cases step with
  | explode _ bound => cases bound <;> rfl
  | keep _ amount => cases amount <;> rfl
  | drop _ amount => cases amount <;> rfl
  | critical _ bound => cases bound <;> rfl
  | reroll _ bound => cases bound <;> rfl
  | sort _ => rfl

/-- The text of a tree ends like that of its expression. -/
theorem endsOpen_toNode (e : Expr) : e.toNode.endsOpen = e.endsOpen := by
  induction e with
  | roll count sides steps ih =>
    rw [toNode, endsOpen]
    -- Only the last modifier can be open, and it is the outermost one in the tree.
    obtain rfl | ⟨steps, step, rfl⟩ := steps.eq_nil_or_concat'
    · rfl
    · rw [modified_append, endsOpen_step, List.getLast?_concat]
      rfl
  | negate operand ih =>
    rw [toNode, endsOpen, ← ih, ← precedence_toNode]
    rfl
  | binary op left right ih ih' =>
    rw [toNode, endsOpen, ← ih', ← precedence_toNode]
    rfl
  | compare op left right ih ih' =>
    rw [toNode, endsOpen, ← ih', ← precedence_toNode]
    rfl
  | _ => rfl

/-! ## Comparison signs -/

open Node (Everywhere KeepsSign Unambiguous everywhere_iff)

/-- A node that is no comparison has no sign to keep. -/
private theorem unambiguous_iff {node : Node} (plain : node.isComparison = false) :
    node.Unambiguous ↔ ∀ child ∈ node.children, child.Unambiguous := by
  have keeps : node.KeepsSign := by simp [KeepsSign, plain]
  rw [Unambiguous, everywhere_iff]
  exact and_iff_right keeps

/-- An integer is unambiguous. -/
private theorem unambiguous_integer (n : Nat) : (Node.integer n).Unambiguous := by
  rw [unambiguous_iff rfl]
  exact nofun

/-- The argument of a modifier holds no comparison of two expressions: a condition has one child. -/
private theorem unambiguous_argument (step : Step) : ∀ node ∈ step.argument, node.Unambiguous := by
  refine Step.forall_argument (fun bound => ?_) unambiguous_integer step
  rw [unambiguous_iff rfl]
  show ∀ child ∈ [Node.integer bound.limit], child.Unambiguous
  simp [unambiguous_integer]

/-- All comparisons of two expressions in a roll are in its count. -/
private theorem unambiguous_modified (count : Node) (sides : Sides) (steps : List Step) :
    (modified (plainRoll count sides) steps).Unambiguous ↔ count.Unambiguous := by
  -- The last modifier is outermost, so the induction takes the modifiers from behind.
  induction steps using List.reverseRecOn with
  | nil =>
    have leaf : (Node.diceSides sides.toValue).Unambiguous := by
      rw [unambiguous_iff rfl]
      exact nofun
    rw [modified_nil, unambiguous_iff rfl]
    show (∀ child ∈ [count, Node.diceSides sides.toValue], child.Unambiguous) ↔ _
    simp [leaf]
  | append_singleton steps step ih =>
    rw [modified_append, ← ih, unambiguous_iff rfl]
    show (∀ child ∈ modified (plainRoll count sides) steps :: step.argument.toList,
      child.Unambiguous) ↔ _
    rw [List.forall_mem_cons]
    -- The argument of a modifier is a literal or a condition on one and never ambiguous.
    exact and_iff_left fun node h => unambiguous_argument step node (Option.mem_toList.mp h)

/-- Trees of expressions are unambiguous if there is no clash in any of them. -/
private theorem unambiguous_map_toNode_iff {es : List Expr}
    (h : ∀ e ∈ es, (e.toNode.Unambiguous ↔ e.clashes = 0)) :
    (∀ child ∈ es.map toNode, child.Unambiguous) ↔ clashesAll es = 0 := by
  rw [clashesAll_eq_sum, List.sum_eq_zero_iff]
  simpa using forall₂_congr h

/-- A tree is unambiguous if and only if its expression has no clash. -/
theorem unambiguous_toNode_iff (e : Expr) : e.toNode.Unambiguous ↔ e.clashes = 0 := by
  induction e with
  -- Nothing but a comparison can clash, so every other construct hands the question to its parts.
  | literal n => exact iff_of_true (unambiguous_integer n) rfl
  | roll count sides steps ih =>
    rw [toNode, clashes, ← ih]
    exact unambiguous_modified count.toNode sides steps
  | negate operand ih =>
    rw [unambiguous_iff rfl, clashes, ← ih]
    show (∀ child ∈ [operand.toNode], child.Unambiguous) ↔ _
    simp
  | binary op left right ih ih' =>
    rw [unambiguous_iff rfl, clashes, Nat.add_eq_zero_iff, ← ih, ← ih']
    show (∀ child ∈ [left.toNode, right.toNode], child.Unambiguous) ↔ _
    simp
  | compare op left right ih ih' =>
    -- The sign is kept unless there is a clash right here.
    have keeps : (Expr.compare op left right).toNode.KeepsSign ↔
        ¬(left.precedence < 2 ∨ left.endsOpen = true) := by
      show (true = true → ∀ node ∈ some left.toNode,
        node.isComparison = false ∧ node.endsOpen = false) ↔ _
      simp [isComparison_toNode, endsOpen_toNode]
    rw [Unambiguous, everywhere_iff, keeps, clashes, Nat.add_eq_zero_iff, Nat.add_eq_zero_iff,
      ← ih, ← ih']
    show _ ∧ (∀ child ∈ [left.toNode, right.toNode], child.Unambiguous) ↔ _
    simp [and_assoc]
  | call name arguments ih =>
    rw [unambiguous_iff rfl, clashes, ← unambiguous_map_toNode_iff ih, toNode, toNodes_eq_map]
    exact Iff.rfl
  | group members repeats ih =>
    rw [unambiguous_iff rfl, clashes, ← unambiguous_map_toNode_iff ih, toNode, toNodes_eq_map]
    exact Iff.rfl

end Expr

/-- The rendering of an unambiguous tree that was read without a diagnostic is read without a
    diagnostic as the same tree. -/
theorem parse_render_of_unambiguous {text : String} {root : Node}
    (h : parse text = .ok ⟨root, []⟩) (clear : root.Unambiguous) :
    ∃ text', root.render = .ok text' ∧ parse text' = .ok ⟨root, []⟩ := by
  obtain ⟨e, rfl, accepts⟩ := accepts_of_parse h
  have legible : e.Legible := legible_of_accepts accepts
  have noClash : e.clashes = 0 := (Expr.unambiguous_toNode_iff e).mp clear
  exact ⟨_, Expr.render_toNode legible, (parse_text_iff legible).mpr noClash⟩

/-- A text with glued modifiers, a group, a call, signs and a comparison. -/
theorem parse_render_of_unambiguous_glued :
    let e : Expr := .compare .greaterOrEqual
      (.binary .subtract
        (.group [.roll (.binary .add (.literal 1) (.literal 3)) .fate
          [.keep true none, .drop false (some 1), .sort false, .sort true], .negate (.literal 2)]
          (some 3))
        (.call "abs" [.binary .exponent (.literal 2) (.negate (.literal 1))]))
      (.literal 5)
    parse "{(1+3)dFkhdl1sasd, -2}...3 - abs(2**(-1)) >= 5" = .ok ⟨e.toNode, []⟩ ∧
      e.toNode.Unambiguous ∧
      ∃ text', e.toNode.render = .ok text' ∧ parse text' = .ok ⟨e.toNode, []⟩ := by
  intro e
  have read : parse "{(1+3)dFkhdl1sasd, -2}...3 - abs(2**(-1)) >= 5" =
      .ok ⟨e.toNode, []⟩ := rfl
  have clear : e.toNode.Unambiguous := (Expr.unambiguous_toNode_iff e).mpr rfl
  exact ⟨read, clear, parse_render_of_unambiguous read clear⟩

end DiceNotation
