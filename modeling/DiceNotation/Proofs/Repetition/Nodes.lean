import DiceNotation.Proofs.Repetition.Unrolling
import DiceNotation.Proofs.Trees.Rolls

/-! # Twins node by node

For each kind of node there is a lemma that says what twins of this kind come to when they are
computed side by side, given that their children come to the same (`Paired`).

Operators, comparisons and functions keep their children, which are related one by one (`Rebuilt`).
A group copies its members first, and related members have related copies.  Once a roll was
evaluated, nothing is left in it of what its count was computed from: the two sides are equal, and
so are the modifiers that stand on it.

* `mirrors_comparison`   the targets have the same values, and are marked alike
* `mirrors_tested`       modifiers that examine the dice of a roll
* `mirrors_group`        the members of a group, or copies of them
* `mirrors_unrolled`     a group and the same group written out -/

namespace DiceNotation

open Node (IsArgument Twins SameExcept SameValue Unrolls)

/-! ## What twins come to -/

/-- What was a node of this kind on both sides: equal if it is a roll, and with members that have
    equal values if it is a group. -/
structure Node.Matched (kind : NodeKind) (x y : Node) : Prop where
  roll : kind.isRoll = true → x = y
  kinds : kind.isRoll = false → x.kind = kind ∧ y.kind = kind
  members : kind = .group → Aligned (fun _ => SameValue) x.children y.children

/-- Twins were computed: they are related as soon as their value is stored. -/
structure Node.Twins.Computed (before : Node) (after : Node → Node → Prop) (x y : Node) : Prop
    extends Node.Matched before.kind x y where
  related : ∀ value, after (x.set "value" value) (y.set "value" value)

/-- Twins were evaluated: they are related and hold the same value. -/
structure Node.Twins.Evaluated (before : Node) (after : Node → Node → Prop) (value : Value)
    (x y : Node) : Prop extends Node.Matched before.kind x y where
  related : after x y
  left : x.value? = some value
  right : y.value? = some value

/-- Twins whose evaluations mirror each other. -/
structure Paired (n : Nat) (evaluate evaluate' : EvalM Value) (x y : Node)
    (after : Node → Node → Prop) : Prop where
  twins : Twins n x y after
  mirrors : Mirrors x y evaluate evaluate' (Twins.Evaluated x after)

/-- Nodes of the same kind with the same attributes, with `count` children that are related. -/
def Rebuilt (kind : NodeKind) (attributes : OrderedMap Value) (count : Nat)
    (related : Nat → Node → Node → Prop) (x y : Node) : Prop :=
  ∃ xs ys, x = ⟨kind, attributes, xs⟩ ∧ y = ⟨kind, attributes, ys⟩ ∧ xs.length = count ∧
    Aligned related xs ys

section

variable {n : Nat} {evaluate evaluate' : EvalM Value} {x y left left' right right' : Node}
  {kind : NodeKind} {attributes : OrderedMap Value} {related : Nat → Node → Node → Prop}
  {after : Node → Node → Prop}

/-! ## Operators -/

/-- Reading the result as a number keeps two evaluations mirrored. -/
private theorem Mirrors.number {post : Value → Node → Node → Prop}
    (h : Mirrors x y evaluate evaluate' post) :
    Mirrors x y (EvalM.number evaluate) (EvalM.number evaluate') fun _ a b =>
      ∃ value, post value a b := by
  unfold EvalM.number
  apply h.bind
  intro value a b met
  cases value.number? with
  | some n => exact .pure ⟨value, met⟩
  | none => exact .throw

/-- Rounding the result keeps two evaluations mirrored. -/
private theorem Mirrors.rounded {post : Value → Node → Node → Prop}
    (h : Mirrors x y evaluate evaluate' post) :
    Mirrors x y (EvalM.rounded evaluate) (EvalM.rounded evaluate') fun _ a b =>
      ∃ value, post value a b := by
  unfold EvalM.rounded
  apply h.number.bind
  intro a x' y' met
  apply (Mirrors.ofNumber _).mono
  rintro _ _ _ ⟨rfl, rfl⟩
  exact met

/-- Arithmetic on twins is mirrored when the evaluations of both operands are. -/
theorem mirrors_arithmetic (op : Operator)
    (hleft : Paired n evaluate evaluate' left left' (related 0))
    (hright : Paired n evaluate evaluate' right right' (related 1)) :
    Mirrors ⟨kind, attributes, [left, right]⟩ ⟨kind, attributes, [left', right']⟩
      (EvalM.arithmetic op evaluate) (EvalM.arithmetic op evaluate')
      fun _ => Rebuilt kind attributes 2 related := by
  unfold EvalM.arithmetic
  refine Mirrors.requireChildren_bind rfl rfl ?_
  apply (hleft.mirrors.onChild rfl rfl).bind
  rintro v _ _ ⟨c, d, rfl, rfl, first⟩
  apply (hright.mirrors.onChild rfl rfl).bind
  rintro w _ _ ⟨c', d', rfl, rfl, second⟩
  have rebuilt : Rebuilt kind attributes 2 related ⟨kind, attributes, [c, c']⟩
      ⟨kind, attributes, [d, d']⟩ :=
    ⟨_, _, rfl, rfl, rfl, .pair first.related second.related⟩
  -- What is out of bounds is reported, and the value is zero.
  have zero (problem : Problem) :
      Mirrors ⟨kind, attributes, [c, c']⟩ ⟨kind, attributes, [d, d']⟩
        (do EvalM.report problem; return .int 0 : EvalM Value)
        (do EvalM.report problem; return .int 0) fun _ => Rebuilt kind attributes 2 related :=
    (Mirrors.report problem).andThen fun _ => .pure rebuilt
  -- Both runs have the same two values here, so they go the same way.
  split
  · split
    · split
      · exact zero _
      · exact .pure rebuilt
    · exact zero _
    · exact zero _
  · exact .throw

/-- Negating twins is mirrored when the evaluation of the operand is. -/
theorem mirrors_negation (h : Paired n evaluate evaluate' left left' (related 0)) :
    Mirrors ⟨kind, attributes, [left]⟩ ⟨kind, attributes, [left']⟩ (EvalM.negation evaluate)
      (EvalM.negation evaluate') fun _ => Rebuilt kind attributes 1 related := by
  unfold EvalM.negation
  refine Mirrors.requireChildren_bind rfl rfl ?_
  apply (h.mirrors.number.onChild rfl rfl).bind
  rintro a _ _ ⟨c, d, rfl, rfl, value, met⟩
  exact .pure ⟨_, _, rfl, rfl, rfl, .singleton met.related⟩

/-! ## Comparisons -/

/-- On both sides there are targets, and they have the same values. -/
private theorem Node.Twins.Evaluated.targets {value : Value}
    (h : Twins.Evaluated left after value x y) :
    (x.targets? = none ∧ y.targets? = none ∧ x.kind = y.kind) ∨
      ∃ targets targets', x.targets? = some targets ∧ y.targets? = some targets' ∧
        targets.map Node.value? = targets'.map Node.value? := by
  -- A roll is the same node in both trees; other twins are of the same kind.
  cases isRoll : left.kind.isRoll with
  | true =>
    obtain rfl := h.roll isRoll
    cases found : x.targets? with
    | none => exact .inl ⟨rfl, rfl, rfl⟩
    | some targets => exact .inr ⟨targets, targets, rfl, rfl, rfl⟩
  | false =>
    obtain ⟨kind, kind'⟩ := h.kinds isRoll
    right
    by_cases isGroup : left.kind = .group
    · refine ⟨_, _, Node.targets?_of_group (kind.trans isGroup),
        Node.targets?_of_group (kind'.trans isGroup), (h.members isGroup).map_eq ?_⟩
      rintro i a b ⟨value, left, right⟩
      rw [left, right]
    · refine ⟨_, _, Node.targets?_of_single (kind ▸ isRoll) (kind ▸ isGroup),
        Node.targets?_of_single (kind' ▸ isRoll) (kind' ▸ isGroup), ?_⟩
      rw [List.map_singleton, List.map_singleton, h.left, h.right]

/-- The targets are marked on both sides. -/
private theorem Node.Twins.Evaluated.mapTargets {value : Value} (twins : Twins n left right after)
    (h : Twins.Evaluated left after value x y) (c : Condition) :
    after (x.mapTargets c.mark) (y.mapTargets c.mark) := by
  cases isRoll : left.kind.isRoll with
  | true =>
    -- A roll is equal on both sides, and so is what it is marked to.
    obtain rfl := h.roll isRoll
    refine twins.refl ?_ _
    intro isGroup
    rw [isGroup] at isRoll
    cases isRoll
  | false =>
    obtain ⟨kind, kind'⟩ := h.kinds isRoll
    by_cases isGroup : left.kind = .group
    · rw [Node.mapTargets_of_group (kind.trans isGroup),
        Node.mapTargets_of_group (kind'.trans isGroup)]
      exact twins.markMembers h.related h.left c (h.members isGroup)
    · rw [Node.mapTargets_of_single (kind ▸ isRoll) (kind ▸ isGroup),
        Node.mapTargets_of_single (kind' ▸ isRoll) (kind' ▸ isGroup)]
      exact twins.mark h.related h.left h.right c

/-- Finding the condition of a comparison is mirrored when the evaluation of its right side is. -/
private theorem mirrors_condition {op : Comparison} {post : Value → Node → Node → Prop}
    (h : Mirrors right right' evaluate evaluate' post) :
    Mirrors ⟨.comparison op, attributes, [left, right]⟩
      ⟨.comparison op, attributes, [left', right']⟩ (EvalM.condition evaluate)
      (EvalM.condition evaluate') fun _ x y => ∃ value c d,
        x = ⟨.comparison op, attributes, [left, c]⟩ ∧
          y = ⟨.comparison op, attributes, [left', d]⟩ ∧ post value c d := by
  unfold EvalM.condition
  apply Mirrors.node_bind
  apply (h.onChild (i := 1) rfl rfl).bind
  rintro value _ _ ⟨c, d, rfl, rfl, met⟩
  exact .pure ⟨value, c, d, rfl, rfl, met⟩

/-- Testing targets depends on their values alone. -/
private theorem mirrors_requireTestable (c : Condition) {targets targets' : List Node}
    (same : targets.map Node.value? = targets'.map Node.value?) :
    Mirrors x y (EvalM.requireTestable c targets) (EvalM.requireTestable c targets')
      (Unmoved x y) := by
  -- Only the values of the targets are looked at.
  have tested (nodes : List Node) :
      (nodes.all fun node => c.admits node.value?) = (nodes.map Node.value?).all c.admits := by
    rw [List.all_map]
    rfl
  unfold EvalM.requireTestable
  rw [tested, tested, same]
  split
  · exact .pure ⟨rfl, rfl⟩
  · exact .throw

/-- Comparing twins is mirrored when the evaluations of both sides are. -/
theorem mirrors_comparison {op : Comparison}
    (hleft : Paired n evaluate evaluate' left left' (related 0))
    (hright : Paired n evaluate evaluate' right right' (related 1)) :
    Mirrors ⟨.comparison op, attributes, [left, right]⟩
      ⟨.comparison op, attributes, [left', right']⟩ (EvalM.comparison evaluate)
      (EvalM.comparison evaluate') fun _ => Rebuilt (.comparison op) attributes 2 related := by
  unfold EvalM.comparison
  apply Mirrors.childCount_bind
  simp only [Node.childCount, List.length_cons, List.length_nil, Nat.reduceAdd,
    OfNat.ofNat_ne_one, if_false]
  refine Mirrors.requireChildren_bind rfl rfl ?_
  apply (hleft.mirrors.onChild rfl rfl).bind
  rintro v _ _ ⟨c, d, rfl, rfl, first⟩
  refine Mirrors.onChild_node_bind rfl rfl ?_
  -- The evaluated left sides have targets with the same values, or none at all.
  rcases first.targets with ⟨none, none', kind⟩ | ⟨targets, targets', found, found', same⟩
  · rw [none, none', kind]
    exact .throw
  · rw [found, found']
    cases targets with
    | nil =>
      obtain rfl : targets' = [] := List.map_eq_nil_iff.mp same.symm
      -- The threshold is left as it was written.
      exact .pure ⟨_, _, rfl, rfl, rfl, .pair first.related hright.twins.before⟩
    | cons target targets =>
      cases targets' with
      | nil => cases same
      | cons target' targets' =>
        dsimp only
        apply (mirrors_condition hright.mirrors).bind
        rintro t _ _ ⟨w, e, f, rfl, rfl, second⟩
        apply (mirrors_requireTestable t same).andThen
        intro _
        -- Marking keeps the left sides related, because it does the same on both of them.
        have marked : Mirrors c d (EvalM.modifyNode (Node.mapTargets t.mark))
            (EvalM.modifyNode (Node.mapTargets t.mark)) fun _ => related 0 :=
          .modifyNode (first.mapTargets hleft.twins t)
        apply (marked.onChild rfl rfl).bind
        rintro _ _ _ ⟨c', d', rfl, rfl, first'⟩
        have counted (nodes : List Node) : (nodes.countP fun target => t.holds target.value?) =
            (nodes.map Node.value?).countP t.holds := by
          rw [List.countP_map]
          rfl
        rw [counted, counted, same]
        exact .pure ⟨_, _, rfl, rfl, rfl, .pair first' second.related⟩

/-! ## Functions -/

/-- A function that is always there is applied to a number, and leaves its node alone. -/
private theorem mirrors_default {name : String} {f : DiceFunction}
    (known : FunctionTable.default.get? name = some f) : ∃ label g, f = .ofNumber label g ∧
      ∀ number x y, Mirrors x y (g number) (g number) (Unmoved x y) := by
  have integer (g : Number → Except NumberError Int) (number : Number) (x y : Node) :
      Mirrors x y (do return Number.int (← EvalM.ofNumber (g number)))
        (do return Number.int (← EvalM.ofNumber (g number))) (Unmoved x y) :=
    (Mirrors.ofNumber _).andThen fun _ => .pure ⟨rfl, rfl⟩
  have root (number : Number) (x y : Node) : Mirrors x y (DiceFunction.squareRoot number)
      (DiceFunction.squareRoot number) (Unmoved x y) := by
    unfold DiceFunction.squareRoot
    split
    · exact (Mirrors.report _).andThen fun _ => .pure ⟨rfl, rfl⟩
    · exact .ofNumber _
  -- Four of them only compute; the square root may report a problem.
  apply FunctionTable.of_default known
  case abs => exact ⟨_, _, rfl, fun _ _ _ => .pure ⟨rfl, rfl⟩⟩
  case ceil => exact ⟨_, _, rfl, integer Number.ceil⟩
  case floor => exact ⟨_, _, rfl, integer Number.floor⟩
  case round => exact ⟨_, _, rfl, integer Number.roundHalfUp⟩
  case sqrt => exact ⟨_, _, rfl, root⟩

section

variable {xs ys : List Node}
  (h : Aligned (fun i c d => Paired n evaluate evaluate' c d (related i)) xs ys)
include h

/-- With another number of arguments than one, the arguments are left as they were written. -/
private theorem mirrors_singleArgument :
    Mirrors ⟨.function, attributes, xs⟩ ⟨.function, attributes, ys⟩
      (DiceFunction.singleArgument evaluate) (DiceFunction.singleArgument evaluate')
      fun _ => Rebuilt .function attributes xs.length related := by
  unfold DiceFunction.singleArgument
  apply Mirrors.node_bind
  have count (zs : List Node) : Node.childCount ⟨.function, attributes, zs⟩ = zs.length := rfl
  have name (zs : List Node) :
      Node.get? ⟨.function, attributes, zs⟩ "name" = attributes.get? "name" := rfl
  rw [count, count, name, name, ← h.1]
  -- With another number of arguments, none is evaluated and the same problem is reported.
  by_cases single : xs.length = 1
  · obtain ⟨argument, rfl⟩ := List.length_eq_one_iff.mp single
    obtain ⟨argument', rfl, paired⟩ := h.exists_singleton
    simp only [single, ne_eq, not_true_eq_false, if_false]
    apply (paired.mirrors.number.onChild rfl rfl).bind
    rintro a _ _ ⟨c, d, rfl, rfl, value, met⟩
    exact .pure ⟨_, _, rfl, rfl, rfl, .singleton met.related⟩
  · simp only [ne_eq, single, not_false_eq_true, if_true]
    apply (Mirrors.report _).andThen
    intro _
    exact .pure ⟨xs, ys, rfl, rfl, rfl, h.mono fun _ _ _ _ _ paired => paired.twins.before⟩

/-- Calling a function on twins is mirrored when the evaluation of every argument is. -/
theorem mirrors_function :
    Mirrors ⟨.function, attributes, xs⟩ ⟨.function, attributes, ys⟩
      (EvalM.function .default evaluate) (EvalM.function .default evaluate')
      fun _ => Rebuilt .function attributes xs.length related := by
  unfold EvalM.function
  apply Mirrors.node_bind
  -- The name is an attribute and does not depend on the arguments.
  have name (zs : List Node) :
      Node.get? ⟨.function, attributes, zs⟩ "name" = attributes.get? "name" := rfl
  rw [name, name]
  dsimp only
  split
  · exact .throw
  · next f known =>
    split at known
    · obtain ⟨label, g, rfl, alone⟩ := mirrors_default known
      unfold DiceFunction.ofNumber
      apply (mirrors_singleArgument h).bind
      intro argument a b rebuilt
      cases argument with
      | none => exact .pure rebuilt
      | some number => exact (alone number a b).andThen fun _ => .pure rebuilt
    · cases known

end

/-! ## Rolls and modifiers -/

/-- The sides are the same on both sides, so the same dice are rolled. -/
private theorem mirrors_rollSides (sides : Node) :
    Mirrors ⟨kind, attributes, [left, sides]⟩ ⟨kind, attributes, [left', sides]⟩ EvalM.rollSides
      EvalM.rollSides
      (Unmoved ⟨kind, attributes, [left, sides]⟩ ⟨kind, attributes, [left', sides]⟩) := by
  unfold EvalM.rollSides
  apply Mirrors.node_bind
  dsimp only [List.getElem?_cons_succ, List.getElem?_cons_zero]
  split
  · next value _ _ =>
    split
    · exact .pure ⟨rfl, rfl⟩
    · -- The sides hold a number on both sides, which is rounded alike.
      have stored {x y : Node} : Mirrors x y (pure value) (pure value) (Unmoved x y) :=
        .pure ⟨rfl, rfl⟩
      apply stored.rounded.bind
      rintro size _ _ ⟨_, rfl, rfl⟩
      exact .pure ⟨rfl, rfl⟩
  · exact .throw

/-- Of what the count was computed from, only its value is left. -/
theorem mirrors_roll (rules : Rules) (h : Paired n evaluate evaluate' left left' after)
    (sides : Node) :
    Mirrors ⟨.dice, attributes, [left, sides]⟩ ⟨.dice, attributes, [left', sides]⟩
      (EvalM.roll rules evaluate) (EvalM.roll rules evaluate') Merged := by
  unfold EvalM.roll
  refine Mirrors.requireChildren_bind rfl rfl ?_
  apply (h.mirrors.rounded.onChild rfl rfl).bind
  rintro count _ _ ⟨c, d, rfl, rfl, -⟩
  apply (mirrors_rollSides sides).andThen
  intro sides'
  apply Mirrors.modifyNode_bind
  exact .refl _ _

section

variable {m : Modifier} {argument : List Node}

/-- The dice under a modifier are the same on both sides once the operand was evaluated. -/
private theorem mirrors_operandDice (h : Paired n evaluate evaluate' left left' after)
    (isRoll : left.kind.isRoll = true) :
    Mirrors ⟨kind, attributes, left :: argument⟩ ⟨kind, attributes, left' :: argument⟩
      (EvalM.operandDice evaluate) (EvalM.operandDice evaluate') fun _ x y =>
        ∃ operand, x = ⟨kind, attributes, operand :: argument⟩ ∧ y = x := by
  unfold EvalM.operandDice
  have inner : Mirrors left left' (do let _ ← evaluate; EvalM.onDice EvalM.node)
      (do let _ ← evaluate'; EvalM.onDice EvalM.node) Merged := by
    apply h.mirrors.bind
    intro _ x y evaluated
    obtain rfl := evaluated.roll isRoll
    exact .refl _ _
  apply (inner.onChild rfl rfl).mono
  rintro _ _ _ ⟨c, d, rfl, rfl, rfl⟩
  exact ⟨c, rfl, rfl⟩

/-- Reading the faces of dice mirrors itself and leaves the nodes. -/
private theorem mirrors_facesOf (dice : Node) :
    Mirrors x y (EvalM.facesOf dice) (EvalM.facesOf dice) (Unmoved x y) := by
  unfold EvalM.facesOf
  split
  · exact .throw
  · apply (Mirrors.ofNumber _).andThen
    intro faces
    cases faces with
    | none => exact .throw
    | some faces => exact .pure ⟨rfl, rfl⟩

/-- A stored value is read on both sides. -/
private theorem mirrors_stored (remembers : Remembers evaluate) (remembers' : Remembers evaluate')
    {value : Value} (stored : x.value? = some value) :
    Mirrors x x evaluate evaluate' Merged := by
  constructor
  intro record
  rw [remembers x value record stored, remembers' x value record stored]
  exact .ok rfl

section

variable (remembers : Remembers evaluate) (remembers' : Remembers evaluate')
  (hargument : IsArgument m argument)
include remembers remembers' hargument

/-- The argument of a modifier is the same on both sides, so the condition found in it is. -/
private theorem mirrors_modifierCondition (operand : Node) (default : Condition)
    (examined : List Node) :
    Mirrors ⟨kind, attributes, operand :: argument⟩ ⟨kind, attributes, operand :: argument⟩
      (EvalM.modifierCondition evaluate default examined)
      (EvalM.modifierCondition evaluate' default examined) Merged := by
  unfold EvalM.modifierCondition
  apply Mirrors.childCount_bind
  have stated : ∀ node, (operand :: argument)[1]? = some node →
      Mirrors node node (EvalM.condition evaluate) (EvalM.condition evaluate') Merged := by
    intro node hnode
    cases hargument with
    | none => cases hnode
    | amount _ literal =>
      cases hnode
      obtain ⟨k, -⟩ := literal
      -- A number is no condition.
      unfold EvalM.condition
      apply Mirrors.node_bind
      exact .throw
    | @condition op others limit _ _ literal =>
      cases hnode
      obtain ⟨k, stored⟩ := literal.value?
      unfold EvalM.condition
      apply Mirrors.node_bind
      -- The threshold has its value from the parser.
      have threshold : ∀ c, [limit][0]? = some c → Mirrors c c evaluate evaluate' Merged := by
        rintro _ ⟨⟩
        exact mirrors_stored remembers remembers' stored
      apply (Mirrors.onChild_self threshold).bind
      rintro value x _ rfl
      exact .refl _ _
  split
  · exact .refl _ _
  · apply (Mirrors.onChild_self stated).bind
    rintro c x _ rfl
    exact .refl _ _

/-- The number of dice to keep or to drop is read on both sides. -/
private theorem mirrors_amount (ranks : m = .keep ∨ m = .drop) (operand : Node) :
    Mirrors ⟨kind, attributes, operand :: argument⟩ ⟨kind, attributes, operand :: argument⟩
      (EvalM.onChild 1 (EvalM.rounded evaluate)) (EvalM.onChild 1 (EvalM.rounded evaluate'))
      Merged := by
  apply Mirrors.onChild_self
  intro node hnode
  cases hargument with
  | none => cases hnode
  | amount _ literal =>
    cases hnode
    obtain ⟨k, stored⟩ := literal.value?
    apply (mirrors_stored remembers remembers' stored).rounded.mono
    rintro amount x _ ⟨_, rfl⟩
    rfl
  | condition tests _ _ => rcases ranks with rfl | rfl <;> simp at tests

end

/-! The modifiers, which work on one tree as soon as the roll below them was evaluated. -/

variable (rules : Rules) (remembers : Remembers evaluate) (remembers' : Remembers evaluate')
  (h : Paired n evaluate evaluate' left left' after) (isRoll : left.kind.isRoll = true)
include remembers remembers' h isRoll

/-- Explosions, rerolls and critical marks begin alike: the roll is found, its faces are known, and
    the condition is read.  From there on, the two sides are equal. -/
theorem mirrors_tested (hargument : IsArgument m argument)
    {default : Node → Value × Faces → Node → Condition} {examined : Node → List Node}
    {next : Node → Value × Faces → Node → Condition → EvalM Value} :
    Mirrors ⟨kind, attributes, left :: argument⟩ ⟨kind, attributes, left' :: argument⟩
      (do
        EvalM.requireChildrenUpTo 2
        let dice ← EvalM.operandDice evaluate
        let known ← EvalM.facesOf dice
        let node ← EvalM.node
        let c ← EvalM.modifierCondition evaluate (default dice known node) (examined dice)
        next dice known node c)
      (do
        EvalM.requireChildrenUpTo 2
        let dice ← EvalM.operandDice evaluate'
        let known ← EvalM.facesOf dice
        let node ← EvalM.node
        let c ← EvalM.modifierCondition evaluate' (default dice known node) (examined dice)
        next dice known node c) Merged := by
  refine Mirrors.requireChildrenUpTo_bind rfl rfl ?_
  apply (mirrors_operandDice h isRoll).bind
  rintro dice _ _ ⟨operand, rfl, rfl⟩
  apply (mirrors_facesOf dice).andThen
  intro known
  apply Mirrors.node_bind
  apply (mirrors_modifierCondition remembers remembers' hargument _ _ _).bind
  rintro c x _ rfl
  exact .refl _ _

/-- Explosions of twins leave equal nodes. -/
private theorem mirrors_explode (hargument : IsArgument .explode argument) :
    Mirrors ⟨kind, attributes, left :: argument⟩ ⟨kind, attributes, left' :: argument⟩
      (EvalM.explode rules evaluate) (EvalM.explode rules evaluate') Merged := by
  unfold EvalM.explode
  exact mirrors_tested remembers remembers' h isRoll hargument

/-- Rerolls of twins leave equal nodes. -/
private theorem mirrors_reroll (hargument : IsArgument .reroll argument) :
    Mirrors ⟨kind, attributes, left :: argument⟩ ⟨kind, attributes, left' :: argument⟩
      (EvalM.reroll rules evaluate) (EvalM.reroll rules evaluate') Merged := by
  unfold EvalM.reroll
  exact mirrors_tested remembers remembers' h isRoll hargument

/-- Critical marks on twins leave equal nodes. -/
private theorem mirrors_critical (hargument : IsArgument .critical argument) :
    Mirrors ⟨kind, attributes, left :: argument⟩ ⟨kind, attributes, left' :: argument⟩
      (EvalM.critical evaluate) (EvalM.critical evaluate') Merged := by
  unfold EvalM.critical
  exact mirrors_tested remembers remembers' h isRoll hargument

/-- Keeping or dropping among twins leaves equal nodes. -/
private theorem mirrors_select (keep : Bool)
    (hargument : IsArgument (if keep then .keep else .drop) argument) :
    Mirrors ⟨kind, attributes, left :: argument⟩ ⟨kind, attributes, left' :: argument⟩
      (EvalM.select keep evaluate) (EvalM.select keep evaluate') Merged := by
  unfold EvalM.select
  refine Mirrors.requireChildrenUpTo_bind rfl rfl ?_
  apply (mirrors_operandDice h isRoll).bind
  rintro dice _ _ ⟨operand, rfl, rfl⟩
  apply Mirrors.childCount_bind
  -- Keeping and dropping both take a number of dice as their argument.
  have ranks : (if keep then Modifier.keep else .drop) = .keep ∨
      (if keep then Modifier.keep else .drop) = .drop := by
    cases keep <;> simp
  dsimp only
  split
  · exact .refl _ _
  · apply (mirrors_amount remembers remembers' hargument ranks operand).bind
    rintro amount x _ rfl
    exact .refl _ _

omit remembers remembers' in
/-- Sorting twins leaves equal nodes. -/
private theorem mirrors_sort :
    Mirrors ⟨kind, attributes, left :: argument⟩ ⟨kind, attributes, left' :: argument⟩
      (EvalM.sort evaluate) (EvalM.sort evaluate') Merged := by
  unfold EvalM.sort
  refine Mirrors.requireChildrenUpTo_bind rfl rfl ?_
  apply (mirrors_operandDice h isRoll).bind
  rintro dice _ _ ⟨operand, rfl, rfl⟩
  exact .refl _ _

/-- Any modifier on twins leaves equal nodes. -/
theorem mirrors_modifier (hargument : IsArgument m argument) :
    Mirrors ⟨kind, attributes, left :: argument⟩ ⟨kind, attributes, left' :: argument⟩
      (EvalM.modifier rules evaluate m) (EvalM.modifier rules evaluate' m) Merged := by
  cases m with
  | explode => exact mirrors_explode rules remembers remembers' h isRoll hargument
  | keep => exact mirrors_select remembers remembers' h isRoll true hargument
  | drop => exact mirrors_select remembers remembers' h isRoll false hargument
  | critical => exact mirrors_critical remembers remembers' h isRoll hargument
  | reroll => exact mirrors_reroll rules remembers remembers' h isRoll hargument
  | sort => exact mirrors_sort h isRoll

end

/-! ## Groups -/

section

variable {limits : Limits} {xs ys : List Node}

/-- Lists of members that are related one by one are copied in the same way. -/
private theorem mirrors_expandGroup {pre : Nat → Node → Node → Prop} (h : Aligned pre xs ys) :
    Mirrors ⟨.group, attributes, xs⟩ ⟨.group, attributes, ys⟩ (EvalM.expandGroup limits)
      (EvalM.expandGroup limits) fun _ x y => ∃ attributes' xs' ys',
        x = ⟨.group, attributes', xs'⟩ ∧ y = ⟨.group, attributes', ys'⟩ ∧
          Aligned (fun i => pre (i % xs.length)) xs' ys' := by
  unfold EvalM.expandGroup
  apply Mirrors.node_bind
  have given (zs : List Node) :
      Node.get? ⟨.group, attributes, zs⟩ "repeat" = attributes.get? "repeat" := rfl
  rw [given, given]
  cases attributes.get? "repeat" with
  | none => exact .pure ⟨attributes, xs, ys, rfl, rfl, h.mod (Nat.le_refl _)⟩
  | some repeats =>
    apply Mirrors.modifyNode_bind
    -- The number of repetitions is an attribute, so the two groups are expanded alike.
    cases repeats.number? with
    | none => exact .throw
    | some times =>
      dsimp only
      split
      · apply (Mirrors.note _).andThen
        intro _
        apply (Mirrors.report _).andThen
        intro _
        apply Mirrors.modifyNode
        exact ⟨_, [], [], rfl, rfl, .nil⟩
      · -- The members are copied on both sides.
        apply Mirrors.modifyNode_bind
        apply (Mirrors.ofNumber _).andThen
        intro count
        apply Mirrors.modifyNode
        exact ⟨_, _, _, rfl, rfl, h.replicate count.toNat⟩

/-- The members are evaluated in turn, and their values are added up. -/
private theorem mirrors_sumMembers
    (h : Aligned (fun i c d => Mirrors c d evaluate evaluate' (Twins.Evaluated c (related i)))
      x.children y.children) :
    Mirrors x y
      (EvalM.foldChildren (fun acc => do EvalM.ofNumber (acc.add (← EvalM.number evaluate)))
        (Number.int 0))
      (EvalM.foldChildren (fun acc => do EvalM.ofNumber (acc.add (← EvalM.number evaluate')))
        (Number.int 0))
      fun _ x' y' => ∃ xs ys, x' = x.withChildren xs ∧ y' = y.withChildren ys ∧
        Aligned (fun i c d => related i c d ∧ SameValue c d) xs ys := by
  apply Mirrors.foldChildren
  apply h.mono
  intro i c d _ _ member acc
  apply member.number.bind
  rintro a c' d' ⟨value, met⟩
  apply (Mirrors.ofNumber _).mono
  rintro _ _ _ ⟨rfl, rfl⟩
  exact ⟨met.related, value, met.left, met.right⟩

/-- Groups of paired members are evaluated alike and leave paired members. -/
theorem mirrors_group
    (h : Aligned (fun i c d => Paired n evaluate evaluate' c d (related i)) xs ys) :
    Mirrors ⟨.group, attributes, xs⟩ ⟨.group, attributes, ys⟩ (EvalM.group limits evaluate)
      (EvalM.group limits evaluate') fun _ x y => ∃ attributes' xs' ys',
        x = ⟨.group, attributes', xs'⟩ ∧ y = ⟨.group, attributes', ys'⟩ ∧
          Aligned (fun i c d => related (i % xs.length) c d ∧ SameValue c d) xs' ys' := by
  unfold EvalM.group
  apply (mirrors_expandGroup h).bind
  rintro _ _ _ ⟨attributes', copies, copies', rfl, rfl, paired⟩
  have members := paired.mono fun i c d _ _ pair => pair.mirrors
  apply (mirrors_sumMembers (x := ⟨.group, attributes', copies⟩)
    (y := ⟨.group, attributes', copies'⟩) members).bind
  rintro sum _ _ ⟨xs', ys', rfl, rfl, evaluated⟩
  exact .pure ⟨attributes', xs', ys', rfl, rfl, evaluated⟩

/-- A group that repeats its members is expanded to what the group that is written out is. -/
private theorem run_expandGroup {group : Node} (repeats : group.Repeats n)
    (within : ∀ limit ∈ limits.maxRolls, n ≤ limit) (record : Record) :
    EvalM.expandGroup limits ⟨group, record⟩ =
      .ok () ⟨(group.unrolled n).set "repeated" (.int n), record⟩ := by
  -- The limit on rolls is not exceeded.
  have allowed : limits.maxRolls.filter (fun limit : Nat =>
      (Number.int limit).lt (.int n)) = none := by
    rw [Option.filter_eq_none_iff]
    intro limit hlimit above
    rw [Number.lt_int, decide_eq_true_eq] at above
    have := within limit hlimit
    omega
  unfold EvalM.expandGroup
  rw [EvalM.run_node_bind, repeats.times]
  simp only [Value.number?, allowed]
  rfl

/-- A group without repeats is not expanded. -/
private theorem run_expandGroup_once {group : Node} (once : group.get? "repeat" = none)
    (record : Record) : EvalM.expandGroup limits ⟨group, record⟩ = .ok () ⟨group, record⟩ := by
  unfold EvalM.expandGroup
  rw [EvalM.run_node_bind, once]
  rfl

/-- Of a group that is written out, the same members are evaluated. -/
theorem mirrors_unrolled {group : Node} (repeats : group.Repeats n)
    (within : ∀ limit ∈ limits.maxRolls, n ≤ limit)
    (h : ∀ member ∈ (group.unrolled n).children, Mirrors member member evaluate evaluate'
      (Twins.Evaluated member Eq)) :
    Mirrors group (group.unrolled n) (EvalM.group limits evaluate)
      (EvalM.group limits evaluate') fun _ => Twins.Computed group (SameExcept n [] group) := by
  unfold EvalM.group
  -- The one group is copied where the other one has its members written out.
  have expanded : Mirrors group (group.unrolled n) (EvalM.expandGroup limits)
      (EvalM.expandGroup limits) fun _ x y =>
        x = (group.unrolled n).set "repeated" (.int n) ∧ y = group.unrolled n := by
    constructor
    intro record
    rw [run_expandGroup repeats within, run_expandGroup_once Node.get?_repeat_unrolled]
    exact .ok ⟨rfl, rfl⟩
  apply expanded.bind
  rintro _ _ _ ⟨rfl, rfl⟩
  have members : Aligned (fun _ c d => Mirrors c d evaluate evaluate' (Twins.Evaluated c Eq))
      ((group.unrolled n).set "repeated" (.int n)).children (group.unrolled n).children :=
    .refl fun i member hmember => h member (List.mem_of_getElem? hmember)
  apply (mirrors_sumMembers members).bind
  rintro sum _ _ ⟨xs, ys, rfl, rfl, evaluated⟩
  -- The members were equal before, and so they are equal afterwards.
  obtain rfl : xs = ys := (evaluated.mono fun _ _ _ _ _ both => both.1).eq
  have unrolls : Unrolls n group (((group.unrolled n).set "repeated" (.int n)).withChildren xs)
      ((group.unrolled n).withChildren xs) := by
    refine Unrolls.withChildren ⟨?_, ?_, Node.unset_set_self _ _⟩ xs
    · rw [Node.get?_set, if_pos rfl]
    · exact Node.get?_unrolled (by decide)
  apply Mirrors.pure
  refine ⟨⟨fun isRoll => ?_, fun _ => ⟨rfl, rfl⟩, fun _ => ?_⟩, fun value => ?_⟩
  · rw [repeats.kind] at isRoll
    cases isRoll
  · exact evaluated.mono fun _ _ _ _ _ both => both.2
  · exact .inr (unrolls.set value (by decide))

end

end

end DiceNotation
