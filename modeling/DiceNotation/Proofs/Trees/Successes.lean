import DiceNotation.Proofs.Trees.Targets
import DiceNotation.Proofs.Trees.Visits

/-! # Successes and failures

Successes and failures are counted by walking through the whole tree, without looking at the tests
that they come from.  Still every test finds its targets unmarked and marks each of them once, and
no mark is lost or copied later: so as many nodes are marked as successes as the values of all tests
add up to, and every other target is marked as a failure (`imbalance`).

A test changes nodes that were evaluated before.  These are the root of the left side, the members
of a group or the dice of a roll, so of each part of the tree it is said that these are not marked.

* `Expands.accounted`      by induction on how the tree was expanded
* `interpret_successes`    parsed texts -/

namespace DiceNotation

open Node (Everywhere Written StandsOn CountsAlone everywhere_iff)

namespace Node

/-- No comparison has marked the node. -/
def Unmarked (node : Node) : Prop := node.get? "success" = none

/-- The value of a test: how many targets passed. -/
def passed (test : Node) : Int :=
  match test.value? with
  | some (.number (.int n)) => n
  | _ => 0

/-- How many targets of a test passed, or how many failed. -/
def outcomes (passing : Bool) (test : Node) : Int :=
  if passing then test.passed else test.tested.length - test.passed

/-- Whether the node is marked as one that passed, or as one that failed. -/
def isMarked (passing : Bool) (node : Node) : Bool :=
  node.hasText "success" (if passing then "yes" else "no")

/-- What the node adds to the marks of one kind, less what tests say that there are. -/
def imbalance (passing : Bool) (node : Node) : Int :=
  (if node.isMarked passing then 1 else 0) - if node.isTest then node.outcomes passing else 0

variable {node roll : Node} {passing : Bool}

/-- An unmarked node has neither mark. -/
theorem Unmarked.isMarked (h : node.Unmarked) (passing : Bool) : node.isMarked passing = false := by
  unfold Node.isMarked hasText
  rw [show node.get? "success" = none from h]
  rfl

/-- Another attribute than the mark leaves the node unmarked. -/
private theorem Unmarked.set {key : String} (h : node.Unmarked) (value : Value)
    (other : key ≠ "success") : (node.set key value).Unmarked := by
  unfold Unmarked at h ⊢
  rw [get?_set, if_neg (Ne.symm other), h]

/-- Storing a value leaves the node unmarked. -/
private theorem Unmarked.store (h : node.Unmarked) (n : Number) : (node.store n).Unmarked :=
  h.set _ (by decide)

/-- Only a comparison is a test. -/
private theorem isTest_of_kind (plain : ∀ op, node.kind ≠ .comparison op) :
    node.isTest = false := by
  rw [← Bool.not_eq_true, isTest_iff]
  rintro ⟨op, _, _, _, kind, -⟩
  exact plain op kind

/-- The imbalance of a node depends on the nodes below it in a comparison only. -/
private theorem countsAlone_imbalance (passing : Bool) : CountsAlone (imbalance passing) := by
  intro kind attributes children children' plain
  unfold imbalance
  rw [isTest_of_kind plain, isTest_of_kind plain]
  rfl

/-- An unmarked node that is no test adds nothing. -/
theorem Unmarked.imbalance (h : node.Unmarked) (plain : node.isTest = false) :
    node.imbalance passing = 0 := by
  simp [Node.imbalance, h.isMarked, plain]

/-- A target that was not marked is marked as a success or as a failure. -/
private theorem Unmarked.imbalance_mark (h : node.Unmarked) (c : Condition) :
    (c.mark node).imbalance passing - node.imbalance passing =
      if c.holds node.value? = passing then 1 else 0 := by
  -- A mark changes neither the value nor the children, so it does not make a test.
  have same : (c.mark node).isTest = node.isTest := by
    unfold isTest
    rw [value?_mark]
    rfl
  have outcome : (c.mark node).outcomes passing = node.outcomes passing := by
    unfold outcomes passed
    rw [value?_mark]
    rfl
  have marked : (c.mark node).isMarked passing = (c.holds node.value? == passing) := by
    unfold Node.isMarked Condition.mark hasText
    rw [get?_set, if_pos rfl]
    cases c.holds node.value? <;> cases passing <;> rfl
  unfold Node.imbalance
  rw [same, outcome, marked, h.isMarked]
  simp

end Node

/-! ## Nodes and parts of an expanded tree -/

/-- The test is what the evaluation of a comparison has left, which was made in the course of the
    evaluation `whole`. -/
def Node.TestedOnce (limits : Limits) (source : Source) (whole : Visit) (test : Node) : Prop :=
  ∃ (op : Comparison) (left right : Node) (visit : Visit), test.kind = .comparison op ∧
    test.children = [left, right] ∧ test.value? = some (.number visit.value) ∧
      visit.Within limits source whole ∧ visit.Tests limits source op left right

/-- Dice that are dropped are not marked, and every test was made once in the evaluation `whole`. -/
structure Node.Settled (limits : Limits) (source : Source) (whole : Visit) (node : Node) :
    Prop where
  dropped : node.kind = .diceRoll → node.isDropped = true → node.Unmarked
  tested : node.isTest = true → node.TestedOnce limits source whole

/-- The tests in a part of a tree agree with the marks that there are. -/
structure Node.Balanced (limits : Limits) (source : Source) (whole : Visit) (node : Node) :
    Prop where
  sum : ∀ passing, node.sumOver (Node.imbalance passing) = 0
  everywhere : Everywhere (Node.Settled limits source whole) node

/-- What an evaluation leaves is balanced, and a comparison with it on its left side finds its
    targets unmarked. -/
structure Visit.Accounted (limits : Limits) (source : Source) (visit : Visit) : Prop where
  root : visit.after.Unmarked
  rolls : ∀ roll, StandsOn roll visit.after → roll.Unmarked ∧ ∀ die ∈ roll.children, die.Unmarked
  members : visit.after.kind = .group →
    ∀ member ∈ visit.after.children, member.Unmarked ∧ member.kind ≠ .diceRoll
  balanced : visit.after.Balanced limits source visit

section

variable {limits : Limits} {source : Source} {inner whole : Visit} {node roll : Node}

namespace Node

/-- What is neither a die nor a test is settled. -/
private theorem Settled.of_plain (die : node.kind ≠ .diceRoll) (plain : node.isTest = false) :
    Settled limits source whole node where
  dropped kind := absurd kind die
  tested isTest := by
    rw [plain] at isTest
    cases isTest

/-- What is settled in a part of an evaluation is settled in the whole. -/
private theorem Settled.of_part (h : Settled limits source inner node)
    (part : Visit.Part limits source inner whole) : Settled limits source whole node where
  dropped := h.dropped
  tested isTest := by
    obtain ⟨op, left, right, visit, kind, children, value, within, tests⟩ := h.tested isTest
    exact ⟨op, left, right, visit, kind, children, value, within.part part, tests⟩

/-- A mark leaves a node settled unless it is on a dropped die. -/
private theorem Settled.mark (h : Settled limits source whole node) (c : Condition)
    (live : node.kind = .diceRoll → node.isDropped = false) :
    Settled limits source whole (c.mark node) where
  dropped kind isDropped := by
    rw [isDropped_mark, live kind] at isDropped
    cases isDropped
  tested isTest := by
    have before : node.isTest = true := by
      rw [isTest_iff] at isTest ⊢
      rwa [value?_mark] at isTest
    have tested := h.tested before
    unfold TestedOnce at tested ⊢
    rwa [value?_mark]

namespace Balanced

/-- As many nodes are marked as the tests say. -/
private theorem countP_isMarked (h : Balanced limits source whole node) (passing : Bool) :
    (node.walk.countP (isMarked passing) : Int) = (node.tests.map (outcomes passing)).sum := by
  have sum := h.sum passing
  rw [walk_eq_preorder]
  unfold sumOver at sum
  unfold tests
  -- The sum of differences is the difference of the two sums.
  suffices ∀ nodes : List Node, (nodes.map (imbalance passing)).sum =
      nodes.countP (isMarked passing) - ((nodes.filter isTest).map (outcomes passing)).sum by
    rw [this] at sum
    omega
  intro nodes
  induction nodes with
  | nil => rfl
  | cons node nodes ih =>
    rw [List.map_cons, List.sum_cons, ih, List.countP_cons, List.filter_cons, imbalance]
    cases node.isMarked passing <;> cases node.isTest <;> simp <;> omega

/-- What is balanced in a part of an evaluation is balanced in the whole. -/
private theorem of_part (h : Balanced limits source inner node)
    (part : Visit.Part limits source inner whole) : Balanced limits source whole node :=
  ⟨h.sum, h.everywhere.mono fun _ settled => settled.of_part part⟩

/-- What was written holds neither marks nor tests. -/
private theorem of_written (h : Everywhere Written node) (unmarked : Everywhere Unmarked node) :
    Balanced limits source whole node := by
  -- A test has a value, which a written comparison has not.
  have plain : Everywhere (fun node => node.isTest = false) node := by
    intro inside hinside
    have written := h inside hinside
    rw [← Bool.not_eq_true, isTest_iff]
    rintro ⟨op, _, _, _, kind, -, stored⟩
    rcases written.quiet with new | literal | sides
    · rw [new] at stored; cases stored
    · rw [literal] at kind; cases kind
    · rw [sides] at kind; cases kind
  constructor
  · intro passing
    exact sumOver_eq_zero fun inside hinside =>
      (unmarked inside hinside).imbalance (plain inside hinside)
  · exact fun inside hinside => .of_plain (h inside hinside).plain (plain inside hinside)

/-- An unmarked node over balanced parts, other than a test, is balanced. -/
private theorem of_children (unmarked : node.Unmarked) (die : node.kind ≠ .diceRoll)
    (plain : ∀ op, node.kind ≠ .comparison op)
    (h : ∀ child ∈ node.children, Balanced limits source whole child) :
    Balanced limits source whole node := by
  have noTest := isTest_of_kind plain
  constructor
  · intro passing
    rw [sumOver_eq, unmarked.imbalance noTest, Int.zero_add]
    apply List.sum_eq_zero
    intro count hcount
    obtain ⟨child, hchild, rfl⟩ := List.mem_map.mp hcount
    exact (h child hchild).sum passing
  · rw [everywhere_iff]
    exact ⟨.of_plain die noTest, fun child hchild => (h child hchild).everywhere⟩

/-- A roll with unmarked dice. -/
private theorem of_dice (kind : roll.kind = .dice) (unmarked : roll.Unmarked)
    (dice : ∀ die ∈ roll.children, die.IsDiceRoll ∧ die.Unmarked) :
    Balanced limits source whole roll := by
  apply of_children unmarked
  · rw [kind]; nofun
  · rw [kind]; nofun
  · -- A die is a leaf, and it is no test.
    intro die hdie
    obtain ⟨isDiceRoll, unmarked⟩ := dice die hdie
    have noTest : die.isTest = false := isTest_of_kind (by rw [isDiceRoll.kind]; nofun)
    constructor
    · intro passing
      rw [sumOver_of_leaf isDiceRoll.leaf, unmarked.imbalance noTest]
    · rw [everywhere_iff, isDiceRoll.leaf]
      refine ⟨⟨fun _ _ => unmarked, fun isTest => ?_⟩, nofun⟩
      rw [noTest] at isTest
      cases isTest

/-- Another roll below modifiers. -/
theorem replaceDice {other : Node} (h : Balanced limits source whole node)
    (stands : StandsOn roll node) (old : Balanced limits source whole roll)
    (new : Balanced limits source whole other) :
    Balanced limits source whole (node.replaceDice other) := by
  constructor
  · intro passing
    have replaced := stands.sumOver_replaceDice (countsAlone_imbalance passing) other
    rw [old.sum, h.sum, new.sum] at replaced
    omega
  · apply stands.everywhere _ h.everywhere new.everywhere
    intro m attributes operand operand' rest _ _
    exact .of_plain nofun (isTest_of_kind nofun)

end Balanced

/-- Marks on dice that count leave the dropped ones as they are. -/
private theorem settled_markLive {c : Condition} (kind : roll.kind = .dice)
    (dice : ∀ die ∈ roll.children, die.IsDiceRoll ∧ die.Unmarked) :
    Everywhere (Settled limits source whole) (roll.markLive c) := by
  rw [everywhere_iff]
  constructor
  · apply Settled.of_plain
    · rw [show (roll.markLive c).kind = roll.kind from rfl, kind]
      nofun
    · apply isTest_of_kind
      rw [show (roll.markLive c).kind = roll.kind from rfl, kind]
      nofun
  · intro die hdie
    obtain ⟨old, hold, rfl⟩ := List.mem_map.mp hdie
    obtain ⟨isDiceRoll, unmarked⟩ := dice old hold
    -- An unmarked die is settled.
    have settled : Settled limits source whole old :=
      ⟨fun _ _ => unmarked, fun isTest => by
        rw [isTest_of_kind (by rw [isDiceRoll.kind]; nofun)] at isTest
        cases isTest⟩
    -- A dropped die keeps no mark, and a die that counts may have one.
    by_cases dropped : old.isDropped
    · simp only [dropped, if_true]
      rw [everywhere_iff, isDiceRoll.leaf]
      exact ⟨settled, nofun⟩
    · simp only [dropped, Bool.false_eq_true, if_false]
      rw [everywhere_iff, show (c.mark old).children = old.children from rfl, isDiceRoll.leaf]
      exact ⟨settled.mark c fun _ => by simpa using dropped, nofun⟩

end Node

namespace Visit.Accounted

/-- What a comparison tests is not marked yet. -/
private theorem targets {targets : List Node} (h : inner.Accounted limits source)
    (evaluated : inner.Evaluated limits source) (found : inner.after.targets? = some targets) :
    ∀ target ∈ targets, target.Unmarked := by
  rcases Node.target_cases (Expands.exists_standsOn evaluated) with
    ⟨roll, stands⟩ | isGroup | ⟨plain, single⟩
  · obtain rfl := Option.some.inj ((Node.targets?_of_standsOn stands).symm.trans found)
    exact fun die hdie => (h.rolls roll stands).2 die (Dice.mem_live.mp hdie).1
  · obtain rfl := Option.some.inj ((Node.targets?_of_group isGroup).symm.trans found)
    exact fun member hmember => (h.members isGroup member hmember).1
  · obtain rfl := Option.some.inj ((Node.targets?_of_single plain single).symm.trans found)
    exact List.forall_mem_singleton.mpr h.root

/-- The targets are settled when they are marked. -/
private theorem settled_mapTargets (h : inner.Accounted limits source)
    (evaluated : inner.Evaluated limits source) (part : Visit.Part limits source inner whole)
    (c : Condition) :
    Everywhere (Node.Settled limits source whole) (inner.after.mapTargets c.mark) := by
  have settled := (h.balanced.of_part part).everywhere
  -- It is only of dice that marks are asked to spare the dropped ones.
  have mark : ∀ {node : Node}, Everywhere (Node.Settled limits source whole) node →
      node.kind ≠ .diceRoll → Everywhere (Node.Settled limits source whole) (c.mark node) := by
    intro node settled plain
    rw [everywhere_iff]
    exact ⟨settled.here.mark c fun kind => absurd kind plain, fun _ => settled.child⟩
  rcases Node.target_cases (Expands.exists_standsOn evaluated) with
    ⟨roll, stands⟩ | isGroup | ⟨plain, single⟩
  · rw [Node.mapTargets_of_standsOn stands]
    -- The dice of the roll are unmarked before this comparison marks them.
    have thrown := Expands.isThrown evaluated stands
    have unmarked := (h.rolls roll stands).2
    apply stands.everywhere _ settled
      (Node.settled_markLive stands.kind fun die hdie => ⟨thrown.dice die hdie, unmarked die hdie⟩)
    intro m attributes operand operand' rest _ _
    exact .of_plain nofun (Node.isTest_of_kind nofun)
  · rw [Node.mapTargets_of_group isGroup, everywhere_iff]
    constructor
    · apply Node.Settled.of_plain
      · rw [show (Node.withChildren _ _).kind = inner.after.kind from rfl, isGroup]
        nofun
      · apply Node.isTest_of_kind
        rw [show (Node.withChildren _ _).kind = inner.after.kind from rfl, isGroup]
        nofun
    · intro child hchild
      obtain ⟨member, hmember, rfl⟩ := List.mem_map.mp hchild
      exact mark (settled.child hmember) (h.members isGroup member hmember).2
  · rw [Node.mapTargets_of_single plain single]
    exact mark settled (Expands.kind_ne_diceRoll evaluated)

/-- A test marks as many targets as passed, and as many as failed. -/
theorem sumOver_mapTargets {targets : List Node} (h : inner.Accounted limits source)
    (evaluated : inner.Evaluated limits source) (found : inner.after.targets? = some targets)
    (c : Condition) (passing : Bool) :
    (inner.after.mapTargets c.mark).sumOver (Node.imbalance passing) =
      if passing then (targets.countP fun target => c.holds target.value? : Int)
      else targets.length - targets.countP fun target => c.holds target.value? := by
  have alone := Node.countsAlone_imbalance passing
  rw [Node.sumOver_mapTargets alone c (Expands.exists_standsOn evaluated) found,
    h.balanced.sum, Int.zero_add]
  -- None of the targets was marked before, so each one counts for its mark.
  have unmarked := h.targets evaluated found
  clear found
  induction targets with
  | nil => cases passing <;> rfl
  | cons target targets ih =>
    obtain ⟨first, others⟩ := List.forall_mem_cons.mp unmarked
    rw [List.map_cons, List.sum_cons, ih others, first.imbalance_mark c, List.countP_cons,
      List.length_cons]
    cases passing <;> cases c.holds target.value? <;> simp <;> omega

/-- A node that is its own target, over balanced parts. -/
private theorem of_single (unmarked : whole.after.Unmarked) (kind : whole.after.kind.isRoll = false)
    (single : whole.after.kind ≠ .group) (balanced : whole.after.Balanced limits source whole) :
    whole.Accounted limits source where
  root := unmarked
  rolls roll stands := by
    rw [stands.isRoll] at kind
    cases kind
  members isGroup := absurd isGroup single
  balanced := balanced

/-- A roll that dice were thrown for, or modifiers on it. -/
private theorem of_roll (stands : StandsOn roll whole.after) (unmarked : whole.after.Unmarked)
    (rollUnmarked : roll.Unmarked) (dice : ∀ die ∈ roll.children, die.Unmarked)
    (balanced : whole.after.Balanced limits source whole) : whole.Accounted limits source where
  root := unmarked
  rolls other stands' := by
    obtain rfl : roll = other := Option.some.inj (stands.findDice?.symm.trans stands'.findDice?)
    exact ⟨rollUnmarked, dice⟩
  members isGroup := by
    have isRoll := stands.isRoll
    rw [isGroup] at isRoll
    cases isRoll
  balanced := balanced

/-- A group of balanced members, none of them marked or a die, is accounted for. -/
private theorem of_group (kind : whole.after.kind = .group) (unmarked : whole.after.Unmarked)
    (members : ∀ member ∈ whole.after.children, member.Unmarked ∧ member.kind ≠ .diceRoll ∧
      member.Balanced limits source whole) : whole.Accounted limits source where
  root := unmarked
  rolls roll stands := by
    have isRoll := stands.isRoll
    rw [kind] at isRoll
    cases isRoll
  members _ member hmember := ⟨(members member hmember).1, (members member hmember).2.1⟩
  balanced := by
    apply Node.Balanced.of_children unmarked
    · rw [kind]; nofun
    · rw [kind]; nofun
    · exact fun member hmember => (members member hmember).2.2

/-- A test over its sides: all marks that it is responsible for are on its targets. -/
private theorem of_test {op : Comparison} {attributes : OrderedMap Value} {left right : Node}
    {targets : List Node} {passed : Nat}
    (unmarked : attributes.get? "success" = none)
    (stored : whole.after = .store ⟨.comparison op, attributes, [left, right]⟩ (.int passed))
    (value : whole.value = .int passed) (found : left.targets? = some targets)
    (tests : whole.Tests limits source op left right)
    (marks : ∀ passing : Bool, left.sumOver (Node.imbalance passing) =
      if passing then (passed : Int) else targets.length - passed)
    (settled : Everywhere (Node.Settled limits source whole) left)
    (balanced : right.Balanced limits source whole) : whole.Accounted limits source := by
  have isUnmarked : Node.Unmarked whole.after := by
    rw [stored]
    have before : Node.Unmarked ⟨.comparison op, attributes, [left, right]⟩ := unmarked
    exact before.store _
  have kind : whole.after.kind = .comparison op := by rw [stored]; rfl
  have shown : whole.after.value? = some (.number whole.value) := by
    rw [stored, value]
    exact Node.value?_store ..
  have children : whole.after.children = [left, right] := by rw [stored]; rfl
  have isTest : whole.after.isTest = true :=
    Node.isTest_iff.mpr ⟨op, left, right, _, kind, children, shown⟩
  apply of_single isUnmarked (by rw [kind]; rfl) (by rw [kind]; nofun)
  constructor
  · intro passing
    -- The test stands for what it counted, and the marks on the left side make up for it.
    have root : whole.after.imbalance passing =
        -if passing then (passed : Int) else targets.length - passed := by
      simp [Node.imbalance, Node.outcomes, Node.passed, Node.tested, isUnmarked.isMarked, isTest,
        shown, children, value, found]
    rw [Node.sumOver_eq, root, children, List.map_cons, List.map_singleton, List.sum_cons,
      List.sum_singleton, marks, balanced.sum]
    omega
  · rw [everywhere_iff, children]
    refine ⟨⟨fun isDie => ?_, fun _ => ?_⟩, ?_⟩
    · rw [kind] at isDie
      cases isDie
    · exact ⟨op, left, right, whole, kind, children, shown, .refl, tests⟩
    · -- The left side carries the marks, and the right side may hold tests of its own.
      exact List.forall_mem_cons.mpr ⟨settled, List.forall_mem_singleton.mpr balanced.everywhere⟩

end Visit.Accounted

/-! ## Expanded trees -/

/-- Thrown dice are unmarked, and no modifier marks them as tested. -/
private theorem kept_unmarked : KeptWithin (fun _ => True) Node.Unmarked where
  thrown _ _ _ := rfl
  again _ _ h := h.set _ (by decide)
  mark key value isMark h := by
    apply h.set
    rintro rfl
    simp [Dice.marks] at isMark

/-- A group is unmarked when it has unfolded. -/
private theorem Unfolds.unmarked {group unfolded : Node} {trace trace' : Trace}
    (h : Unfolds limits group trace unfolded trace') (unmarked : group.Unmarked) :
    unfolded.Unmarked := by
  have unmarked : group.get? "success" = none := unmarked
  unfold Node.Unmarked
  cases h with
  | once _ => exact unmarked
  | repeated _ _ => simp [unmarked]
  | excess _ _ _ _ => simp [unmarked]

/-- The tests in an expanded tree agree with its marks. -/
theorem Expands.accounted {before after : Node} {n : Number} {trace trace' : Trace}
    (h : Expands limits source before trace after n trace')
    (unmarked : Everywhere Node.Unmarked before) :
    Visit.Accounted limits source ⟨before, trace, after, n, trace'⟩ := by
  -- The parts are balanced already.  Only a comparison marks nodes, and it counts what it marks.
  induction h with
  | literal stored =>
    exact .of_single unmarked.here rfl nofun
      (.of_written (Node.IsLiteral.intro _ stored).written unmarked)
  | negate h ih =>
    refine .of_single (unmarked.here.store _) rfl nofun
      (.of_children (unmarked.here.store _) nofun nofun (List.forall_mem_singleton.mpr ?_))
    have operand := ih (unmarked.child List.mem_cons_self)
    exact operand.balanced.of_part (.first (.negate h) h nofun nofun rfl rfl)
  | operator hleft hright applied ih ih' =>
    refine .of_single (unmarked.here.store _) rfl nofun (.of_children (unmarked.here.store _)
      nofun nofun (List.forall_mem_cons.mpr ⟨?_, List.forall_mem_singleton.mpr ?_⟩))
    · have left := ih (unmarked.child List.mem_cons_self)
      exact left.balanced.of_part
        (.first (.operator hleft hright applied) hleft nofun nofun rfl rfl)
    · have right := ih' (unmarked.child (by simp))
      exact right.balanced.of_part
        (.second ⟨_, _, _, _, _⟩ (.operator hleft hright applied) hleft hright (.inl ⟨_, rfl⟩) rfl
          rfl rfl)
  | @untested op attributes left left' right a trace trace' hleft empty hright ih =>
    have inner := ih (unmarked.child List.mem_cons_self)
    have whole : Visit.Evaluated limits source
        ⟨⟨.comparison op, attributes, [left, right]⟩, trace, _, _, trace'⟩ :=
      Expands.untested hleft empty hright
    -- Without targets there is nothing to mark, and the value is zero.
    have counted := inner.balanced.of_part (.first whole hleft nofun nofun rfl rfl)
    refine .of_test unmarked.here rfl rfl empty (whole.tests rfl rfl) ?_ counted.everywhere
      (.of_written hright.written (unmarked.child (by simp)))
    intro passing
    rw [counted.sum]
    cases passing <;> rfl
  | @tested op attributes left left' right right' a b targets passed trace trace₁ trace' hleft found
      present hright count ih ih' =>
    have inner := ih (unmarked.child List.mem_cons_self)
    have threshold := ih' (unmarked.child (by simp))
    have whole : Visit.Evaluated limits source
        ⟨⟨.comparison op, attributes, [left, right]⟩, trace, _, _, trace'⟩ :=
      Expands.tested hleft found present hright count
    -- As there are targets, the right side was evaluated, and it is a part.
    have goesOn : left'.targets? ≠ some [] := by
      rw [found]
      exact fun empty => present (Option.some.inj empty)
    refine .of_test unmarked.here rfl rfl (Node.targets?_mapTargets hleft.exists_standsOn found _)
      (whole.tests rfl rfl) ?_
      (inner.settled_mapTargets hleft (.first whole hleft nofun nofun rfl rfl) _)
      (threshold.balanced.of_part (.second ⟨left, trace, left', a, trace₁⟩ whole hleft hright
        (.inr ⟨⟨op, rfl⟩, goesOn⟩) rfl rfl rfl))
    intro passing
    rw [inner.sumOver_mapTargets hleft found, List.length_map, ← count]
  | call named known h applied ih =>
    refine .of_single (unmarked.here.store _) rfl nofun
      (.of_children (unmarked.here.store _) nofun nofun (List.forall_mem_singleton.mpr ?_))
    have argument := ih (unmarked.child List.mem_cons_self)
    exact argument.balanced.of_part
      (.first (.call named known h applied) h nofun (fun _ => rfl) rfl rfl)
  | miscall _ _ _ harguments _ =>
    refine .of_single (unmarked.here.store _) rfl nofun
      (.of_children (unmarked.here.store _) nofun nofun fun argument hargument => ?_)
    exact .of_written (harguments argument hargument).written (unmarked.child hargument)
  | @group group unfolded visits sum trace trace₁ trace' kind unfolds members linked h added ih =>
    have whole : Visit.Evaluated limits source ⟨group, trace, _, _, trace'⟩ :=
      Expands.group kind unfolds members linked h added
    refine .of_group (unfolds.kind.trans kind) (.store (unfolds.unmarked unmarked.here) _) ?_
    intro child hchild
    obtain ⟨visit, hvisit, rfl⟩ := List.mem_map.mp hchild
    have inner := ih visit hvisit (unmarked.child (unfolds.before_mem members hvisit))
    exact ⟨inner.root, (h visit hvisit).kind_ne_diceRoll, inner.balanced.of_part
      (.member whole kind unfolds members linked h hvisit)⟩
  | @roll attributes _ _ _ sides _ times sides' _ _ dice _ _ _ _ _ _ _ _ _ _ _ threw _ =>
    have unmarkedDice := keptWithin_throwDice kept_unmarked (fun _ _ => trivial) threw
    have thrown : Node.Unmarked (Node.thrown attributes times sides' dice) :=
      ((unmarked.here.set _ (by decide)).set _ (by decide))
    exact .of_roll (.roll rfl) (thrown.store _) (thrown.store _) unmarkedDice
      (.of_dice rfl (thrown.store _) fun die hdie =>
        ⟨isDiceRoll_of_throwDice threw die hdie, unmarkedDice die hdie⟩)
  | @modifier m attributes operand operand' roll argument dice a _ trace₁ trace' h stands hargument
      alters ih =>
    have inner := ih (unmarked.child List.mem_cons_self)
    have whole : Visit.Evaluated limits source
        ⟨⟨.modifier m, attributes, operand :: argument⟩, _, _, _, trace'⟩ :=
      Expands.modifier h stands hargument alters
    -- The dice are not marked before a comparison has the whole roll on its left side.
    obtain ⟨rollUnmarked, oldUnmarked⟩ := inner.rolls roll stands
    -- No modifier marks a die as passed or failed.
    have newUnmarked := alters.keptWithin kept_unmarked
      (fun _ _ _ _ _ _ => ⟨trivial, fun _ _ => trivial⟩) oldUnmarked
    have oldDice := (h.isThrown stands).dice
    have newDice := alters.kept kept_isDiceRoll oldDice
    have changed : (roll.withChildren dice).Unmarked := rollUnmarked
    have renewed : (roll.renewed dice).Unmarked := changed.store _
    have below : (operand'.replaceDice (roll.renewed dice)).Balanced limits source _ :=
      (inner.balanced.of_part (.first whole h nofun nofun rfl rfl)).replaceDice stands
        (.of_dice stands.kind rollUnmarked fun die hdie => ⟨oldDice die hdie, oldUnmarked die hdie⟩)
        (.of_dice stands.kind renewed fun die hdie => ⟨newDice die hdie, newUnmarked die hdie⟩)
    refine .of_roll (.modifier (stands.replace stands.kind)) (unmarked.here.store _) renewed
      newUnmarked (.of_children (unmarked.here.store _) nofun nofun ?_)
    exact List.forall_mem_cons.mpr ⟨below, fun node hnode =>
      .of_written (hargument.written node hnode) (unmarked.child (List.mem_cons_of_mem _ hnode))⟩

/-! ## Parsed texts -/

namespace Expr

open Node (Unmarked)

/-- A literal is unmarked. -/
private theorem unmarked_integer (n : Nat) : Everywhere Unmarked (.integer n) := by
  rw [everywhere_iff]
  exact ⟨rfl, nofun⟩

/-- The argument of a modifier is unmarked. -/
private theorem unmarked_argument (step : Step) : ∀ node ∈ step.argument.toList,
    Everywhere Unmarked node := by
  simp only [Option.mem_toList]
  refine Step.forall_argument (fun bound => ?_) unmarked_integer step
  rw [everywhere_iff]
  exact ⟨rfl, List.forall_mem_singleton.mpr (unmarked_integer bound.limit)⟩

/-- Dice with their modifiers are unmarked when they are parsed. -/
private theorem unmarked_modified {count : Node} (h : Everywhere Unmarked count) (sides : Sides)
    (steps : List Step) : Everywhere Unmarked (modified (plainRoll count sides) steps) := by
  induction steps using List.reverseRecOn with
  | nil =>
    have leaf : Everywhere Unmarked (.diceSides sides.toValue) := by
      rw [everywhere_iff]
      exact ⟨rfl, nofun⟩
    rw [modified_nil, everywhere_iff]
    exact ⟨rfl, List.forall_mem_cons.mpr ⟨h, List.forall_mem_singleton.mpr leaf⟩⟩
  | append_singleton steps step ih =>
    rw [modified_append, everywhere_iff]
    exact ⟨by cases step <;> rfl, List.forall_mem_cons.mpr ⟨ih, unmarked_argument step⟩⟩

/-- Nothing is marked in the tree of an expression. -/
theorem unmarked_toNode (e : Expr) : Everywhere Unmarked e.toNode := by
  -- The parser stores no mark, whatever the construct.
  induction e with
  | literal n => exact unmarked_integer n
  | roll count sides steps ih => exact unmarked_modified ih sides steps
  | negate operand ih =>
    rw [everywhere_iff]
    exact ⟨rfl, List.forall_mem_singleton.mpr ih⟩
  | binary op left right ih ih' =>
    rw [everywhere_iff]
    exact ⟨rfl, List.forall_mem_cons.mpr ⟨ih, List.forall_mem_singleton.mpr ih'⟩⟩
  | compare op left right ih ih' =>
    rw [everywhere_iff]
    exact ⟨rfl, List.forall_mem_cons.mpr ⟨ih, List.forall_mem_singleton.mpr ih'⟩⟩
  | call name arguments ih =>
    rw [toNode, toNodes_eq_map, everywhere_iff]
    exact ⟨rfl, List.forall_mem_map.mpr ih⟩
  | group members repeats ih =>
    rw [toNode, toNodes_eq_map, everywhere_iff]
    exact ⟨by cases repeats <;> rfl, List.forall_mem_map.mpr ih⟩

end Expr

/-- What is counted in the end is what the tests have come to in the evaluation `run`. -/
structure Outcome.CountsTests (limits : Limits) (source : Source) (run : Visit)
    (outcome : Outcome) : Prop where
  successes : (outcome.successes : Int) = (outcome.tree.tests.map Node.passed).sum
  failures : (outcome.failures : Int) =
    (outcome.tree.tests.map fun test => (test.tested.length : Int) - test.passed).sum
  -- What dice a roll drops is not marked, not even in a roll that is not left in the tree.
  dropped : ∀ visit : Visit, visit.Within limits source run → ∀ die ∈ visit.after.preorder,
    die.kind = .diceRoll → die.isDropped = true → die.Unmarked
  once : ∀ test ∈ outcome.tree.tests, test.TestedOnce limits source run
  reached : ∀ test ∈ outcome.tree.tests, ∀ left right, test.children = [left, right] →
    left.targetPaths.map left.at? = test.tested.map some
  unique : ∀ test test' target, outcome.tree.IsTarget test target →
    outcome.tree.IsTarget test' target → test = test'

/-- An outcome counts the marks in its tree. -/
private theorem interpret_marks {rules : Rules} {tree : Node} {record record' : Record}
    {outcome : Outcome} (finished : interpret rules tree record = (.ok outcome, record')) :
    outcome.successes = outcome.tree.walk.countP (Node.isMarked true) ∧
      outcome.failures = outcome.tree.walk.countP (Node.isMarked false) := by
  unfold interpret at finished
  split at finished
  · cases finished
  · cases finished
    exact ⟨rfl, rfl⟩

/-- What a test has on its left side stands on a roll if it shows one. -/
private theorem Node.TestedOnce.stands {test left right : Node}
    (h : test.TestedOnce limits source whole)
    (children : test.children = [left, right]) (isRoll : left.kind.isRoll = true) :
    ∃ roll, StandsOn roll left := by
  obtain ⟨op, left', right', visit, -, sides, -, -, tests⟩ := h
  rw [children] at sides
  cases sides
  exact tests.stands isRoll

/-- The ways to the targets of a test lead to what it has tested. -/
private theorem Node.TestedOnce.reached {test left right : Node}
    (h : test.TestedOnce limits source whole) (children : test.children = [left, right]) :
    left.targetPaths.map left.at? = test.tested.map some := by
  have rolls := h.stands children
  obtain ⟨op, left', right', visit, -, sides, -, -, tests⟩ := h
  rw [children] at sides
  cases sides
  obtain ⟨targets, found, -⟩ := tests.tested
  rw [Node.map_at?_targetPaths rolls found, Node.tested, children]
  simp only [found, Option.getD_some]

/-- What is left of interpreting a text counts its tests: the successes are what the tests have come
    to, the failures are the other targets, and no node is a target of two tests.  Each test was
    made in one evaluation of its comparison, which evaluates the right side at most once. -/
theorem interpret_successes {text : String} {root : Node} (parsed : parse text = .ok ⟨root, []⟩)
    {limits : Limits} {source : Source} {record record' : Record} {outcome : Outcome}
    (finished : interpret ⟨limits, .default, source⟩ root record = (.ok outcome, record')) :
    ∃ n, outcome.total = .number n ∧
      let run : Visit := ⟨root, ⟨[], record.requests.toList⟩, outcome.tree, n,
        ⟨outcome.problems, record'.requests.toList⟩⟩
      run.Evaluated limits source ∧ outcome.CountsTests limits source run := by
  obtain ⟨e, rfl, -⟩ := accepts_of_parse parsed
  obtain ⟨n, total, expands⟩ := interpret_expands e.toNode_wellFormed finished
  refine ⟨n, total, expands, ?_⟩
  have unmarked := e.unmarked_toNode
  have balanced := (expands.accounted unmarked).balanced
  obtain ⟨successes, failures⟩ := interpret_marks finished
  -- Every test of the outcome belongs to one visit of its comparison.
  have once := fun test htest =>
    (balanced.everywhere test (Node.mem_tests.mp htest).1).tested (Node.mem_tests.mp htest).2
  constructor
  · rw [successes, balanced.countP_isMarked]
    rfl
  · rw [failures, balanced.countP_isMarked]
    rfl
  · intro visit within die hdie kind dropped
    -- A visit starts from a part of the parsed tree, which has no marks.
    have inside : Everywhere Node.Unmarked visit.before := fun node below =>
      unmarked node (Node.mem_preorder_trans below within.mem_preorder)
    have inner := Expands.accounted (within.evaluated expands) inside
    exact (inner.balanced.everywhere die hdie).dropped kind dropped
  · exact once
  · exact fun test htest left right children => (once test htest).reached children
  · intro test test' target h h'
    exact h.unique (fun test htest left right children => (once test htest).stands children) h'

/-- A test of the members of a group, of which one is a test of dice. -/
theorem interpret_successes_nested :
    let root := (Expr.compare .greater (.group [.compare .greater
      (.roll (.literal 2) (.faces 6) [.explode false none]) (.literal 3), .literal 4] (some 2))
      (.literal 1)).toNode
    let rules : Rules := ⟨{}, .default, fun request _ => 7 - request⟩
    parse "\x7b(2d6!) > 3, 4\x7d...2 > 1" = .ok ⟨root, []⟩ ∧ ∃ outcome record',
      interpret rules root {} = (.ok outcome, record') ∧ ∃ n, outcome.total = .number n ∧
        let run : Visit := ⟨root, ⟨[], []⟩, outcome.tree, n,
          ⟨outcome.problems, record'.requests.toList⟩⟩
        run.Evaluated rules.limits rules.source ∧
          outcome.CountsTests rules.limits rules.source run := by
  intro root rules
  have read : parse "\x7b(2d6!) > 3, 4\x7d...2 > 1" = .ok ⟨root, []⟩ := rfl
  have answered : (interpret rules root {}).1.isOk = true := by decide +kernel
  obtain ⟨outcome, record', finished⟩ := exists_outcome answered
  exact ⟨read, outcome, record', finished, interpret_successes read finished⟩

end

end DiceNotation
