import DiceNotation.Proofs.Parsing.Language
import DiceNotation.Proofs.Trees.Evaluation

/-! # Expanded trees are self-consistent

The total of an expanded tree can be added up again from what the tree shows: every value that is
stored on a node agrees with the children of the node (`AgreesWith`), and a modifier that no other
modifier stands on has the value of its roll (`ShowsRoll`).  A modifier inside a chain is left with
the value that it had before the modifiers behind it; nothing is said of it.

An evaluation changes nodes that were evaluated before in two ways only.  A comparison marks its
targets, and a modifier renews the roll that it stands on.  Neither takes away what holds of the
nodes around.

* `Expands.selfConsistent`       by induction on how the tree was expanded
* `interpret_selfConsistent`     parsed texts -/

namespace DiceNotation

open DiceNotation.Expr (Sides)
open Node (IsLiteral IsSides IsArgument WellFormed StandsOn Everywhere everywhere_iff)

/-- What an operation counts for: zero if it fails or is not finite. -/
def Operator.outcome (op : Operator) (a b : Number) : Number :=
  match op.apply a b with
  | .ok n => if n.isUnbounded then 0 else n
  | .error _ => 0

namespace Node

/-- The children hold these numbers. -/
def Holds (node : Node) (numbers : List Number) : Prop :=
  node.children.map Node.number? = numbers.map some

/-- The value agrees with the children of the node. -/
def AgreesWith (node : Node) (value : Value) : Prop :=
  match node.kind with
  | .operator op => ∃ a b, node.Holds [a, b] ∧ value = .number (op.outcome a b).normalize
  | .negate => ∃ a, node.Holds [a] ∧ value = .number a.negate.normalize
  | .group => ∃ numbers sum, node.Holds numbers ∧ Number.sum numbers = .ok sum ∧
      value = .number sum.normalize
  | .dice => (∀ die ∈ node.children, die.kind = .diceRoll) ∧ ∃ faces : List Int,
      (Dice.live node.children).map Node.value? = faces.map (fun face => some (.int face)) ∧
        value = .int faces.sum
  -- A comparison of two expressions counts the targets that are marked as a success.
  | .comparison _ => ∀ left right, node.children = [left, right] →
      ∃ targets, left.targets? = some targets ∧
        value = .int (targets.countP fun target => target.hasText "success" "yes")
  | _ => True

/-- If the node is a modifier with a value, it is the value of the roll that it stands on. -/
def ShowsRoll (node : Node) : Prop :=
  ∀ m, node.kind = .modifier m → ∀ value, node.value? = some value →
    ∃ roll, node.findDice? = some roll ∧ roll.value? = some value

/-- The children that stand for themselves: all but the one that a modifier stands on. -/
def parts (node : Node) : List Node :=
  match node.kind with
  | .modifier _ => node.children.tail
  | _ => node.children

/-- A value that the node holds agrees with its children, and the modifiers among its parts show
    their rolls. -/
structure Consistent (node : Node) : Prop where
  agrees : ∀ value, node.value? = some value → node.AgreesWith value
  parts : ∀ part ∈ node.parts, part.ShowsRoll

/-- Every node of the tree is consistent, and the tree shows its roll if it is a modifier. -/
structure SelfConsistent (root : Node) : Prop where
  shows : root.ShowsRoll
  everywhere : Everywhere Consistent root

/-! ## Nodes that were not evaluated -/

/-- Nothing but a literal or sides holds a value. -/
def Quiet (node : Node) : Prop :=
  node.value? = none ∨ node.kind = .integer ∨ node.kind = .diceSides

/-- A quiet node is no modifier with a value. -/
private theorem Quiet.showsRoll {node : Node} (h : node.Quiet) : node.ShowsRoll := by
  intro m kind value stored
  rcases h with new | literal | sides
  · rw [new] at stored; cases stored
  · rw [literal] at kind; cases kind
  · rw [sides] at kind; cases kind

/-- The value of a quiet node was written, and agrees with anything below it. -/
private theorem Quiet.agreesWith {node : Node} (h : node.Quiet) {value : Value}
    (stored : node.value? = some value) : node.AgreesWith value := by
  rcases h with new | literal | sides
  · rw [new] at stored; cases stored
  · unfold AgreesWith; rw [literal]; trivial
  · unfold AgreesWith; rw [sides]; trivial

/-- The parts of a node are children of it. -/
theorem parts_subset (node : Node) : node.parts ⊆ node.children := by
  unfold parts
  split
  · exact List.tail_subset _
  · exact List.Subset.refl _

/-- A quiet tree is consistent. -/
theorem selfConsistent_of_quiet {root : Node} (h : Everywhere Quiet root) :
    root.SelfConsistent where
  shows := h.here.showsRoll
  everywhere := by
    induction root using induct with
    | node kind attributes children ih =>
      rw [everywhere_iff]
      refine ⟨⟨fun value => h.here.agreesWith, fun part hpart => ?_⟩, fun child hchild => ?_⟩
      · exact (h.child (parts_subset _ hpart)).here.showsRoll
      · exact ih child hchild (h.child hchild)

/-- What was written and not evaluated is self-consistent. -/
theorem selfConsistent_of_written {root : Node} (h : Everywhere Written root) :
    root.SelfConsistent :=
  selfConsistent_of_quiet (h.mono fun _ written => written.quiet)

/-! ## Marks -/

section

variable {c : Condition} {node left : Node}

/-- A mark leaves the value. -/
@[simp] theorem value?_mark (c : Condition) (node : Node) : (c.mark node).value? = node.value? := by
  simp [Condition.mark, value?]

/-- A mark leaves the number. -/
@[simp] theorem number?_mark (c : Condition) (node : Node) :
    (c.mark node).number? = node.number? := by
  simp [number?]

/-- A mark drops nothing. -/
@[simp] theorem isDropped_mark (c : Condition) (node : Node) :
    (c.mark node).isDropped = node.isDropped := by
  simp [Condition.mark, isDropped, hasText]

/-- The mark says whether the test was passed. -/
theorem hasText_mark (c : Condition) (node : Node) :
    (c.mark node).hasText "success" "yes" = c.holds node.value? := by
  unfold Condition.mark hasText
  rw [get?_set, if_pos rfl]
  cases c.holds node.value? <;> rfl

/-- A mark leaves the node consistent. -/
private theorem Consistent.mark (h : node.Consistent) : (c.mark node).Consistent where
  agrees value stored := by
    rw [value?_mark] at stored
    exact h.agrees value stored
  parts := h.parts

/-- A mark leaves the roll that is shown. -/
private theorem ShowsRoll.mark (h : node.ShowsRoll) : (c.mark node).ShowsRoll := by
  intro m kind value stored
  rw [value?_mark] at stored
  obtain ⟨roll, found, shown⟩ := h m kind value stored
  refine ⟨roll, ?_, shown⟩
  obtain ⟨_, attributes, children⟩ := node
  obtain rfl : _ = NodeKind.modifier m := kind
  unfold findDice? at found
  show findDice? ⟨.modifier m, _, children⟩ = some roll
  unfold findDice?
  exact found

/-- A mark changes the node alone. -/
private theorem SelfConsistent.mark (h : node.SelfConsistent) : (c.mark node).SelfConsistent where
  shows := h.shows.mark
  everywhere := everywhere_iff.mpr ⟨h.everywhere.here.mark, fun _ => h.everywhere.child⟩

/-- The members of a group are marked one by one. -/
private theorem SelfConsistent.map_mark (h : node.SelfConsistent) (kind : node.kind = .group) :
    (node.withChildren (node.children.map c.mark)).SelfConsistent where
  shows m isModifier := by
    rw [show (node.withChildren _).kind = node.kind from rfl, kind] at isModifier
    cases isModifier
  everywhere := by
    -- The parts of a group are its members.
    have parts : ∀ other : Node, other.kind = .group → other.parts = other.children := by
      intro other isGroup
      unfold Node.parts
      rw [isGroup]
    rw [everywhere_iff]
    refine ⟨⟨fun value stored => ?_, fun part hpart => ?_⟩, fun child hchild => ?_⟩
    -- Marks leave the numbers that the members hold.
    · have agrees := h.everywhere.here.agrees value stored
      unfold AgreesWith at agrees ⊢
      rw [kind] at agrees
      rw [show (node.withChildren _).kind = node.kind from rfl, kind]
      obtain ⟨numbers, sum, holds, added, same⟩ := agrees
      refine ⟨numbers, sum, ?_, added, same⟩
      unfold Holds at holds ⊢
      rw [← holds]
      show (node.children.map c.mark).map number? = _
      rw [List.map_map]
      exact List.map_congr_left fun child _ => number?_mark c child
    · rw [parts (node.withChildren _) kind] at hpart
      obtain ⟨member, hmember, rfl⟩ := List.mem_map.mp hpart
      exact (h.everywhere.here.parts member (by rw [parts _ kind]; exact hmember)).mark
    · -- A marked member is consistent as it was, and nothing below it has changed.
      obtain ⟨member, hmember, rfl⟩ := List.mem_map.mp hchild
      have inside := h.everywhere.child hmember
      exact everywhere_iff.mpr ⟨inside.here.mark, fun _ => inside.child⟩

end

/-! ## Rolls -/

/-- The dice of a roll, and the roll itself if its value is their sum. -/
private theorem IsThrown.everywhere {roll : Node} (kind : roll.kind = .dice) (h : roll.IsThrown) :
    Everywhere Consistent roll := by
  rw [everywhere_iff]
  refine ⟨⟨fun value stored => ?_, fun part hpart => ?_⟩, fun die hdie => ?_⟩
  · rw [h.value] at stored
    cases stored
    unfold AgreesWith
    rw [kind]
    refine ⟨fun die hdie => (h.dice die hdie).kind,
      -- The faces that count are those of the live dice, which show them as their values.
      Roll.liveFaces (roll.children.map Die.ofNode), ?_, rfl⟩
    unfold Roll.liveFaces
    rw [← ofNode_live, List.map_map, List.map_map]
    refine List.map_congr_left fun die hdie => ?_
    exact (h.dice die (List.mem_filter.mp hdie).1).face.value?
  · intro m isModifier
    rw [(h.dice part (parts_subset roll hpart)).kind] at isModifier
    cases isModifier
  · -- A die is a leaf, so there is nothing below it.
    have isDiceRoll := h.dice die hdie
    rw [everywhere_iff, isDiceRoll.leaf]
    refine ⟨⟨fun value stored => ?_, fun part hpart => ?_⟩, nofun⟩
    · unfold AgreesWith
      rw [isDiceRoll.kind]
      trivial
    · have none := parts_subset die hpart
      rw [isDiceRoll.leaf] at none
      cases none

/-- Another roll can be put below modifiers if it is consistent. -/
private theorem StandsOn.everywhere_consistent {roll node other : Node}
    (stands : StandsOn roll node)
    (h : Everywhere Consistent node) (inside : Everywhere Consistent other) :
    Everywhere Consistent (node.replaceDice other) := by
  apply stands.everywhere _ h inside
  -- Nothing is said of the operand of a modifier.
  intro m attributes operand operand' rest _ consistent
  exact ⟨fun _ _ => trivial, consistent.parts⟩

/-- A roll with its dice marked still has its sides, its dice and their sum. -/
theorem IsThrown.markLive {roll : Node} (h : roll.IsThrown) (c : Condition) :
    (roll.markLive c).IsThrown where
  sides := h.sides
  value := by
    have same : (roll.markLive c).children.map Die.ofNode = roll.children.map Die.ofNode := by
      show (List.map _ roll.children).map Die.ofNode = _
      rw [List.map_map]
      refine List.map_congr_left fun die _ => ?_
      by_cases dropped : die.isDropped
      · simp [dropped]
      · simp only [Function.comp_apply, dropped, Bool.false_eq_true, if_false]
        exact ofNode_set _ _ (by decide)
    -- The total looks at the faces and at what was dropped, and marks change neither.
    unfold Dice.total
    rw [same]
    exact h.value
  dice := by
    intro die hdie
    obtain ⟨old, hold, rfl⟩ := List.mem_map.mp hdie
    by_cases dropped : old.isDropped
    · simp only [dropped, if_true]
      exact h.dice old hold
    · simp only [dropped, Bool.false_eq_true, if_false]
      -- A mark on a die leaves it a die.
      exact kept_isDiceRoll.mark (h.dice old hold) _ (by decide)

/-- Marking the dice that count marks the targets. -/
theorem live_markLive (c : Condition) (roll : Node) :
    Dice.live (roll.markLive c).children = (Dice.live roll.children).map c.mark := by
  show Dice.live (roll.children.map fun die => if die.isDropped then die else c.mark die) = _
  unfold Dice.live
  induction roll.children with
  | nil => rfl
  | cons die dice ih =>
    by_cases dropped : die.isDropped
    · simp [dropped, ih]
    · simp [dropped, ih]

/-- A roll with modifiers that shows its roll still does when dice are marked. -/
private theorem StandsOn.showsRoll_markLive {roll node : Node} (stands : StandsOn roll node)
    (h : node.ShowsRoll) (c : Condition) : (node.replaceDice (roll.markLive c)).ShowsRoll := by
  intro m kind value stored
  have found := (stands.replace (show (roll.markLive c).kind = .dice from stands.kind)).findDice?
  refine ⟨roll.markLive c, found, ?_⟩
  -- The marked roll is below a modifier, or it is the node itself, which is no modifier.
  have modifier : node.kind = .modifier m := by
    cases stands with
    | roll isDice =>
      rw [replaceDice_of_kind isDice, show (roll.markLive c).kind = roll.kind from rfl,
        isDice] at kind
      cases kind
    | modifier _ =>
      rw [replaceDice_modifier] at kind
      exact kind
  -- The value of the modifier is that of the roll, and marks change neither of them.
  have same : (node.replaceDice (roll.markLive c)).value? = node.value? :=
    stands.get?_replace "value" rfl
  rw [same] at stored
  obtain ⟨roll', found', shown⟩ := h m modifier value stored
  obtain rfl : roll = roll' := Option.some.inj (stands.findDice?.symm.trans found')
  exact shown

/-- Marking the targets of a comparison leaves the left side as consistent as it was. -/
private theorem SelfConsistent.mapTargets {node : Node} (h : node.SelfConsistent)
    (rolls : node.kind.isRoll = true → ∃ roll, StandsOn roll node)
    (thrown : ∀ {roll}, StandsOn roll node → roll.IsThrown) (c : Condition) :
    (node.mapTargets c.mark).SelfConsistent := by
  rcases target_cases rolls with ⟨roll, stands⟩ | isGroup | ⟨plain, single⟩
  · rw [mapTargets_of_standsOn stands]
    have marked : Everywhere Consistent (roll.markLive c) :=
      ((thrown stands).markLive c).everywhere stands.kind
    exact ⟨stands.showsRoll_markLive h.shows c, stands.everywhere_consistent h.everywhere marked⟩
  · rw [mapTargets_of_group isGroup]
    exact h.map_mark isGroup
  · rw [mapTargets_of_single plain single]
    exact h.mark

/-- The targets of a comparison are found again after they were marked. -/
theorem targets?_mapTargets {node : Node} {targets : List Node}
    (rolls : node.kind.isRoll = true → ∃ roll, StandsOn roll node)
    (found : node.targets? = some targets) (c : Condition) :
    (node.mapTargets c.mark).targets? = some (targets.map c.mark) := by
  rcases target_cases rolls with ⟨roll, stands⟩ | isGroup | ⟨plain, single⟩
  · obtain rfl := Option.some.inj ((targets?_of_standsOn stands).symm.trans found)
    have replaced : StandsOn (roll.markLive c) (node.replaceDice (roll.markLive c)) :=
      stands.replace stands.kind
    rw [mapTargets_of_standsOn stands, targets?_of_standsOn replaced, live_markLive]
  · obtain rfl := Option.some.inj ((targets?_of_group isGroup).symm.trans found)
    rw [mapTargets_of_group isGroup]
    exact targets?_of_group isGroup
  · obtain rfl := Option.some.inj ((targets?_of_single plain single).symm.trans found)
    rw [mapTargets_of_single plain single]
    exact targets?_of_single plain single

end Node

/-! ## Expanded trees -/

section

open Node (SelfConsistent Consistent ShowsRoll)

variable {limits : Limits} {source : Source}

/-- A node other than a modifier is consistent with the value that is stored on it, if its children
    agree with it. -/
private theorem selfConsistent_store {node : Node} {n : Number}
    (plain : ∀ m, node.kind ≠ .modifier m) (agrees : node.AgreesWith (.number n.normalize))
    (h : ∀ child ∈ node.children, child.SelfConsistent) : (node.store n).SelfConsistent where
  shows m kind := absurd kind (plain m)
  everywhere := by
    rw [everywhere_iff]
    refine ⟨⟨fun value stored => ?_, fun part hpart => ?_⟩, fun child hchild => ?_⟩
    · rw [Node.value?_store] at stored
      cases stored
      exact agrees
    · exact (h part (Node.parts_subset _ hpart)).shows
    · exact (h child hchild).everywhere

/-- What an operation counts for is the outcome of the operator. -/
theorem outcome_of_operate {op : Operator} {a b n : Number} {trace trace' : Trace}
    (applied : Sem.operate op a b trace = .ok n trace') : n = op.outcome a b := by
  -- What is collected is told with the value zero.
  have zero : ∀ problem : Problem,
      (do Sem.collect problem; return (0 : Number) : Sem Number) trace = .ok n trace' → n = 0 := by
    intro problem counted
    unfold Sem.collect at counted
    by_cases writable : problem.isWritable
    · simp only [writable, if_true] at counted
      cases counted
      rfl
    · simp only [writable] at counted
      cases counted
  -- A failure and a result that is not finite are collected as problems, and both count for zero.
  unfold Sem.operate at applied
  unfold Operator.outcome
  cases result : op.apply a b with
  | ok m =>
    rw [result] at applied
    cases unbounded : m.isUnbounded with
    | true =>
      simp only [unbounded, if_true] at applied ⊢
      exact zero _ applied
    | false =>
      simp only [unbounded, Bool.false_eq_true, if_false] at applied ⊢
      cases applied
      rfl
  | error e =>
    rw [result] at applied
    cases e <;> exact zero _ applied

namespace Expands

variable {before after : Node} {n : Number} {trace trace' : Trace}

/-- The number that is stored on an expanded node. -/
theorem number?_eq (h : Expands limits source before trace after n trace') :
    after.number? = some n := by
  unfold Node.number?
  rw [h.stored]
  rfl

/-- The roll below an expanded roll with modifiers. -/
theorem exists_standsOn (h : Expands limits source before trace after n trace')
    (isRoll : after.kind.isRoll = true) : ∃ roll, StandsOn roll after := by
  rw [h.kind_eq] at isRoll
  obtain ⟨roll, stands, -⟩ := h.onRoll isRoll
  exact ⟨roll, stands⟩

/-- What an evaluation leaves is self-consistent. -/
theorem selfConsistent (h : Expands limits source before trace after n trace') :
    after.SelfConsistent := by
  -- What an evaluation does to a part that was evaluated before is to mark it or to renew its roll,
  -- and the part stays self-consistent.
  induction h with
  | literal stored => exact Node.selfConsistent_of_written (IsLiteral.intro _ stored).written
  | negate h ih =>
    refine selfConsistent_store nofun ⟨_, ?_, rfl⟩ (List.forall_mem_singleton.mpr ih)
    simp [Node.Holds, h.number?_eq]
  | operator hleft hright applied ih ih' =>
    rw [outcome_of_operate applied]
    refine selfConsistent_store nofun ⟨_, _, ?_, rfl⟩
      (List.forall_mem_cons.mpr ⟨ih, List.forall_mem_singleton.mpr ih'⟩)
    simp [Node.Holds, hleft.number?_eq, hright.number?_eq]
  | @untested op attributes left left' right _ _ _ hleft empty hright ih =>
    have quiet : right.SelfConsistent := Node.selfConsistent_of_written hright.written
    refine selfConsistent_store nofun ?_
      (List.forall_mem_cons.mpr ⟨ih, List.forall_mem_singleton.mpr quiet⟩)
    intro left right same
    cases same
    exact ⟨[], empty, rfl⟩
  | @tested op attributes left left' right right' a b targets passed _ _ _ hleft found present
      hright count ih ih' =>
    -- The left side was evaluated first, and its targets are marked now.
    have marked := ih.mapTargets hleft.exists_standsOn hleft.isThrown ⟨op, .number b⟩
    refine selfConsistent_store nofun ?_
      (List.forall_mem_cons.mpr ⟨marked, List.forall_mem_singleton.mpr ih'⟩)
    intro left right same
    cases same
    refine ⟨_, Node.targets?_mapTargets hleft.exists_standsOn found ⟨op, .number b⟩, ?_⟩
    -- As many targets carry the mark as passed the test.
    rw [List.countP_map, ← count]
    refine congrArg (fun k : Nat => Value.int k) (List.countP_congr fun target _ => ?_)
    rw [Function.comp_apply, Node.hasText_mark]
  | call _ _ _ _ ih =>
    exact selfConsistent_store nofun trivial (List.forall_mem_singleton.mpr ih)
  | miscall _ _ _ harguments _ =>
    exact selfConsistent_store nofun trivial fun argument hargument =>
      Node.selfConsistent_of_written (harguments argument hargument).written
  | @group group unfolded visits sum _ _ _ kind unfolds _ _ h added ih =>
    have isGroup : (unfolded.withChildren (visits.map Visit.after)).kind = .group :=
      unfolds.kind.trans kind
    apply selfConsistent_store
    · intro m isModifier
      rw [isGroup] at isModifier
      cases isModifier
    · unfold Node.AgreesWith
      rw [isGroup]
      refine ⟨visits.map Visit.value, sum, ?_, added, rfl⟩
      show (visits.map Visit.after).map Node.number? = _
      rw [List.map_map, List.map_map]
      exact List.map_congr_left fun visit hvisit => (h visit hvisit).number?_eq
    · intro child hchild
      obtain ⟨visit, hvisit, rfl⟩ := List.mem_map.mp hchild
      exact ih visit hvisit
  | roll _ _ _ _ _ _ threw _ =>
    refine ⟨nofun, ?_⟩
    exact (Node.isThrown_thrown (isDiceRoll_of_throwDice threw)).everywhere rfl
  | @modifier m attributes operand operand' roll argument dice _ _ _ _ h stands hargument alters
      ih =>
    have thrown : (roll.renewed dice).IsThrown :=
      (h.isThrown stands).renewed (alters.kept kept_isDiceRoll (h.isThrown stands).dice)
    have replaced : StandsOn (roll.renewed dice) (operand'.replaceDice (roll.renewed dice)) :=
      stands.replace stands.kind
    have quiet := fun node hnode => Node.selfConsistent_of_written (hargument.written node hnode)
    constructor
    · -- The modifier got the value that its roll has now.
      intro _ _ value stored
      rw [Node.value?_store] at stored
      cases stored
      exact ⟨roll.renewed dice, (StandsOn.modifier replaced).findDice?, thrown.value⟩
    · rw [everywhere_iff]
      refine ⟨⟨fun _ _ => trivial, fun part hpart => (quiet part hpart).shows⟩, ?_⟩
      refine List.forall_mem_cons.mpr ⟨?_, ?_⟩
      · exact stands.everywhere_consistent ih.everywhere (thrown.everywhere stands.kind)
      · exact fun node hnode => (quiet node hnode).everywhere

end Expands

/-- The tree that is left of interpreting a text is self-consistent, and the total is the value of
    its root. -/
theorem interpret_selfConsistent {text : String} {root : Node}
    (parsed : parse text = .ok ⟨root, []⟩) {record : Record} {outcome : Outcome}
    (finished : (interpret ⟨limits, .default, source⟩ root record).1 = .ok outcome) :
    outcome.tree.SelfConsistent ∧ outcome.tree.value? = some outcome.total := by
  obtain ⟨e, rfl, -⟩ := accepts_of_parse parsed
  have met := interpret_wellFormed limits source e.toNode_wellFormed record
  generalize interpret ⟨limits, .default, source⟩ e.toNode record = result at finished met
  obtain ⟨result, record'⟩ := result
  simp only at finished
  subst finished
  obtain ⟨n, total, expands⟩ := met
  rw [total]
  exact ⟨expands.selfConsistent, expands.stored⟩

/-- A group of a roll with modifiers and a number, repeated and tested. -/
theorem interpret_selfConsistent_group :
    let root := (Expr.compare .greater (.group [.roll (.literal 3) (.faces 6)
      [.explode false none, .critical true (some ⟨.greater, 4⟩)], .negate (.literal 4)] (some 2))
      (.literal 5)).toNode
    let rules : Rules := ⟨{ maxRolls := some 20 }, .default, fun request _ => request + 4⟩
    parse "\x7b3d6!cs>4, -4\x7d...2 > 5" = .ok ⟨root, []⟩ ∧
      ∃ outcome, (interpret rules root {}).1 = .ok outcome ∧
        outcome.tree.SelfConsistent ∧ outcome.tree.value? = some outcome.total := by
  intro root rules
  have read : parse "\x7b3d6!cs>4, -4\x7d...2 > 5" = .ok ⟨root, []⟩ := rfl
  have answered : (interpret rules root {}).1.isOk = true := by decide +kernel
  obtain ⟨outcome, finished⟩ : ∃ outcome, (interpret rules root {}).1 = .ok outcome := by
    cases result : (interpret rules root {}).1 with
    | ok outcome => exact ⟨outcome, rfl⟩
    | error e => rw [result] at answered; cases answered
  exact ⟨read, outcome, finished, interpret_selfConsistent read finished⟩

end

end DiceNotation
