import DiceNotation.Proofs.Trees.Faces

/-! # Which rolls are thrown

An evaluation throws every roll that it reaches.  It does not reach everything: a function that is
called with another number of arguments than one evaluates none of them, and a comparison that has
nothing to test does not evaluate its threshold.  These parts stand in the expanded tree as they
stood in the tree that was evaluated, rolls and all.

* `Node.Rolled`        a roll that was thrown, or that the limits forbid
* `Node.Spread`        every roll of a tree is rolled, except in parts that were skipped
* `Expands.spread`     by induction on how the tree was expanded
* `interpret_rolled`   parsed texts, node by node -/

namespace DiceNotation

open Node (Everywhere Written StandsOn IsArgument IsLiteral mem_preorder mem_preorder_trans
  child_mem_preorder self_mem_preorder)

/-- The limits forbid a roll of so many dice with these sides; `none` are the sides of fate dice. -/
def Limits.Forbids (limits : Limits) (count : Int) (sides : Option Int) : Prop :=
  count < 0 ∨ (∃ most : Nat, limits.maxRolls = some most ∧ most < count) ∨
    ∃ n, sides = some n ∧ (n < 1 ∨ ∃ most : Nat, limits.maxSides = some most ∧ most < n)

namespace Node

/-- A roll that was evaluated: besides its sides, its dice and their sum it has their number, and
    it has no dice if it was forbidden. -/
structure Rolled (limits : Limits) (roll : Node) : Prop extends roll.IsThrown where
  count : ∃ count sides, roll.get? "count" = some (.int count) ∧
    roll.get? "sides" = some (shownSides sides) ∧
      (limits.Forbids count sides → roll.children = [])

/-- The children of an expanded node that its evaluation has skipped. -/
def skipped (node : Node) : List Node :=
  match node.kind, node.children with
  | .function, [_] => []
  | .function, arguments => arguments
  | .comparison _, [left, right] =>
    match left.targets? with
    | some [] => [right]
    | _ => []
  | _, _ => []

/-- The node of the expanded tree `root` stands in a part that was skipped, which stands in the
    tree `tree` as it is. -/
def Untouched (tree root node : Node) : Prop :=
  ∃ outer ∈ root.preorder, ∃ part ∈ outer.skipped, part ∈ tree.preorder ∧ node ∈ part.preorder

/-- Every roll in the tree is rolled and no sides are left, except in the parts that were skipped,
    which stand in `tree`. -/
inductive Spread (limits : Limits) (tree : Node) : Node → Prop where
  | rolled {roll : Node} (kind : roll.kind = .dice) (h : roll.Rolled limits) :
      Spread limits tree roll
  | untested {op : Comparison} {attributes : OrderedMap Value} {left right : Node}
      (hleft : Spread limits tree left) (empty : left.targets? = some [])
      (hright : right ∈ tree.preorder) :
      Spread limits tree ⟨.comparison op, attributes, [left, right]⟩
  | miscalled {attributes : OrderedMap Value} {arguments : List Node}
      (wrong : arguments.length ≠ 1) (h : ∀ argument ∈ arguments, argument ∈ tree.preorder) :
      Spread limits tree ⟨.function, attributes, arguments⟩
  | other {kind : NodeKind} {attributes : OrderedMap Value} {children : List Node}
      (plain : kind ≠ .dice ∧ kind ≠ .diceSides)
      (h : ∀ child ∈ children, Spread limits tree child) :
      Spread limits tree ⟨kind, attributes, children⟩

variable {limits : Limits} {tree root node roll other : Node}

/-- What is untouched below a child is untouched below the node. -/
private theorem Untouched.below {child : Node} (hchild : child ∈ root.children)
    (h : Untouched tree child node) : Untouched tree root node := by
  obtain ⟨outer, houter, part⟩ := h
  exact ⟨outer, mem_preorder_trans houter (child_mem_preorder hchild), part⟩

/-! ## Rolls -/

/-- Another value and other dice leave a roll rolled, if there are none where there were none. -/
private theorem Rolled.of_same (h : roll.Rolled limits) (thrown : other.IsThrown)
    (count : other.get? "count" = roll.get? "count")
    (sides : other.get? "sides" = roll.get? "sides")
    (none : roll.children = [] → other.children = []) : other.Rolled limits where
  toIsThrown := thrown
  count := by
    obtain ⟨n, s, hn, hs, forbidden⟩ := h.count
    exact ⟨n, s, count.trans hn, sides.trans hs, fun forbids => none (forbidden forbids)⟩

/-- A mark leaves the roll rolled. -/
private theorem Rolled.mark (h : roll.Rolled limits) (c : Condition) :
    (c.mark roll).Rolled limits := by
  have other {name : String} (ne : name ≠ "success") :
      (c.mark roll).get? name = roll.get? name := by
    simp [Condition.mark, ne]
  refine h.of_same ⟨?_, ?_, h.dice⟩ (other (by decide)) (other (by decide)) id
  · obtain ⟨sides, hsides⟩ := h.sides
    exact ⟨sides, (other (by decide)).trans hsides⟩
  · exact (value?_mark c roll).trans h.value

/-- A roll with its live dice marked is rolled. -/
private theorem Rolled.markLive (h : roll.Rolled limits) (c : Condition) :
    (roll.markLive c).Rolled limits := by
  refine h.of_same (h.toIsThrown.markLive c) rfl rfl fun none => ?_
  rw [Node.markLive, none]
  rfl

/-! ## Trees -/

namespace Spread

/-- A tree without a roll at its root is spread if its children are. -/
private theorem of_children (plain : node.kind ≠ .dice ∧ node.kind ≠ .diceSides)
    (h : ∀ child ∈ node.children, Spread limits tree child) : Spread limits tree node := by
  obtain ⟨kind, attributes, children⟩ := node
  exact .other plain h

/-- A roll in a spread tree is rolled. -/
private theorem rolled_of_dice (h : Spread limits tree roll) (kind : roll.kind = .dice) :
    roll.Rolled limits := by
  cases h with
  | rolled _ h => exact h
  | untested => cases kind
  | miscalled => cases kind
  | other plain => exact absurd kind plain.1

/-- A literal is spread. -/
private theorem of_literal (h : IsLiteral node) : Spread limits tree node := by
  obtain ⟨n, -⟩ := h
  exact .other (by decide) nofun

/-- An argument of a modifier has no rolls. -/
private theorem of_argument {m : Modifier} {argument : List Node} (h : IsArgument m argument) :
    ∀ node ∈ argument, Spread limits tree node := by
  cases h with
  | none => exact nofun
  | amount _ literal => exact List.forall_mem_singleton.mpr (of_literal literal)
  | condition _ _ literal =>
    refine List.forall_mem_singleton.mpr (.other (by simp) ?_)
    exact List.forall_mem_singleton.mpr (of_literal literal)

/-- The operand and the argument of a modifier. -/
private theorem of_modifier {m : Modifier} {attributes : OrderedMap Value} {children : List Node}
    (h : Spread limits tree ⟨.modifier m, attributes, children⟩) :
    ∀ child ∈ children, Spread limits tree child := by
  cases h with
  | rolled kind => cases kind
  | other _ h => exact h

/-- The roll below modifiers is rolled. -/
private theorem rolled_of_standsOn (h : Spread limits tree node) (stands : StandsOn roll node) :
    roll.Rolled limits := by
  induction stands with
  | roll kind => exact h.rolled_of_dice kind
  | modifier _ ih => exact ih (h.of_modifier _ List.mem_cons_self)

/-- Replacing the roll that is stood on by a spread one leaves the tree spread. -/
theorem replaceDice (h : Spread limits tree node) (stands : StandsOn roll node)
    (hother : Spread limits tree other) : Spread limits tree (node.replaceDice other) := by
  induction stands with
  | roll kind => rwa [replaceDice_of_kind kind]
  | modifier _ ih =>
    rw [replaceDice_modifier]
    obtain ⟨operand, argument⟩ := List.forall_mem_cons.mp h.of_modifier
    exact .other (by simp) (List.forall_mem_cons.mpr ⟨ih operand, argument⟩)

/-- A mark of a comparison changes nothing of a roll. -/
private theorem mark (c : Condition) (h : Spread limits tree node) :
    Spread limits tree (c.mark node) := by
  cases h with
  | rolled kind h => exact .rolled kind (h.mark c)
  | untested hleft empty hright => exact .untested hleft empty hright
  | miscalled wrong h => exact .miscalled wrong h
  | other plain h => exact .other plain h

/-- Marking the targets of a comparison leaves the tree spread. -/
private theorem mapTargets (c : Condition) (h : Spread limits tree node)
    (rolls : node.kind.isRoll = true → ∃ roll, StandsOn roll node) :
    Spread limits tree (node.mapTargets c.mark) := by
  rcases target_cases rolls with ⟨roll, stands⟩ | isGroup | ⟨plain, single⟩
  · -- The live dice of the roll are marked, and the roll is put back below the modifiers.
    have marked := (h.rolled_of_standsOn stands).markLive c
    rw [mapTargets_of_standsOn stands]
    exact h.replaceDice stands (.rolled stands.kind marked)
  · rw [mapTargets_of_group isGroup]
    -- A group has no other form, so its members are spread.
    have members : ∀ member ∈ node.children, Spread limits tree member := by
      cases h with
      | rolled kind => rw [kind] at isGroup; cases isGroup
      | untested => cases isGroup
      | miscalled => cases isGroup
      | other _ h => exact h
    apply of_children
    · rw [show (node.withChildren _).kind = node.kind from rfl, isGroup]
      decide
    · intro child hchild
      obtain ⟨member, hmember, rfl⟩ := List.mem_map.mp hchild
      exact (members member hmember).mark c
  · rw [mapTargets_of_single plain single]
    exact h.mark c

/-- Each node of the tree is rolled if it is a roll, or it stands in a part that was skipped. -/
theorem everywhere (h : Spread limits tree root) : Everywhere (fun node =>
    (node.kind ≠ .diceSides ∧ (node.kind = .dice → node.Rolled limits)) ∨
      Untouched tree root node) root := by
  induction h with
  | @rolled roll kind h =>
    refine everywhere_iff.mpr ⟨.inl ⟨?_, fun _ => h⟩, fun die hdie => ?_⟩
    · rw [kind]
      decide
    · -- A die has nothing below it.
      have die := h.dice die hdie
      refine everywhere_iff.mpr ⟨.inl ?_, ?_⟩
      · simp [die.kind]
      · simp [die.leaf]
  | @untested op attributes left right hleft empty hright ih =>
    -- The right side was skipped, and all that is in it stands untouched.
    have here : right ∈ skipped ⟨.comparison op, attributes, [left, right]⟩ := by
      simp [skipped, empty]
    refine everywhere_iff.mpr ⟨.inl (by simp), ?_⟩
    refine List.forall_mem_cons.mpr ⟨?_, List.forall_mem_singleton.mpr ?_⟩
    · exact ih.mono fun node settled => settled.imp_right (Untouched.below (by simp))
    · exact fun node inside => .inr ⟨_, self_mem_preorder _, right, here, hright, inside⟩
  | @miscalled attributes arguments wrong h =>
    have here : skipped ⟨.function, attributes, arguments⟩ = arguments := by
      unfold skipped
      match arguments, wrong with
      | [], _ => rfl
      | _ :: _ :: _, _ => rfl
    refine everywhere_iff.mpr ⟨.inl (by simp), fun argument hargument node inside => ?_⟩
    have skip : argument ∈ skipped ⟨.function, attributes, arguments⟩ := by rwa [here]
    exact .inr ⟨_, self_mem_preorder _, argument, skip, h argument hargument, inside⟩
  | @other kind attributes children plain h ih =>
    refine everywhere_iff.mpr ⟨.inl ⟨plain.2, fun dice => absurd dice plain.1⟩, ?_⟩
    exact fun child hchild =>
      (ih child hchild).mono fun node settled => settled.imp_right (Untouched.below hchild)

end Spread

end Node

/-! ## Expanded trees -/

section

variable {limits : Limits} {source : Source}

/-- A roll that is forbidden throws no dice. -/
private theorem rolled_thrown {attributes : OrderedMap Value} {count : Int} {sides : Option Int}
    {countAllowed sidesAllowed : Bool} {dice : List Node} {trace₁ trace₂ trace₃ trace' : Trace}
    (countChecked : Roll.countAllowed limits count trace₁ = .ok countAllowed trace₂)
    (sidesChecked : Roll.sidesAllowed limits sides trace₂ = .ok sidesAllowed trace₃)
    (threw : Roll.throwDice source (countAllowed && sidesAllowed) count.toNat sides trace₃ =
      (dice, trace')) :
    ((Node.thrown attributes count sides dice).store (.int (Dice.total dice))).Rolled limits := by
  -- A forbidden throw was refused by one of the two checks and left no dice.
  have nothing (forbids : limits.Forbids count sides) : dice = [] := by
    have refused : (countAllowed && sidesAllowed) = false := by
      -- Had both checks passed, nothing would be forbidden.
      by_contra both
      obtain ⟨rfl, rfl⟩ := Bool.and_eq_true_iff.mp (eq_true_of_ne_false both)
      have within := count_of_countAllowed countChecked
      have permitted := permits_of_sidesAllowed sidesChecked
      rcases forbids with negative | ⟨most, limited, above⟩ | ⟨n, rfl, wrong⟩
      · omega
      · have := within.2 most limited
        omega
      · rcases permitted with fate | ⟨m, same, atLeast, atMost⟩
        · cases fate
        · obtain rfl : n = m := congrArg Faces.high same
          rcases wrong with few | ⟨most, limited, above⟩
          · omega
          · have := atMost most limited
            omega
    rw [refused] at threw
    cases threw
    rfl
  refine { Node.isThrown_thrown (isDiceRoll_of_throwDice threw) with count := ?_ }
  refine ⟨count, sides, ?_, ?_, nothing⟩
  · rw [Node.get?_store _ _ (by decide)]
    simp [Node.thrown]
  · rw [Node.get?_store _ _ (by decide), Node.get?_sides_thrown]

/-- A modifier leaves no dice where there are none. -/
private theorem Alters.eq_nil {node roll : Node} {argument dice : List Node} {m : Modifier}
    {trace trace' : Trace} (alters : Alters limits source node roll argument m trace dice trace')
    (none : roll.children = []) : dice = [] := by
  -- What is kept of every die holds of none when there are none.
  have vacuous : KeptWithin (fun _ => False) (fun _ => False) := ⟨nofun, nofun, nofun⟩
  have nothing := alters.keptWithin vacuous (fun some => absurd none some) (by simp [none])
  exact List.eq_nil_iff_forall_not_mem.mpr nothing

/-- What an evaluation reaches is rolled. -/
theorem Expands.spread {before after tree : Node} {n : Number} {trace trace' : Trace}
    (h : Expands limits source before trace after n trace') (inside : before ∈ tree.preorder) :
    Node.Spread limits tree after := by
  have below {node : Node} (h : node ∈ tree.preorder) : ∀ child ∈ node.children,
      child ∈ tree.preorder :=
    fun child hchild => mem_preorder_trans (child_mem_preorder hchild) h
  -- The part in focus stands in `tree`, so that a part which is skipped stands there as well.
  induction h with
  | literal stored => exact .of_literal (.intro _ stored)
  | negate _ ih =>
    have operand := ih (below inside _ (by simp))
    exact .of_children (by simp) (List.forall_mem_singleton.mpr operand)
  | operator _ _ _ ih ih' =>
    have left := ih (below inside _ (by simp))
    have right := ih' (below inside _ (by simp))
    refine .of_children (by simp) ?_
    exact List.forall_mem_cons.mpr ⟨left, List.forall_mem_singleton.mpr right⟩
  | untested _ empty _ ih =>
    have left := ih (below inside _ (by simp))
    exact .untested left empty (below inside _ (by simp))
  | @tested op _ _ _ _ _ _ b _ _ _ _ _ hleft _ _ _ _ ih ih' =>
    have left := (ih (below inside _ (by simp))).mapTargets ⟨op, .number b⟩ hleft.exists_standsOn
    have right := ih' (below inside _ (by simp))
    refine .of_children (by simp) ?_
    exact List.forall_mem_cons.mpr ⟨left, List.forall_mem_singleton.mpr right⟩
  | call _ _ _ _ ih =>
    have argument := ih (below inside _ (by simp))
    exact .of_children (by simp) (List.forall_mem_singleton.mpr argument)
  -- The arguments were skipped, and they stand in the tree as they were written.
  | miscall _ _ wrong _ _ => exact .miscalled wrong (below inside)
  | group kind unfolds members _ _ _ ih =>
    apply Node.Spread.of_children
    · rw [Node.kind_store, show (Node.withChildren _ _).kind = _ from unfolds.kind.trans kind]
      decide
    · intro child hchild
      obtain ⟨visit, hvisit, rfl⟩ := List.mem_map.mp hchild
      exact ih visit hvisit (below inside _ (unfolds.before_mem members hvisit))
  | @roll _ _ _ _ _ _ _ sides _ _ _ _ _ _ _ _ _ _ _ _ countChecked sidesChecked threw =>
    exact .rolled rfl (rolled_thrown countChecked sidesChecked threw)
  | @modifier m attributes operand operand' roll argument dice _ _ _ _ h stands hargument alters
      ih =>
    have operand := ih (below inside _ (by simp))
    have rolled := operand.rolled_of_standsOn stands
    have kind : (roll.renewed dice).kind = .dice := stands.kind
    -- Other dice and their sum are stored; the number of dice and the sides stay.
    have renewed : (roll.renewed dice).Rolled limits := by
      have other {name : String} (ne : name ≠ "value") :
          (roll.renewed dice).get? name = roll.get? name :=
        (Node.get?_store _ _ ne).trans rfl
      have hdice := alters.kept kept_isDiceRoll rolled.dice
      exact rolled.of_same (rolled.toIsThrown.renewed hdice) (other (by decide))
        (other (by decide)) alters.eq_nil
    have changed := operand.replaceDice stands (.rolled kind renewed)
    refine .of_children (by simp) ?_
    exact List.forall_mem_cons.mpr ⟨changed, .of_argument hargument⟩

/-- If interpreting a text has an outcome, every node of the tree that is left is rolled if it is a
    roll, and no sides are left; except in the arguments of a function that was called with another
    number of them than one, and in the threshold of a comparison that had nothing to test, which
    stand in the tree as they were parsed. -/
theorem interpret_rolled {text : String} {root : Node} (parsed : parse text = .ok ⟨root, []⟩)
    (limits : Limits) (source : Source) (record : Record) {outcome : Outcome}
    (finished : (interpret ⟨limits, .default, source⟩ root record).1 = .ok outcome) :
    ∀ node ∈ outcome.tree.preorder,
      (node.kind ≠ .diceSides ∧ (node.kind = .dice → node.Rolled limits)) ∨
        Node.Untouched root outcome.tree node := by
  obtain ⟨e, rfl, -⟩ := accepts_of_parse parsed
  obtain ⟨n, -, expands⟩ := interpret_expands e.toNode_wellFormed (Prod.ext finished rfl)
  exact (expands.spread (self_mem_preorder _)).everywhere

/-- A roll that is forbidden, a group of rolls that is compared, and a comparison that has nothing
    to test. -/
theorem interpret_rolled_forbidden :
    let roll (count sides : Nat) := Expr.roll (.literal count) (.faces sides) []
    let root := (Expr.group [roll 3 6, .compare .greater (.group [roll 1 4] (some 2)) (roll 1 6),
      .compare .less (roll 0 6) (roll 1 6)] none).toNode
    let limits : Limits := { maxRolls := some 2 }
    let source : Source := fun _ faces => faces.low
    parse "\x7b3d6, \x7b1d4\x7d...2 > 1d6, 0d6 < 1d6\x7d" = .ok ⟨root, []⟩ ∧ ∃ outcome,
      (interpret ⟨limits, .default, source⟩ root {}).1 = .ok outcome ∧
        ∀ node ∈ outcome.tree.preorder,
          (node.kind ≠ .diceSides ∧ (node.kind = .dice → node.Rolled limits)) ∨
            Node.Untouched root outcome.tree node := by
  intro roll root limits source
  have read : parse "\x7b3d6, \x7b1d4\x7d...2 > 1d6, 0d6 < 1d6\x7d" = .ok ⟨root, []⟩ := rfl
  have answered : (interpret ⟨limits, .default, source⟩ root {}).1.isOk = true := by
    decide +kernel
  obtain ⟨outcome, record', returned⟩ := exists_outcome answered
  have finished : (interpret ⟨limits, .default, source⟩ root {}).1 = .ok outcome := by
    rw [returned]
  exact ⟨read, outcome, finished, interpret_rolled read limits source {} finished⟩

/-- Not every roll of a text is rolled in its answer. -/
def LeavesRolls (source : Source) (text : String) : Prop :=
  ∃ root outcome, parse text = .ok ⟨root, []⟩ ∧
    (interpret ⟨{}, .default, source⟩ root {}).1 = .ok outcome ∧
    ¬∀ node ∈ outcome.tree.preorder,
      node.kind ≠ .diceSides ∧ (node.kind = .dice → node.Rolled {})

/-- Two arguments of a function that takes one, and a threshold without anything to test: the rolls
    in them are left as they are. -/
theorem interpret_leaves_rolls :
    LeavesRolls (fun _ faces => faces.low) "abs(1d6, 2)" ∧
      LeavesRolls (fun _ faces => faces.low) "0d6 > 1d6" := by
  -- A node for the sides is left in the outcome, which no rolled tree has.
  have leaves {text : String} {root : Node} (parsed : parse text = .ok ⟨root, []⟩)
      (sides : (interpret ⟨{}, .default, fun _ faces => faces.low⟩ root {}).1.toOption.any
        (fun outcome => outcome.tree.preorder.any fun node => node.kind == .diceSides) = true) :
      LeavesRolls (fun _ faces => faces.low) text := by
    cases finished : (interpret ⟨{}, .default, fun _ faces => faces.low⟩ root {}).1 with
    | error fault =>
      rw [finished] at sides
      cases sides
    | ok outcome =>
      rw [finished] at sides
      obtain ⟨node, inside, kind⟩ := List.any_eq_true.mp sides
      refine ⟨root, outcome, parsed, finished, fun rolled => ?_⟩
      exact (rolled node inside).1 (beq_iff_eq.mp kind)
  let roll (count sides : Nat) := Expr.roll (.literal count) (.faces sides) []
  have called : parse "abs(1d6, 2)" = .ok ⟨(Expr.call "abs" [roll 1 6, .literal 2]).toNode, []⟩ :=
    rfl
  have compared : parse "0d6 > 1d6" =
      .ok ⟨(Expr.compare .greater (roll 0 6) (roll 1 6)).toNode, []⟩ := rfl
  exact ⟨leaves called (by decide +kernel), leaves compared (by decide +kernel)⟩

end

end DiceNotation
