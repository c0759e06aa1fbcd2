import DiceNotation.Proofs.Trees.Sums

/-! # The targets of tests

A comparison of two expressions that was evaluated is a test.  Nodes of a tree can be equal, so
where it matters which of them is meant they are told apart by their addresses: the address of a
node says which child to go to, step by step from the root.

A test and its targets are never far apart.  Between them there are only the modifiers and the roll
on the left side, or the group (`kind_of_prefix`).  So a node is a target of the comparison that
stands next above it, and of no other.

* `map_at?_targetPaths`   the addresses of targets lead to the targets
* `IsTarget.unique`       no node is a target of two tests -/

namespace DiceNotation.Node

/-! ## Tests -/

/-- Whether the node is a comparison of two expressions that has a value. -/
def isTest (node : Node) : Bool :=
  match node.kind, node.children with
  | .comparison _, [_, _] => node.value?.isSome
  | _, _ => false

/-- The tests in a tree. -/
def tests (root : Node) : List Node := root.preorder.filter isTest

/-- What a test tests. -/
def tested (test : Node) : List Node :=
  match test.children with
  | left :: _ => left.targets?.getD []
  | [] => []

/-- A test is a comparison with two sides and a value. -/
theorem isTest_iff {node : Node} :
    node.isTest = true ↔ ∃ op left right value,
      node.kind = .comparison op ∧ node.children = [left, right] ∧ node.value? = some value := by
  unfold isTest
  constructor
  · intro h
    split at h
    · next op left right kind children =>
      obtain ⟨value, stored⟩ := Option.isSome_iff_exists.mp h
      exact ⟨op, left, right, value, kind, children, stored⟩
    · cases h
  · rintro ⟨op, left, right, value, kind, children, stored⟩
    rw [kind, children, stored]
    rfl

/-- The tests of a tree are its nodes that are tests. -/
theorem mem_tests {root test : Node} :
    test ∈ root.tests ↔ test ∈ root.preorder ∧ test.isTest = true :=
  List.mem_filter

/-! ## Addresses -/

/-- The way to the roll that first children lead to. -/
def rollPath? : Node → Option (List Nat)
  | ⟨kind, _, children⟩ =>
    if kind = .dice then some []
    else
      match children with
      | [] => none
      | child :: _ => (rollPath? child).map fun path => 0 :: path

/-- A roll is at the end of its own way. -/
theorem rollPath?_of_kind {node : Node} (kind : node.kind = .dice) : node.rollPath? = some [] := by
  obtain ⟨_, attributes, children⟩ := node
  unfold rollPath?
  rw [if_pos kind]

/-- The places of the dice that count. -/
def livePlaces (dice : List Node) : List Nat :=
  (dice.zipIdx.filter fun entry => !entry.1.isDropped).map Prod.snd

/-- The ways from the left side of a comparison to what is tested there. -/
def targetPaths (left : Node) : List (List Nat) :=
  if left.kind.isRoll then
    match left.rollPath?, left.findDice? with
    | some path, some roll => (livePlaces roll.children).map fun i => path ++ [i]
    | _, _ => []
  else if left.kind = .group then (List.range left.children.length).map fun i => [i]
  else [[]]

variable {left roll node : Node}

namespace StandsOn

/-- The roll stands at the end of the way to it. -/
private theorem exists_rollPath (stands : StandsOn roll left) :
    ∃ path, left.rollPath? = some path ∧ left.at? path = some roll := by
  induction stands with
  | roll kind => exact ⟨[], rollPath?_of_kind kind, rfl⟩
  | modifier _ ih =>
    obtain ⟨path, hpath, found⟩ := ih
    exact ⟨0 :: path, by simp [rollPath?, hpath], found⟩

/-- There are only rolls and modifiers on the way. -/
private theorem isRoll_of_prefix (stands : StandsOn roll left) {path above : List Nat}
    (hpath : left.rollPath? = some path) (h : above <+: path)
    (found : left.at? above = some node) : node.kind.isRoll = true := by
  -- The path goes down one modifier at a time.
  induction stands generalizing path above with
  | roll kind =>
    obtain rfl : [] = path := Option.some.inj ((rollPath?_of_kind kind).symm.trans hpath)
    obtain rfl := List.prefix_nil.mp h
    cases found
    rw [kind]
    rfl
  | modifier _ ih =>
    obtain ⟨path, below, rfl⟩ := by simpa [rollPath?] using hpath
    cases above with
    | nil =>
      cases found
      rfl
    | cons i above =>
      obtain ⟨rfl, rest⟩ := List.cons_prefix_cons.mp h
      exact ih below rest found

end StandsOn

/-- The ways to the targets of what stands on a roll lead to the live dice of the roll. -/
theorem targetPaths_of_standsOn (stands : StandsOn roll left) : ∃ path,
    left.rollPath? = some path ∧ left.at? path = some roll ∧
      left.targetPaths = (livePlaces roll.children).map fun i => path ++ [i] := by
  obtain ⟨path, hpath, found⟩ := stands.exists_rollPath
  unfold targetPaths
  rw [if_pos stands.isRoll, stands.findDice?, hpath]
  exact ⟨path, rfl, found, rfl⟩

/-- The ways to the targets of a group lead to its members. -/
theorem targetPaths_of_group (kind : left.kind = .group) :
    left.targetPaths = (List.range left.children.length).map fun i => [i] := by
  unfold targetPaths
  rw [if_neg (by rw [kind]; exact nofun), if_pos kind]

/-- A single target is reached at once. -/
theorem targetPaths_of_single (plain : left.kind.isRoll = false) (single : left.kind ≠ .group) :
    left.targetPaths = [[]] := by
  unfold targetPaths
  rw [if_neg (by rw [plain]; exact nofun), if_neg single]

/-- At the live places stand the live dice, in order. -/
theorem map_getElem?_livePlaces (dice : List Node) :
    (livePlaces dice).map (fun i => dice[i]?) = (Dice.live dice).map some := by
  have placed : ∀ entry ∈ dice.zipIdx.filter fun entry => !entry.1.isDropped,
      dice[entry.2]? = some entry.1 :=
    fun _ hentry => List.mem_zipIdx_iff_getElem?.mp (List.mem_filter.mp hentry).1
  have live : Dice.live dice =
      (dice.zipIdx.filter fun entry => !entry.1.isDropped).map Prod.fst := by
    rw [Dice.live, ← List.zipIdx_map_fst 0 dice, List.filter_map, List.zipIdx_map_fst]
    rfl
  rw [live, livePlaces, List.map_map, List.map_map]
  exact List.map_congr_left placed

/-- The ways to the targets lead to the targets. -/
theorem map_at?_targetPaths {targets : List Node}
    (rolls : left.kind.isRoll = true → ∃ roll, StandsOn roll left)
    (found : left.targets? = some targets) :
    left.targetPaths.map left.at? = targets.map some := by
  rcases target_cases rolls with ⟨roll, stands⟩ | isGroup | ⟨plain, single⟩
  · obtain rfl := Option.some.inj ((targets?_of_standsOn stands).symm.trans found)
    obtain ⟨path, -, reached, paths⟩ := targetPaths_of_standsOn stands
    -- The path to the roll is followed by the place of a live die.
    rw [paths, ← map_getElem?_livePlaces, List.map_map]
    refine List.map_congr_left fun i _ => ?_
    rw [Function.comp_apply, at?_append, reached]
    simp
  · obtain rfl := Option.some.inj ((targets?_of_group isGroup).symm.trans found)
    rw [targetPaths_of_group isGroup, List.map_map]
    apply List.ext_getElem
    · simp
    · simp
  · obtain rfl := Option.some.inj ((targets?_of_single plain single).symm.trans found)
    rw [targetPaths_of_single plain single]
    rfl

/-! ## Which test a target belongs to -/

/-- The node at the address `target` is tested by the test at the address `test`. -/
def IsTarget (root : Node) (test target : List Nat) : Prop :=
  ∃ node left right path, root.at? test = some node ∧ node.isTest = true ∧
    node.children = [left, right] ∧ path ∈ left.targetPaths ∧ target = test ++ 0 :: path

/-- Above a target on the left side of a comparison there is no other comparison. -/
theorem kind_of_prefix (rolls : left.kind.isRoll = true → ∃ roll, StandsOn roll left)
    {path above : List Nat} (h : path ∈ left.targetPaths) (between : above <+: path)
    (proper : above ≠ path) (found : left.at? above = some node) (op : Comparison) :
    node.kind ≠ .comparison op := by
  rcases target_cases rolls with ⟨roll, stands⟩ | isGroup | ⟨plain, single⟩
  · -- What is above a die is the roll or one of its modifiers.
    obtain ⟨way, hway, -, paths⟩ := targetPaths_of_standsOn stands
    rw [paths] at h
    obtain ⟨i, -, rfl⟩ := List.mem_map.mp h
    have short := (List.prefix_concat_iff.mp between).resolve_left proper
    have onTheWay := stands.isRoll_of_prefix hway short found
    intro kind
    rw [kind] at onTheWay
    cases onTheWay
  · rw [targetPaths_of_group isGroup] at h
    obtain ⟨i, -, rfl⟩ := List.mem_map.mp h
    -- Above a member there is only the group.
    have short : above <+: [] := (List.prefix_concat_iff.mp between).resolve_left proper
    obtain rfl := List.prefix_nil.mp short
    cases found
    rw [isGroup]
    nofun
  · rw [targetPaths_of_single plain single] at h
    obtain rfl := List.mem_singleton.mp h
    exact absurd (List.prefix_nil.mp between) proper

namespace IsTarget

variable {root : Node} {test test' target : List Nat}

/-- A test stands above its target. -/
private theorem above (h : root.IsTarget test target) : test <+: target ∧ test ≠ target := by
  obtain ⟨_, _, _, path, -, -, -, -, rfl⟩ := h
  exact ⟨List.prefix_append _ _, by simp⟩

/-- A test that stands above a target of another one does not stand below that one. -/
private theorem eq_of_prefix
    (rolls : ∀ test ∈ root.tests, ∀ left right, test.children = [left, right] →
      left.kind.isRoll = true → ∃ roll, StandsOn roll left)
    (h : root.IsTarget test target) (h' : root.IsTarget test' target) (below : test <+: test') :
    test = test' := by
  by_contra other
  -- The upper test reaches its target only along a path on which no other test stands.
  obtain ⟨lower, proper⟩ := h'.above
  obtain ⟨node', _, _, _, found', isTest', -⟩ := h'
  obtain ⟨node, left, right, path, found, isTest, children, hpath, rfl⟩ := h
  obtain ⟨rest, rfl⟩ := below
  have steps : rest <+: 0 :: path := (List.prefix_append_right_inj test).mp lower
  cases rest with
  | nil => exact other (List.append_nil test).symm
  | cons i middle =>
    obtain ⟨rfl, between⟩ := List.cons_prefix_cons.mp steps
    -- Otherwise the lower test stands on the way from the upper one to the target.
    have reached : left.at? middle = some node' := by
      rw [at?_append, found, Option.bind_some, at?_cons, children] at found'
      exact found'
    obtain ⟨op, -, -, -, kind, -⟩ := isTest_iff.mp isTest'
    have isIn := mem_tests.mpr ⟨mem_preorder_of_at? found, isTest⟩
    have onRoll := rolls node isIn left right children
    refine kind_of_prefix onRoll hpath between ?_ reached op kind
    rintro rfl
    exact proper rfl

/-- No node is a target of two tests. -/
theorem unique
    (rolls : ∀ test ∈ root.tests, ∀ left right, test.children = [left, right] →
      left.kind.isRoll = true → ∃ roll, StandsOn roll left)
    (h : root.IsTarget test target) (h' : root.IsTarget test' target) : test = test' := by
  rcases List.prefix_or_prefix_of_prefix h.above.1 h'.above.1 with below | below
  · exact h.eq_of_prefix rolls h' below
  · exact (h'.eq_of_prefix rolls h below).symm

end IsTarget

end DiceNotation.Node
