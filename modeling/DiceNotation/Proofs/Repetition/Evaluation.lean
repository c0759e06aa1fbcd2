import DiceNotation.Proofs.Repetition.Nodes
import DiceNotation.Proofs.Trees.Evaluation

/-! # Repeats are copies

A group that repeats its members is evaluated as if they were written out: the total, the marks, the
problems, the requests, the log and the fault, if there is one, are the same, and so is the tree but
for the attribute that tells how often the group was repeated.

* `mirrors_evaluateWithin`   by induction on the levels, for every well-formed tree
* `interpret_writeOut`       whole trees -/

namespace DiceNotation

open DiceNotation.EvalM (evaluateWithin)
open Node (Everywhere Unmarked WellFormed IsLiteral IsSides IsArgument Twins unrolled SameExcept
  everywhere_iff)

section

variable {n : Nat} {x y : Node} {kind : NodeKind} {attributes : OrderedMap Value}
  {related : Nat → Node → Node → Prop} {after : Node → Node → Prop}

/-! ## Trees -/

/-- Twins that have become one roll are computed. -/
private theorem computed_of_merged {before : Node} (twins : Twins n before y after)
    (isRoll : before.kind.isRoll = true) {x : Node} : Twins.Computed before after x x := by
  have plain : before.kind ≠ .group := by
    intro kind
    rw [kind] at isRoll
    cases isRoll
  refine ⟨⟨fun _ => rfl, fun other => ?_, fun kind => absurd kind plain⟩, fun value => ?_⟩
  · rw [isRoll] at other
    cases other
  · exact twins.refl plain _

/-- Twins of a kind that is neither roll nor group are computed when only their children have
    changed. -/
private theorem computed_of_rebuilt {children : List Node}
    (rebuilt : ∀ attributes' xs ys, xs.length = children.length → Aligned related xs ys →
      after ⟨kind, attributes', xs⟩ ⟨kind, attributes', ys⟩)
    (plain : kind.isRoll = false ∧ kind ≠ .group)
    (h : Rebuilt kind attributes children.length related x y) :
    Twins.Computed ⟨kind, attributes, children⟩ after x y := by
  obtain ⟨xs, ys, rfl, rfl, length, aligned⟩ := h
  refine ⟨⟨fun isRoll => ?_, fun _ => ⟨rfl, rfl⟩, fun isGroup => absurd isGroup plain.2⟩,
    fun value => rebuilt _ xs ys length aligned⟩
  rw [plain.1] at isRoll
  cases isRoll

/-- Twins without a value are computed, and their value is stored. -/
private theorem mirrors_of_computed {rules : Rules} {levels levels' : Nat} (new : x.value? = none)
    (new' : y.value? = none)
    (h : Mirrors x y (EvalM.compute rules (evaluateWithin rules levels))
      (EvalM.compute rules (evaluateWithin rules levels')) fun _ => Twins.Computed x after) :
    Mirrors x y (evaluateWithin rules (levels + 1)) (evaluateWithin rules (levels' + 1))
      (Twins.Evaluated x after) := by
  rw [evaluateWithin, evaluateWithin]
  apply Mirrors.node_bind
  rw [new, new']
  apply h.bind
  intro value a b computed
  apply Mirrors.modifyNode_bind
  apply Mirrors.pure
  -- Both runs store the same value in the nodes that they have computed.
  have stored (node : Node) : (node.set "value" value.normalize).value? = some value.normalize := by
    simp [Node.value?]
  refine ⟨⟨fun isRoll => ?_, computed.kinds, computed.members⟩, computed.related _, stored a,
    stored b⟩
  rw [computed.roll isRoll]

/-- An integer literal has no group in it. -/
private theorem Node.IsLiteral.plain {node : Node} (h : IsLiteral node) :
    Everywhere (fun node => node.kind ≠ .group) node := by
  obtain ⟨k, -⟩ := h
  rw [everywhere_iff]
  exact ⟨nofun, nofun⟩

/-- The sides of dice have no group in them. -/
private theorem Node.IsSides.plain {node : Node} (h : IsSides node) :
    Everywhere (fun node => node.kind ≠ .group) node := by
  obtain ⟨sides, -⟩ := h
  rw [everywhere_iff]
  exact ⟨nofun, nofun⟩

/-- There are no groups in the argument of a modifier. -/
private theorem Node.IsArgument.plain {m : Modifier} {argument : List Node}
    (h : IsArgument m argument) :
    ∀ node ∈ argument, Everywhere (fun node => node.kind ≠ .group) node := by
  cases h with
  | none => exact nofun
  | amount _ literal => exact List.forall_mem_singleton.mpr literal.plain
  | condition _ _ literal =>
    rw [List.forall_mem_singleton, everywhere_iff]
    exact ⟨nofun, List.forall_mem_singleton.mpr literal.plain⟩

section

variable {limits : Limits} {source : Source} {levels levels' : Nat}

/-- Twins that are modifiers mirror each other when what is below them does.  Of their children
    only the operands differ, because there is no group in the argument of a modifier. -/
private theorem mirrors_ofModifier {m : Modifier} {operand : Node} {argument : List Node}
    (twins : Twins n ⟨.modifier m, attributes, operand :: argument⟩ y after)
    (new : Node.value? ⟨.modifier m, attributes, operand :: argument⟩ = none)
    (isRoll : operand.kind.isRoll = true) (hoperand : operand.WellFormed)
    (hargument : IsArgument m argument) (deep : operand.depth ≤ levels)
    (deep' : y.depth ≤ levels' + 1)
    (below : ∀ {c d : Node} {after : Node → Node → Prop}, c ∈ operand :: argument →
      d ∈ y.children → c.WellFormed → Twins n c d after →
      Paired n (evaluateWithin ⟨limits, .default, source⟩ levels)
        (evaluateWithin ⟨limits, .default, source⟩ levels') c d after) :
    Mirrors ⟨.modifier m, attributes, operand :: argument⟩ y
      (evaluateWithin ⟨limits, .default, source⟩ (levels + 1))
      (evaluateWithin ⟨limits, .default, source⟩ (levels' + 1))
      (Twins.Evaluated ⟨.modifier m, attributes, operand :: argument⟩ after) := by
  obtain ⟨children', related, rfl, children, rebuilt⟩ := twins.children (by simp)
  obtain ⟨operand', argument', rfl, first, others⟩ := children.exists_of_cons
  have same : argument = argument' := by
    refine (others.mono fun i c d hc _ twins => ?_).eq
    exact (twins.eq (hargument.plain c (List.mem_of_getElem? hc))).symm
  subst same
  -- The argument stands as high as the operand, so that there is a level left for it.
  have lower' : operand'.depth < levels' + 1 :=
    (Node.depth_lt_of_mem List.mem_cons_self).trans_le deep'
  have positive := operand.depth_pos
  have positive' := operand'.depth_pos
  have paired := below List.mem_cons_self List.mem_cons_self hoperand first
  refine mirrors_of_computed new new (.node_bind ?_)
  apply (mirrors_modifier _ (remembers_evaluateWithin (by omega))
    (remembers_evaluateWithin (by omega)) paired isRoll hargument).mono
  rintro _ x _ rfl
  exact computed_of_merged twins rfl

/-- Twins that are groups mirror each other when what is below them does. -/
private theorem mirrors_ofGroup (within : ∀ limit ∈ limits.maxRolls, n ≤ limit)
    {members : List Node} (twins : Twins n ⟨.group, attributes, members⟩ y after)
    (new : Node.value? ⟨.group, attributes, members⟩ = none)
    (wellFormed : ∀ member ∈ members, member.WellFormed)
    (below : ∀ {c d : Node} {after : Node → Node → Prop}, c ∈ members → d ∈ y.children →
      c.WellFormed → Twins n c d after →
      Paired n (evaluateWithin ⟨limits, .default, source⟩ levels)
        (evaluateWithin ⟨limits, .default, source⟩ levels') c d after) :
    Mirrors ⟨.group, attributes, members⟩ y
      (evaluateWithin ⟨limits, .default, source⟩ (levels + 1))
      (evaluateWithin ⟨limits, .default, source⟩ (levels' + 1))
      (Twins.Evaluated ⟨.group, attributes, members⟩ after) := by
  -- Either the group is repeated as a whole or the change is inside one of its members.
  rcases twins.split with ⟨repeats, rfl, rfl⟩ | ⟨children', related, rfl, children, rebuilt⟩
  · -- This is the group that is written out.
    have new' : (unrolled n ⟨.group, attributes, members⟩).value? = none :=
      (Node.get?_unrolled (by decide)).trans new
    refine mirrors_of_computed new new' (.node_bind ?_)
    apply mirrors_unrolled repeats within
    intro member hmember
    have inside : member ∈ members := Node.mem_children_of_unrolled hmember
    exact (below inside hmember (wellFormed member inside) (.same member)).mirrors
  · have paired := children.mono fun i c d hc hd twins => below (List.mem_of_getElem? hc)
      (List.mem_of_getElem? hd) (wellFormed c (List.mem_of_getElem? hc)) twins
    refine mirrors_of_computed new new (.node_bind ?_)
    apply (mirrors_group paired).mono
    rintro _ _ _ ⟨attributes', xs, ys, rfl, rfl, evaluated⟩
    refine ⟨⟨nofun, fun _ => ⟨rfl, rfl⟩, fun _ => ?_⟩, fun value => ?_⟩
    · exact evaluated.mono fun _ _ _ _ _ both => both.2
    · exact rebuilt _ xs ys (evaluated.mono fun _ _ _ _ _ both => both.1)

/-- Evaluations of twins mirror each other, within as many levels as the trees have. -/
theorem mirrors_evaluateWithin (within : ∀ limit ∈ limits.maxRolls, n ≤ limit)
    (twins : Twins n x y after) (h : x.WellFormed) (deep : x.depth ≤ levels)
    (deep' : y.depth ≤ levels') :
    Mirrors x y (evaluateWithin ⟨limits, .default, source⟩ levels)
      (evaluateWithin ⟨limits, .default, source⟩ levels') (Twins.Evaluated x after) := by
  -- Each level of the evaluations takes one level of both trees.
  induction levels generalizing x y after levels' with
  | zero =>
    have positive := x.depth_pos
    omega
  | succ levels ih =>
    obtain ⟨levels', rfl⟩ : ∃ k, levels' = k + 1 :=
      Nat.exists_eq_add_one.mpr (y.depth_pos.trans_le deep')
    -- The induction hypothesis for the children, which are lower in both trees.
    have below : ∀ {c d : Node} {after : Node → Node → Prop}, c ∈ x.children → d ∈ y.children →
        c.WellFormed → Twins n c d after →
        Paired n (evaluateWithin ⟨limits, .default, source⟩ levels)
          (evaluateWithin ⟨limits, .default, source⟩ levels') c d after := by
      intro c d after hc hd wellFormed twins
      have lower := Node.depth_lt_of_mem hc
      have lower' := Node.depth_lt_of_mem hd
      exact ⟨twins, ih twins wellFormed (by omega) (by omega)⟩
    cases h with
    | literal literal =>
      -- Its value is stored already.
      obtain rfl := twins.eq literal.plain
      obtain @⟨attributes, k, stored⟩ := literal
      have value : Node.value? ⟨.integer, attributes, []⟩ = some (.int k) := stored
      constructor
      intro record
      rw [remembers_evaluateWithin (Nat.succ_pos levels) _ _ record value,
        remembers_evaluateWithin (Nat.succ_pos levels') _ _ record value]
      exact .ok ⟨⟨nofun, fun _ => ⟨rfl, rfl⟩, nofun⟩, twins.before, value, value⟩
    | @dice _ count sides new hcount hsides =>
      obtain ⟨children', related, rfl, children, rebuilt⟩ := twins.children (by decide)
      obtain ⟨count', sides', rfl, first, second⟩ := children.exists_pair
      obtain rfl := second.eq hsides.plain
      have paired := below List.mem_cons_self List.mem_cons_self hcount first
      refine mirrors_of_computed new new (.node_bind ?_)
      apply (mirrors_roll _ paired sides').mono
      rintro _ x _ rfl
      exact computed_of_merged twins rfl
    | @modifier m _ operand argument new isRoll hoperand hargument =>
      have lower : operand.depth < levels + 1 :=
        (Node.depth_lt_of_mem List.mem_cons_self).trans_le deep
      exact mirrors_ofModifier twins new isRoll hoperand hargument (by omega) deep' below
    | negate new hoperand =>
      obtain ⟨children', related, rfl, children, rebuilt⟩ := twins.children (by decide)
      obtain ⟨operand', rfl, first⟩ := children.exists_singleton
      have paired := below List.mem_cons_self List.mem_cons_self hoperand first
      refine mirrors_of_computed new new (.node_bind ?_)
      apply (mirrors_negation paired).mono
      exact fun _ x y met => computed_of_rebuilt rebuilt (by decide) met
    | @operator op _ left right new hleft hright =>
      obtain ⟨children', related, rfl, children, rebuilt⟩ := twins.children (by simp)
      obtain ⟨left', right', rfl, first, second⟩ := children.exists_pair
      have pairedLeft := below (by simp) (by simp) hleft first
      have pairedRight := below (by simp) (by simp) hright second
      refine mirrors_of_computed new new (.node_bind ?_)
      apply (mirrors_arithmetic op pairedLeft pairedRight).mono
      exact fun _ x y met => computed_of_rebuilt rebuilt ⟨rfl, by simp⟩ met
    | @comparison op _ left right new hleft hright =>
      obtain ⟨children', related, rfl, children, rebuilt⟩ := twins.children (by simp)
      obtain ⟨left', right', rfl, first, second⟩ := children.exists_pair
      have pairedLeft := below (by simp) (by simp) hleft first
      have pairedRight := below (by simp) (by simp) hright second
      refine mirrors_of_computed new new (.node_bind ?_)
      apply (mirrors_comparison pairedLeft pairedRight).mono
      exact fun _ x y met => computed_of_rebuilt rebuilt ⟨rfl, by simp⟩ met
    | @function _ arguments name new named harguments =>
      obtain ⟨children', related, rfl, children, rebuilt⟩ := twins.children (by decide)
      have paired := children.mono fun i c d hc hd twins => below (List.mem_of_getElem? hc)
        (List.mem_of_getElem? hd) (harguments c (List.mem_of_getElem? hc)) twins
      refine mirrors_of_computed new new (.node_bind ?_)
      apply (mirrors_function paired).mono
      exact fun _ x y met => computed_of_rebuilt rebuilt (by decide) met
    | group repeats new repeated hmembers => exact mirrors_ofGroup within twins new hmembers below

end

end

/-! ## Whole trees -/

/-- What is left of two interpretations of `tree`, in the second of which the group at `place` is
    written out, is the same except for the repeats of this group. -/
structure Outcome.SameExcept (n : Nat) (place : List Nat) (tree : Node)
    (outcome outcome' : Outcome) : Prop where
  tree : Node.SameExcept n place tree outcome.tree outcome'.tree
  total : outcome.total = outcome'.total
  successes : outcome.successes = outcome'.successes
  failures : outcome.failures = outcome'.failures
  problems : outcome.problems = outcome'.problems

/-- Two interpretations of `tree`, in the second of which the group at `place` is written out, come
    to the same fault, or to outcomes that are the same except for the repeats of this group, and in
    both cases to the same record. -/
inductive SameInterpretation (n : Nat) (place : List Nat) (tree : Node) :
    Except Fault Outcome × Record → Except Fault Outcome × Record → Prop where
  | ok {outcome outcome' : Outcome} {record : Record}
      (h : outcome.SameExcept n place tree outcome') :
      SameInterpretation n place tree (.ok outcome, record) (.ok outcome', record)
  | error {e : Fault} {record : Record} :
      SameInterpretation n place tree (.error e, record) (.error e, record)

/-- To repeat the members of a group is to write them out: a tree in which a group repeats its
    members `n` times, which the limits allow, and the tree in which they stand `n` times are
    interpreted with the same requests, problems and log, and come to the same fault or to the same
    total and marks.  The trees that are left differ in the attribute that tells how often the group
    was repeated; a group that was not evaluated is left as it is. -/
theorem interpret_writeOut {limits : Limits} {source : Source} {tree group : Node}
    {place : List Nat} {n : Nat} (h : tree.WellFormed) (unmarked : Everywhere Unmarked tree)
    (found : tree.at? place = some group) (kind : group.kind = .group)
    (times : group.get? "repeat" = some (.int n)) (within : ∀ limit ∈ limits.maxRolls, n ≤ limit)
    (record : Record) :
    SameInterpretation n place tree (interpret ⟨limits, .default, source⟩ tree record)
      (interpret ⟨limits, .default, source⟩ (tree.writeOut n place) record) := by
  -- Before it is evaluated, only a number has a value.
  have new : group.value? = none := by
    have written := (h.written group (Node.mem_preorder_of_at? found)).quiet
    rw [kind] at written
    simpa using written
  have twins : Twins n tree (tree.writeOut n place) (Node.SameExcept n place tree) :=
    .written found ⟨kind, new, times⟩
  -- Both runs start with as many levels as their trees are deep.
  have mirrors : Mirrors tree (tree.writeOut n place)
      (evaluateWithin ⟨limits, .default, source⟩ tree.depth)
      (evaluateWithin ⟨limits, .default, source⟩ (tree.writeOut n place).depth)
      (Twins.Evaluated tree (Node.SameExcept n place tree)) :=
    mirrors_evaluateWithin within twins h (Nat.le_refl _) (Nat.le_refl _)
  have both := mirrors.met { record with problems := #[] }
  rw [interpret_eq, interpret_eq]
  generalize evaluateWithin _ _ _ = result at both ⊢
  generalize evaluateWithin _ _ _ = result' at both ⊢
  cases both with
  -- The outcomes agree in the value and, with the marks counted alike, in the successes.
  | ok evaluated =>
    have same := evaluated.related
    exact .ok ⟨same, rfl, same.countP_eq true unmarked, same.countP_eq false unmarked, rfl⟩
  | error => exact .error

/-- Dice in a repeated group, in a repeated group on the left side of a comparison. -/
theorem interpret_writeOut_nested :
    let inner := (Expr.group [.roll (.literal 1) (.faces 6) [], .literal 2] (some 2)).toNode
    let tree := (Expr.compare .greater (.group [.group [.roll (.literal 1) (.faces 6) [],
      .literal 2] (some 2), .literal 3] (some 2)) (.literal 7)).toNode
    let limits : Limits := { maxRolls := some 2 }
    let source : Source := fun request _ => 6 - request
    tree.WellFormed ∧ Everywhere Unmarked tree ∧ tree.at? [0, 0] = some inner ∧
      inner.kind = .group ∧ inner.get? "repeat" = some (.int (2 : Nat)) ∧
      (∀ limit ∈ limits.maxRolls, 2 ≤ limit) ∧
      (interpret ⟨limits, .default, source⟩ tree {}).1.isOk = true ∧
      SameInterpretation 2 [0, 0] tree (interpret ⟨limits, .default, source⟩ tree {})
        (interpret ⟨limits, .default, source⟩ (tree.writeOut 2 [0, 0]) {}) := by
  intro inner tree limits source
  have wellFormed : tree.WellFormed := Expr.toNode_wellFormed _
  have unmarked : Everywhere Unmarked tree := Expr.unmarked_toNode _
  have within : ∀ limit ∈ limits.maxRolls, 2 ≤ limit := by
    rintro _ ⟨⟩
    decide
  have answered : (interpret ⟨limits, .default, source⟩ tree {}).1.isOk = true := by
    decide +kernel
  exact ⟨wellFormed, unmarked, rfl, rfl, rfl, within, answered,
    interpret_writeOut wellFormed unmarked rfl rfl rfl within {}⟩

/-- A group among two arguments of a function that takes one is not evaluated: what stands in it is
    left as it was written, once with one member and once with two. -/
theorem interpret_writeOut_unreached :
    let group := (Expr.group [.literal 1] (some 2)).toNode
    let tree := (Expr.call "abs" [.group [.literal 1] (some 2), .literal 3]).toNode
    let rules : Rules := ⟨{}, .default, fun _ faces => faces.low⟩
    parse "abs(\x7b1\x7d...2, 3)" = .ok ⟨tree, []⟩ ∧ tree.at? [0] = some group ∧
      ∃ outcome outcome' left right, (interpret rules tree {}).1 = .ok outcome ∧
        (interpret rules (tree.writeOut 2 [0]) {}).1 = .ok outcome' ∧
        outcome.tree.at? [0] = some left ∧ outcome'.tree.at? [0] = some right ∧
        left.unset "repeated" ≠ right.unset "repeated" := by
  intro group tree rules
  have read : parse "abs(\x7b1\x7d...2, 3)" = .ok ⟨tree, []⟩ := rfl
  -- Only the number of members of the group is computed from an outcome.
  have members (tree : Node) (k : Nat) (counted : (interpret rules tree {}).1.toOption.any
      (fun outcome => (outcome.tree.at? [0]).any fun node => node.childCount == k) = true) :
      ∃ outcome node, (interpret rules tree {}).1 = .ok outcome ∧
        outcome.tree.at? [0] = some node ∧ node.childCount = k := by
    cases finished : (interpret rules tree {}).1 with
    | error fault =>
      rw [finished] at counted
      cases counted
    | ok outcome =>
      rw [finished] at counted
      have held : (outcome.tree.at? [0]).any (fun node => node.childCount == k) = true := counted
      cases found : outcome.tree.at? [0] with
      | none =>
        rw [found] at held
        cases held
      | some node =>
        rw [found] at held
        exact ⟨outcome, node, rfl, found, beq_iff_eq.mp held⟩
  obtain ⟨outcome, left, finished, found, one⟩ := members tree 1 (by decide +kernel)
  obtain ⟨outcome', right, finished', found', two⟩ :=
    members (tree.writeOut 2 [0]) 2 (by decide +kernel)
  refine ⟨read, rfl, outcome, outcome', left, right, finished, finished', found, found', ?_⟩
  -- As many members as before, one and two of them.
  intro same
  have count : left.childCount = right.childCount :=
    congrArg (fun node => node.children.length) same
  omega

end DiceNotation
