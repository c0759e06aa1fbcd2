import DiceNotation.Proofs.Parsing.Language
import DiceNotation.Proofs.Range.Finite
import DiceNotation.Proofs.Trees.Consistency
import DiceNotation.Proofs.Trees.Problems

/-! # Where numbers overflow

The values of an expanded tree are proper, as a rule: integers, the marker of fate dice and finite
doubles that are no integers.  An operation that overflows is collected as a problem and counts
zero.  The sum of a group is not looked at in this way.  A group of finite numbers whose sum is not
finite (`Node.Overflows`) is the only place where an infinity or NaN comes from; negations,
functions and groups around it hand it on.

What holds of one node (`Sound`) is stated with the values of its children, so that it stays true
when an evaluation marks nodes or renews rolls.

* `Expands.sound`              by induction on how the tree was expanded
* `exists_overflows`           a value that is not finite comes from a group that overflows
* `interpret_proper`           parsed texts -/

namespace DiceNotation

open DiceNotation.Expr (Sides)
open Node (IsLiteral StandsOn Everywhere everywhere_iff)

/-! ## Proper values -/

/-- The marker of fate dice, or a number that is stored as it should be. -/
def Value.Proper (value : Value) : Prop :=
  value = .fate ∨ ∃ n : Number, value = .number n ∧ n.Proper

/-- An integer is proper. -/
private theorem Value.proper_int (n : Int) : Proper (.int n) := .inr ⟨.int n, rfl, trivial⟩

/-- The sides that are written are proper. -/
private theorem Expr.Sides.proper_toValue (sides : Sides) : sides.toValue.Proper := by
  cases sides with
  | fate => exact .inl rfl
  | faces n => exact Value.proper_int n

/-- An operation never comes to an infinity or NaN. -/
private theorem Operator.isUnbounded_outcome (op : Operator) (a b : Number) :
    (op.outcome a b).isUnbounded = false := by
  unfold outcome
  cases op.apply a b with
  | error e => rfl
  | ok n =>
    cases unbounded : n.isUnbounded with
    | true =>
      simp only [unbounded, if_true]
      rfl
    | false => simp only [unbounded, Bool.false_eq_true, if_false]

/-- A problem that is reported is collected, and the result is the one that is given. -/
private theorem reported {problem : Problem} {a b : Number} {trace trace' : Trace}
    (run : (do Sem.collect problem; return a : Sem Number) trace = .ok b trace') :
    b = a ∧ problem ∈ trace'.problems := by
  change EStateM.bind (Sem.collect problem) _ trace = _ at run
  unfold EStateM.bind Sem.collect at run
  by_cases writable : problem.isWritable
  · simp only [writable, if_true] at run
    cases run
    exact ⟨rfl, List.mem_append_right _ List.mem_cons_self⟩
  · simp only [writable] at run
    cases run

/-- What goes wrong with an operation is collected, and the operation counts zero. -/
private theorem reported_of_operate {op : Operator} {a b n : Number} {trace trace' : Trace}
    (applied : Sem.operate op a b trace = .ok n trace') {problem : Problem}
    (wrong : op.problem? a b = some problem) : n = 0 ∧ problem ∈ trace'.problems := by
  -- The problem is the one that the operation collects, together with the value zero.
  apply reported
  unfold Operator.problem? at wrong
  unfold Sem.operate at applied
  cases result : op.apply a b with
  | ok m =>
    simp only [result] at wrong applied
    cases unbounded : m.isUnbounded with
    | true =>
      simp only [unbounded, if_true] at wrong applied
      cases wrong
      exact applied
    | false => simp [unbounded] at wrong
  | error e =>
    simp only [result] at wrong applied
    cases e <;> cases wrong <;> exact applied

/-- The functions that are always there make no finite number infinite. -/
private theorem isUnbounded_function {name : String} {f : Number → Sem Number}
    (known : Sem.function? name = some f) {a n : Number} (h : a.isUnbounded = false)
    {trace trace' : Trace} (applied : f a trace = .ok n trace') : n.isUnbounded = false := by
  have integer {result : Except NumberError Int}
      (computed : (do return .int (← Sem.demand result) : Sem Number) trace = .ok n trace') :
      n.isUnbounded = false := by
    cases result with
    | ok i =>
      cases computed
      rfl
    | error e => cases computed
  -- The cases are those of the table; three of the functions round to an integer.
  unfold Sem.function? at known
  split at known <;> cases known
  · cases applied
    exact Number.isUnbounded_abs h
  · exact integer applied
  · exact integer applied
  · exact integer applied
  · unfold Sem.squareRoot at applied
    -- A negative radicand is reported and counts for zero.
    cases negative : a.lt 0 with
    | true =>
      simp only [negative, if_true] at applied
      rw [(reported applied).1]
      rfl
    | false =>
      simp only [negative, Bool.false_eq_true, if_false] at applied
      cases computed : a.sqrt with
      | ok root =>
        rw [computed] at applied
        cases applied
        exact Number.isUnbounded_sqrt h negative computed
      | error e =>
        rw [computed] at applied
        cases applied

namespace Node

variable {problems problems' : List Problem} {node roll : Node} {c : Condition}

/-- The value of the node, if it has one, is proper. -/
def HoldsProper (node : Node) : Prop := ∀ value, node.value? = some value → value.Proper

/-- The node has an infinity or NaN for its value. -/
def IsUnbounded (node : Node) : Prop :=
  ∃ n : Number, node.value? = some (.number n) ∧ n.isUnbounded = true

/-- A group of finite numbers with a sum that is not finite, which is its value. -/
inductive Overflows (group : Node) : Prop where
  | intro {numbers : List Number} {sum : Number} (kind : group.kind = .group)
      (holds : group.Holds numbers) (finite : ∀ n ∈ numbers, n.isUnbounded = false)
      (added : Number.sum numbers = .ok sum) (infinite : sum.isUnbounded = true)
      (stored : group.value? = some (.number sum.normalize))

/-- A group that overflows is unbounded. -/
private theorem Overflows.isUnbounded {group : Node} (h : group.Overflows) : group.IsUnbounded := by
  obtain ⟨-, -, -, -, infinite, stored⟩ := h
  refine ⟨_, stored, ?_⟩
  rw [Number.isUnbounded_normalize]
  exact infinite

/-- If the node is an operation that was evaluated and went wrong, the problem is collected and the
    value is zero. -/
def Reports (problems : List Problem) (node : Node) : Prop :=
  ∀ op, node.kind = .operator op → ∀ value, node.value? = some value →
    ∃ a b, node.Holds [a, b] ∧ ∀ problem, op.problem? a b = some problem →
      value = .int 0 ∧ problem ∈ problems

/-- The node sums up its members, or hands on a value that is not finite. -/
def Relays (node : Node) : Prop :=
  match node.kind with
  | .group => True
  | .negate | .function => ∃ child ∈ node.children, child.IsUnbounded
  | _ => False

/-- What an evaluation leaves of a node. -/
structure Sound (problems : List Problem) (node : Node) : Prop where
  bounded : node.HoldsProper ∨ node.IsUnbounded ∧ node.Relays
  reports : node.Reports problems

/-- A proper value is not unbounded. -/
private theorem not_isUnbounded_of_holdsProper (h : node.HoldsProper) : ¬ node.IsUnbounded := by
  intro unbounded
  obtain ⟨n, stored, infinite⟩ := unbounded
  rcases h _ stored with fate | ⟨m, same, proper⟩
  · cases fate
  · cases same
    rw [proper.bounded] at infinite
    cases infinite

/-- A number that a child holds is its value. -/
private theorem Holds.mem {numbers : List Number} (h : node.Holds numbers) {n : Number}
    (hn : n ∈ numbers) : ∃ child ∈ node.children, child.number? = some n := by
  have listed : some n ∈ node.children.map number? := by
    rw [h]
    exact List.mem_map_of_mem hn
  exact List.mem_map.mp listed

/-- A number that is not finite is stored as it is: everything else that counts as a number is an
    integer. -/
private theorem isUnbounded_of_number? {n : Number} (counts : node.number? = some n)
    (infinite : n.isUnbounded = true) : node.IsUnbounded := by
  unfold number? at counts
  obtain ⟨value, stored, same⟩ := Option.bind_eq_some_iff.mp counts
  cases value with
  | number m =>
    cases same
    exact ⟨n, stored, infinite⟩
  | truth b =>
    cases same
    cases infinite
  | text _ => cases same
  | nothing => cases same

/-- A value that is not finite comes from a group that overflows. -/
theorem exists_overflows {root : Node} (h : Everywhere (Sound problems) root)
    (consistent : Everywhere Consistent root) (unbounded : root.IsUnbounded) :
    ∃ group ∈ root.preorder, group.Overflows := by
  induction root using induct with
  | node kind attributes children ih =>
    by_cases found : ∃ child ∈ children, child.IsUnbounded
    · -- A child that is not finite has a group within that overflows.
      obtain ⟨child, hchild, infinite⟩ := found
      obtain ⟨group, inside, overflows⟩ :=
        ih child hchild (h.child hchild) (consistent.child hchild) infinite
      exact ⟨group, mem_preorder.mpr (.inr ⟨child, hchild, inside⟩), overflows⟩
    · rcases h.here.bounded with proper | ⟨-, relays⟩
      · exact absurd unbounded (not_isUnbounded_of_holdsProper proper)
      · -- Nothing is handed on here, so this is a group itself.
        have isGroup : kind = .group := by
          unfold Relays at relays
          cases kind with
          | group => rfl
          | negate => exact absurd relays found
          | function => exact absurd relays found
          | _ => cases relays
        subst isGroup
        obtain ⟨n, stored, infinite⟩ := unbounded
        obtain ⟨numbers, sum, holds, added, same⟩ := consistent.here.agrees _ stored
        cases same
        rw [Number.isUnbounded_normalize] at infinite
        refine ⟨_, self_mem_preorder _, .intro rfl holds (fun m hm => ?_) added infinite stored⟩
        obtain ⟨child, hchild, counts⟩ := holds.mem hm
        by_contra large
        rw [Bool.not_eq_false] at large
        exact found ⟨child, hchild, isUnbounded_of_number? counts large⟩

/-! ## What keeps nodes sound -/

/-- A sound node is sound when more problems are collected. -/
theorem Sound.mono (h : node.Sound problems) (more : problems ⊆ problems') :
    node.Sound problems' where
  bounded := h.bounded
  reports op kind value stored := by
    obtain ⟨a, b, holds, reported⟩ := h.reports op kind value stored
    refine ⟨a, b, holds, fun problem wrong => ?_⟩
    obtain ⟨zero, collected⟩ := reported problem wrong
    exact ⟨zero, more collected⟩

/-- A mark leaves the node sound. -/
private theorem Sound.mark (h : node.Sound problems) : (c.mark node).Sound problems where
  bounded := by
    unfold HoldsProper IsUnbounded
    rw [value?_mark]
    exact h.bounded
  reports op kind value stored := by
    rw [value?_mark] at stored
    exact h.reports op kind value stored

/-- A node without a value is sound. -/
private theorem sound_new (new : node.value? = none) : node.Sound problems where
  bounded := by
    left
    intro value stored
    rw [new] at stored
    cases stored
  reports op kind value stored := by
    rw [new] at stored
    cases stored

/-- A node with a proper value that is no operation is sound. -/
private theorem sound_of_proper (plain : ∀ op, node.kind ≠ .operator op) (h : node.HoldsProper) :
    node.Sound problems where
  bounded := .inl h
  reports op kind := absurd kind (plain op)

/-- A node that holds a given proper value and is no operation is sound. -/
private theorem sound_of_value {value : Value} (plain : ∀ op, node.kind ≠ .operator op)
    (stored : node.value? = some value) (proper : value.Proper) : node.Sound problems := by
  apply sound_of_proper plain
  intro other stored'
  rw [stored] at stored'
  cases stored'
  exact proper

/-- Any value is proper or not finite when it was stored; in the second case it has to come from
    somewhere. -/
private theorem bounded_store {n : Number} (h : n.isUnbounded = true → node.Relays) :
    (node.store n).HoldsProper ∨ (node.store n).IsUnbounded ∧ (node.store n).Relays := by
  -- A number that is stored is proper or infinite, and nothing else.
  cases unbounded : n.isUnbounded with
  | false =>
    left
    intro value stored
    rw [value?_store] at stored
    cases stored
    exact .inr ⟨_, rfl, Number.proper_normalize unbounded⟩
  | true =>
    right
    refine ⟨⟨_, value?_store node n, ?_⟩, h unbounded⟩
    rw [Number.isUnbounded_normalize]
    exact unbounded

/-- A node with a stored number is sound if it relays what is unbounded. -/
private theorem sound_store {n : Number} (plain : ∀ op, node.kind ≠ .operator op)
    (h : n.isUnbounded = true → node.Relays) : (node.store n).Sound problems where
  bounded := bounded_store h
  reports op kind := absurd kind (plain op)

/-- A node with a stored integer is sound. -/
private theorem sound_store_int (plain : ∀ op, node.kind ≠ .operator op) (n : Int) :
    (node.store (.int n)).Sound problems := by
  apply sound_store plain
  intro infinite
  cases infinite

/-! ## Parts that were not evaluated -/

/-- A node is sound before its evaluation. -/
private theorem Unevaluated.sound (h : node.Unevaluated) : node.Sound problems := by
  cases h with
  | literal h =>
    obtain ⟨n, stored⟩ := h
    exact sound_of_value nofun stored (Value.proper_int n)
  | sides h =>
    obtain ⟨sides, stored⟩ := h
    exact sound_of_value nofun stored sides.proper_toValue
  | new _ new => exact sound_new new

/-- A tree is sound before its evaluation. -/
private theorem everywhere_sound_of_unevaluated (h : Everywhere Unevaluated node) :
    Everywhere (Sound problems) node :=
  h.mono fun _ => Unevaluated.sound

/-! ## Rolls and targets -/

/-- A roll that was thrown is sound, and so are its dice. -/
private theorem IsThrown.sound (h : roll.IsThrown) (kind : roll.kind = .dice) :
    Everywhere (Sound problems) roll := by
  rw [everywhere_iff]
  constructor
  · apply sound_of_value _ h.value (Value.proper_int _)
    intro op isOperator
    rw [kind] at isOperator
    cases isOperator
  · intro die hdie
    -- The dice hold integers and have nothing below them.
    have isDiceRoll := h.dice die hdie
    rw [everywhere_iff, isDiceRoll.leaf]
    refine ⟨sound_of_value ?_ isDiceRoll.face.value? (Value.proper_int _), nofun⟩
    intro op isOperator
    rw [isDiceRoll.kind] at isOperator
    cases isOperator

/-- Another roll can be put below modifiers if it is sound: their values are not looked at. -/
private theorem StandsOn.everywhere_sound {other : Node} (stands : StandsOn roll node)
    (h : Everywhere (Sound problems) node) (inside : Everywhere (Sound problems) other) :
    Everywhere (Sound problems) (node.replaceDice other) := by
  apply stands.everywhere _ h inside
  intro m attributes operand operand' rest _ sound
  apply sound_of_proper
  · exact nofun
  rcases sound.bounded with proper | ⟨-, relays⟩
  · exact proper
  · cases relays

/-- Marking the targets of a comparison leaves the left side sound. -/
private theorem everywhere_sound_mapTargets (h : Everywhere (Sound problems) node)
    (rolls : node.kind.isRoll = true → ∃ roll, StandsOn roll node)
    (thrown : ∀ {roll}, StandsOn roll node → roll.IsThrown) (c : Condition) :
    Everywhere (Sound problems) (node.mapTargets c.mark) := by
  rcases target_cases rolls with ⟨roll, stands⟩ | isGroup | ⟨plain, single⟩
  · rw [mapTargets_of_standsOn stands]
    exact stands.everywhere_sound h (((thrown stands).markLive c).sound stands.kind)
  · rw [mapTargets_of_group isGroup, everywhere_iff]
    constructor
    · -- What is said of a group does not depend on its members.
      constructor
      · have bounded := h.here.bounded
        unfold Relays at bounded ⊢
        rw [isGroup] at bounded
        rw [show (node.withChildren _).kind = node.kind from rfl, isGroup]
        exact bounded
      · intro op isOperator
        rw [show (node.withChildren _).kind = node.kind from rfl, isGroup] at isOperator
        cases isOperator
    · intro child hchild
      -- Marks do not change the numbers of the members.
      obtain ⟨member, hmember, rfl⟩ := List.mem_map.mp hchild
      have inside := h.child hmember
      exact everywhere_iff.mpr ⟨inside.here.mark, fun _ => inside.child⟩
  · rw [mapTargets_of_single plain single]
    exact everywhere_iff.mpr ⟨h.here.mark, fun _ => h.child⟩

end Node

/-! ## Expanded trees -/

section

open Node (Sound sound_store sound_store_int bounded_store)

variable {limits : Limits} {source : Source}

/-- Every node of an expanded tree is sound. -/
theorem Expands.sound {before after : Node} {n : Number} {trace trace' : Trace}
    (h : Expands limits source before trace after n trace') :
    Everywhere (Sound trace'.problems) after := by
  induction h with
  | literal stored =>
    exact Node.everywhere_sound_of_unevaluated (IsLiteral.intro _ stored).unevaluated
  | @negate attributes operand operand' a _ _ h ih =>
    rw [everywhere_iff]
    refine ⟨sound_store (by simp) fun infinite => ?_, List.forall_mem_singleton.mpr ih⟩
    refine ⟨operand', List.mem_singleton_self _, a, h.stored, ?_⟩
    -- The negation of a finite number is finite.
    by_contra finite
    rw [Bool.not_eq_true] at finite
    rw [Number.isUnbounded_negate finite] at infinite
    cases infinite
  | @operator op attributes left left' right right' a b n _ _ _ _ hleft hright applied ih ih' =>
    -- Problems are only added, so what was sound of the operands stays so.
    have later := (Sem.Keeps.operate op a b).subset applied
    have both := List.Subset.trans hright.problems_subset later
    rw [everywhere_iff]
    refine ⟨⟨bounded_store fun infinite => ?_, fun other same value stored => ?_⟩,
      List.forall_mem_cons.mpr ⟨ih.mono fun _ sound => sound.mono both,
        List.forall_mem_singleton.mpr (ih'.mono fun _ sound => sound.mono later)⟩⟩
    · rw [outcome_of_operate applied, Operator.isUnbounded_outcome] at infinite
      cases infinite
    · cases same
      rw [Node.value?_store] at stored
      cases stored
      refine ⟨a, b, ?_, fun problem wrong => ?_⟩
      · simp [Node.Holds, hleft.number?_eq, hright.number?_eq]
      · obtain ⟨rfl, collected⟩ := reported_of_operate applied wrong
        exact ⟨rfl, collected⟩
  | untested _ _ hright ih =>
    rw [everywhere_iff]
    refine ⟨sound_store_int (by simp) _,
      List.forall_mem_cons.mpr ⟨ih, List.forall_mem_singleton.mpr ?_⟩⟩
    exact Node.everywhere_sound_of_unevaluated hright.unevaluated
  | tested hleft _ _ hright _ ih ih' =>
    -- What is collected later leaves the left side sound.
    have kept := ih.mono fun _ sound => sound.mono hright.problems_subset
    have marked := Node.everywhere_sound_mapTargets kept hleft.exists_standsOn hleft.isThrown
    rw [everywhere_iff]
    exact ⟨sound_store_int (by simp) _,
      List.forall_mem_cons.mpr ⟨marked _, List.forall_mem_singleton.mpr ih'⟩⟩
  | @call attributes name f argument argument' a n _ _ _ _ known h applied ih =>
    have kept := ih.mono fun _ sound => sound.mono ((Sem.Keeps.function known a).subset applied)
    rw [everywhere_iff]
    refine ⟨sound_store (by simp) fun infinite => ?_, List.forall_mem_singleton.mpr kept⟩
    refine ⟨argument', List.mem_singleton_self _, a, h.stored, ?_⟩
    by_contra finite
    rw [Bool.not_eq_true] at finite
    rw [isUnbounded_function known finite applied] at infinite
    cases infinite
  | miscall _ _ _ harguments _ =>
    rw [everywhere_iff]
    exact ⟨sound_store_int (by simp) _, fun argument hargument =>
      Node.everywhere_sound_of_unevaluated (harguments argument hargument).unevaluated⟩
  | @group group unfolded visits sum _ _ _ kind unfolds _ linked h _ ih =>
    have isGroup : (unfolded.withChildren (visits.map Visit.after)).kind = .group :=
      unfolds.kind.trans kind
    have kept := (linked.problems_subset fun visit hvisit => (h visit hvisit).problems_subset).2
    rw [everywhere_iff]
    constructor
    · apply sound_store
      · intro op isOperator
        rw [isGroup] at isOperator
        cases isOperator
      · intro _
        unfold Node.Relays
        rw [isGroup]
        trivial
    · intro child hchild
      obtain ⟨visit, hvisit, rfl⟩ := List.mem_map.mp hchild
      exact (ih visit hvisit).mono fun _ sound => sound.mono (kept visit hvisit)
  | roll _ _ _ _ _ _ threw _ =>
    exact (Node.isThrown_thrown (isDiceRoll_of_throwDice threw)).sound rfl
  | @modifier m attributes operand operand' roll argument dice _ _ _ _ h stands hargument alters
      ih =>
    have thrown : (roll.renewed dice).IsThrown :=
      (h.isThrown stands).renewed (alters.kept kept_isDiceRoll (h.isThrown stands).dice)
    have kept := ih.mono fun _ sound => sound.mono alters.problems_subset
    rw [everywhere_iff]
    refine ⟨sound_store_int (by simp) _, List.forall_mem_cons.mpr
      ⟨stands.everywhere_sound kept (thrown.sound stands.kind), fun node hnode => ?_⟩⟩
    exact Node.everywhere_sound_of_unevaluated (hargument.unevaluated node hnode)

/-- Interpreting a text leaves proper values on all nodes exactly if no group overflows.  A value
    that is not proper is an infinity or NaN, and a group within overflows.  Operations that go
    wrong, those that overflow among them, count zero and are collected as problems. -/
theorem interpret_proper {text : String} {root : Node} (parsed : parse text = .ok ⟨root, []⟩)
    {record : Record} {outcome : Outcome}
    (finished : (interpret ⟨limits, .default, source⟩ root record).1 = .ok outcome) :
    outcome.tree.value? = some outcome.total ∧
      (Everywhere Node.HoldsProper outcome.tree ↔
        Everywhere (fun node => ¬ node.Overflows) outcome.tree) ∧
      Everywhere (fun node => node.HoldsProper ∨
        node.IsUnbounded ∧ ∃ group ∈ node.preorder, group.Overflows) outcome.tree ∧
      Everywhere (Node.Reports outcome.problems) outcome.tree := by
  obtain ⟨e, rfl, -⟩ := accepts_of_parse parsed
  obtain ⟨n, total, expands⟩ := interpret_expands e.toNode_wellFormed (Prod.ext finished rfl)
  have sound : Everywhere (Sound outcome.problems) outcome.tree := expands.sound
  have consistent := expands.selfConsistent.everywhere
  -- An infinite number comes from a group below that has overflowed.
  have traced : Everywhere (fun node => node.HoldsProper ∨
      node.IsUnbounded ∧ ∃ group ∈ node.preorder, group.Overflows) outcome.tree := by
    intro node inside
    rcases (sound node inside).bounded with proper | ⟨unbounded, -⟩
    · exact .inl proper
    · right
      have within {P : Node → Prop} (h : Everywhere P outcome.tree) : Everywhere P node :=
        fun other below => h other (Node.mem_preorder_trans below inside)
      exact ⟨unbounded, Node.exists_overflows (within sound) (within consistent) unbounded⟩
  refine ⟨total ▸ expands.stored,
    ⟨fun proper node inside overflows => ?_, fun none node inside => ?_⟩, traced,
    sound.mono fun _ sound => sound.reports⟩
  · exact Node.not_isUnbounded_of_holdsProper (proper node inside) overflows.isUnbounded
  · rcases traced node inside with proper | ⟨-, group, below, overflows⟩
    · exact proper
    · exact absurd overflows (none group (Node.mem_preorder_trans below inside))

/-- A group with a fraction, and with an operation that overflows. -/
theorem interpret_proper_fraction :
    let huge := Expr.binary .multiply
      (.binary .multiply (.binary .exponent (.literal 2) (.literal 970))
        (.binary .exponent (.literal 2) (.literal 53))) (.binary .divide (.literal 5) (.literal 2))
    let root := (Expr.group [.binary .divide (.literal 1) (.literal 2), huge] none).toNode
    parse "{1/2, 2**970*2**53*(5/2)}" = .ok ⟨root, []⟩ ∧
      ∃ outcome, (interpret ⟨{}, .default, fun _ faces => faces.low⟩ root {}).1 = .ok outcome ∧
        outcome.tree.value? = some outcome.total ∧
        (Everywhere Node.HoldsProper outcome.tree ↔
          Everywhere (fun node => ¬ node.Overflows) outcome.tree) ∧
        Everywhere (fun node => node.HoldsProper ∨
          node.IsUnbounded ∧ ∃ group ∈ node.preorder, group.Overflows) outcome.tree ∧
        Everywhere (Node.Reports outcome.problems) outcome.tree := by
  intro huge root
  have read : parse "{1/2, 2**970*2**53*(5/2)}" = .ok ⟨root, []⟩ := rfl
  obtain ⟨outcome, record', finished⟩ := exists_outcome (show
    (interpret ⟨{}, .default, fun _ faces => faces.low⟩ root {}).1.isOk = true by decide +kernel)
  have answered : (interpret ⟨{}, .default, fun _ faces => faces.low⟩ root {}).1 = .ok outcome := by
    rw [finished]
  exact ⟨read, outcome, answered, interpret_proper read answered⟩

/-- The sum of a half and two great powers of two is infinite, and nothing is collected. -/
theorem group_sum_overflows :
    let great := Expr.binary .multiply (.binary .exponent (.literal 2) (.literal 970))
      (.binary .exponent (.literal 2) (.literal 53))
    let root := (Expr.group [.binary .divide (.literal 1) (.literal 2), great, great] none).toNode
    parse "{1/2, 2**970*2**53, 2**970*2**53}" = .ok ⟨root, []⟩ ∧
      ∃ outcome, (interpret ⟨{}, .default, fun _ faces => faces.low⟩ root {}).1 = .ok outcome ∧
        outcome.problems = [] ∧ ¬ outcome.total.Proper := by
  intro great root
  refine ⟨rfl, ?_⟩
  -- One run shows both: no problem is collected, and the total is infinite.
  have computed : ((interpret ⟨{}, .default, fun _ faces => faces.low⟩ root {}).1.toOption.map
      fun outcome => (outcome.problems.length, outcome.total.number?.map Number.isUnbounded)) =
        some (0, some true) := by decide +kernel
  generalize (interpret ⟨{}, .default, fun _ faces => faces.low⟩ root {}).1 = result at computed
  cases result with
  | error e => cases computed
  | ok outcome =>
    obtain ⟨none, infinite⟩ := Prod.mk.inj (Option.some.inj computed)
    refine ⟨outcome, rfl, List.length_eq_zero_iff.mp none, fun proper => ?_⟩
    rcases proper with fate | ⟨n, same, finite⟩
    · rw [fate] at infinite
      cases infinite
    · rw [same] at infinite
      have unbounded : n.isUnbounded = true := Option.some.inj infinite
      rw [finite.bounded] at unbounded
      cases unbounded

end

end DiceNotation
