import DiceNotation.Proofs.Memory.Realization
import DiceNotation.Proofs.Printing.Legible
import DiceNotation.Proofs.Trees.Preorder

/-! # What evaluations make of a tree

Evaluating nodes of a tree here and there stores values on them, puts copies of the members in the
place of those of a repeated group, and marks the targets of comparisons.  For an expression without
dice this is all that can happen: `Evolved limits source e node` says of a node that evaluations
have made it of the tree of `e`.  Each value that is stored is the one that the expression means
(`Recalls`), in whatever order the nodes have been evaluated.

* `Evolved.recalls`       a stored value is what the expression means
* `Evolved.child`         a child may evolve further
* `Evolved.mapTargets`    targets may be marked
* `evolved_toNode`        the tree of an expression has evolved from itself -/

namespace DiceNotation

open DiceNotation.Expr (Sides Step Writable)

/-- The node has kept its value, if it had one. -/
def Node.Keeps (node node' : Node) : Prop :=
  ∀ value, node.value? = some value → node'.value? = some value

/-- The members of a group as often as it is repeated; none if that is more than allowed. -/
def Limits.copies (limits : Limits) (repeats : Option Nat) (members : List α) : List α :=
  if ∀ times ∈ repeats, ∀ limit ∈ limits.maxRolls, times ≤ limit then
    (List.replicate (repeats.getD 1) members).flatten
  else []

/-- The copies of members are members. -/
theorem Limits.mem_copies {limits : Limits} {repeats : Option Nat} {members : List α} {a : α}
    (h : a ∈ limits.copies repeats members) : a ∈ members := by
  unfold Limits.copies at h
  split at h
  · obtain ⟨pass, hpass, ha⟩ := List.mem_flatten.mp h
    rwa [List.eq_of_mem_replicate hpass] at ha
  · exact absurd h List.not_mem_nil

/-- A group without repeats has its members once. -/
theorem Limits.copies_none (limits : Limits) (members : List α) :
    limits.copies none members = members := by
  unfold Limits.copies
  rw [if_pos fun _ h => absurd h (Option.not_mem_none _), Option.getD_none, List.replicate_one,
    List.flatten_singleton]

section

variable (limits : Limits) (source : Source)

/-- The value on the node, if there is one, is what the expression means, whatever was observed
    before. -/
def Recalls (e : Expr) (node : Node) : Prop :=
  ∀ value, node.value? = some value → ∀ trace, ∃ m trace',
    meaning limits source e trace = .ok m trace' ∧ Evaluated value node m

/-- The kind and the attributes of an evolved node, and what its children have evolved from.  A
    group has been expanded as soon as its repeats are forgotten. -/
inductive Stage : Expr → NodeKind → OrderedMap Value → List Expr → Prop where
  | literal {n : Nat} {attributes : OrderedMap Value} (valued : attributes.get? "value" ≠ none) :
      Stage (.literal n) .integer attributes []
  | negate {operand : Expr} {attributes : OrderedMap Value} :
      Stage (.negate operand) .negate attributes [operand]
  | binary {op : Operator} {left right : Expr} {attributes : OrderedMap Value} :
      Stage (.binary op left right) (.operator op) attributes [left, right]
  | compare {op : Comparison} {left right : Expr} {attributes : OrderedMap Value} :
      Stage (.compare op left right) (.comparison op) attributes [left, right]
  | call {name : String} {arguments : List Expr} {attributes : OrderedMap Value}
      (named : attributes.get? "name" = some (.text name)) :
      Stage (.call name arguments) .function attributes arguments
  | group {members : List Expr} {repeats : Option Nat} {attributes : OrderedMap Value}
      (given : attributes.get? "repeat" = repeats.map fun n : Nat => Value.int n)
      (small : ∀ n ∈ repeats, Writable n) :
      Stage (.group members repeats) .group attributes members
  | expanded {members : List Expr} {repeats : Option Nat} {attributes : OrderedMap Value}
      (forgotten : attributes.get? "repeat" = none) (small : ∀ n ∈ repeats, Writable n) :
      Stage (.group members repeats) .group attributes (limits.copies repeats members)

/-- Evaluations have made the node of the tree of the expression. -/
inductive Evolved : Expr → Node → Prop where
  | intro {e : Expr} {kind : NodeKind} {attributes : OrderedMap Value} {children : List Node}
      {parts : List Expr} (recalls : Recalls limits source e ⟨kind, attributes, children⟩)
      (stage : Stage limits e kind attributes parts) (all : List.Forall₂ Evolved parts children) :
      Evolved e ⟨kind, attributes, children⟩

end

section

variable {limits : Limits} {source : Source} {e : Expr} {node node' : Node} {value : Value}
  {m : Meaning}

/-! ## Nodes that show the same -/

/-- A node stays evaluated if its value and the values of its targets stay. -/
private theorem Evaluated.frame (h : Evaluated value node m) (same : node'.value? = node.value?)
    (targets : ∀ shown, node.targets? = some shown → ∃ shown', node'.targets? = some shown' ∧
      shown'.map Node.value? = shown.map Node.value?) : Evaluated value node' m := by
  obtain ⟨hvalue, stored, shown, found, values⟩ := h
  obtain ⟨shown', found', same'⟩ := targets shown found
  exact ⟨hvalue, same.trans stored, shown', found', same'.trans values⟩

/-- A value is kept where all children that have values keep them. -/
private theorem Evaluated.withChildren {children' : List Node} (plain : node.kind.isRoll = false)
    (keeps : List.Forall₂ Node.Keeps node.children children') (h : Evaluated value node m) :
    Evaluated value (node.withChildren children') m := by
  obtain ⟨hvalue, stored, shown, found, values⟩ := h
  -- Only a group is targeted at its members; any other node is its own target.
  by_cases group : node.kind = .group
  · obtain rfl := Option.some.inj ((Node.targets?_of_group group).symm.trans found)
    refine ⟨hvalue, stored, children', Node.targets?_of_group group, ?_⟩
    -- All members of an evaluated group have values.
    generalize node.children = children at keeps values
    generalize m.targets = numbers at values ⊢
    induction keeps generalizing numbers with
    | nil => exact values
    | cons kept _ ih =>
      cases numbers with
      | nil => cases values
      | cons n numbers =>
        obtain ⟨first, others⟩ := List.cons.inj values
        rw [List.map_cons, List.map_cons, kept _ first, ih _ others]
  · obtain rfl := Option.some.inj ((Node.targets?_of_single plain group).symm.trans found)
    exact ⟨hvalue, stored, _, Node.targets?_of_single plain group, values⟩

/-- An attribute other than the value is set. -/
private theorem Evaluated.set {key : String} {mark : Value} (plain : node.kind.isRoll = false)
    (other : key ≠ "value") (h : Evaluated value node m) :
    Evaluated value (node.set key mark) m := by
  have same : (node.set key mark).value? = node.value? := by
    unfold Node.value?
    rw [Node.get?_set, if_neg other.symm]
  apply h.frame same
  intro shown found
  -- The targets of a group are its members; those of any other node here are the node itself.
  by_cases group : node.kind = .group
  · have members : (node.set key mark).targets? = some node.children :=
      Node.targets?_of_group group
    rw [Node.targets?_of_group group] at found
    exact ⟨shown, members.trans found, rfl⟩
  · obtain rfl := Option.some.inj ((Node.targets?_of_single plain group).symm.trans found)
    refine ⟨_, Node.targets?_of_single plain group, ?_⟩
    rw [List.map_singleton, List.map_singleton, same]

/-! ## Values that are stored -/

/-- A node without a value has nothing to recall. -/
theorem recalls_of_new (new : node.value? = none) : Recalls limits source e node := by
  intro value stored
  rw [new] at stored
  cases stored

/-- A node goes on recalling its expression if its value stays. -/
private theorem Recalls.frame (h : Recalls limits source e node) (same : node'.value? = node.value?)
    (evaluated : ∀ value m, Evaluated value node m → Evaluated value node' m) :
    Recalls limits source e node' := by
  intro value stored trace
  rw [same] at stored
  obtain ⟨m, trace', meant, known⟩ := h value stored trace
  exact ⟨m, trace', meant, evaluated value m known⟩

/-- A node goes on recalling its expression if its children keep their values. -/
private theorem Recalls.withChildren {children' : List Node} (plain : node.kind.isRoll = false)
    (keeps : List.Forall₂ Node.Keeps node.children children') (h : Recalls limits source e node) :
    Recalls limits source e (node.withChildren children') :=
  h.frame rfl fun _ _ evaluated => evaluated.withChildren plain keeps

/-! ## How a tree evolves -/

/-- No stage of a node is a roll or a modifier. -/
private theorem Stage.plain {kind : NodeKind} {attributes : OrderedMap Value} {parts : List Expr}
    (h : Stage limits e kind attributes parts) : kind.isRoll = false := by
  cases h <;> rfl

/-- An attribute is set that is neither a name nor repeats. -/
private theorem Stage.insert {kind : NodeKind} {attributes : OrderedMap Value} {parts : List Expr}
    (h : Stage limits e kind attributes parts) {key : String}
    (other : key ≠ "name" ∧ key ≠ "repeat") (value : Value) :
    Stage limits e kind (attributes.insert key value) parts := by
  have kept {name : String} (ne : key ≠ name) :
      (attributes.insert key value).get? name = attributes.get? name := by
    rw [OrderedMap.get?_insert, if_neg ne.symm]
  -- Only a call and a group look at an attribute, and these are the two that are not written.
  cases h with
  | literal valued =>
    apply Stage.literal
    rw [OrderedMap.get?_insert]
    split
    · exact Option.some_ne_none value
    · exact valued
  | negate => exact .negate
  | binary => exact .binary
  | compare => exact .compare
  | call named => exact .call ((kept other.1).trans named)
  | group given small => exact .group ((kept other.2).trans given) small
  | expanded forgotten small => exact .expanded ((kept other.2).trans forgotten) small

namespace Evolved

/-- An evolved node recalls its expression. -/
theorem recalls (h : Evolved limits source e node) : Recalls limits source e node := by
  cases h
  assumption

/-- An evolved node is neither a roll nor a modifier. -/
theorem plain (h : Evolved limits source e node) : node.kind.isRoll = false := by
  cases h with
  | intro _ stage _ => exact stage.plain

/-- An evolved node can get other attributes, except a name or repeats. -/
theorem set {key : String} {value : Value} (h : Evolved limits source e node)
    (other : key ≠ "name" ∧ key ≠ "repeat")
    (recalls : Recalls limits source e (node.set key value)) :
    Evolved limits source e (node.set key value) := by
  cases h with
  | intro _ stage all => exact .intro recalls (stage.insert other value) all

/-- Other children take the place of all children. -/
theorem withChildren {children' : List Node} (h : Evolved limits source e node)
    (keeps : List.Forall₂ Node.Keeps node.children children')
    (further : ∀ parts, List.Forall₂ (Evolved limits source) parts node.children →
      List.Forall₂ (Evolved limits source) parts children') :
    Evolved limits source e (node.withChildren children') := by
  have recalls := h.recalls.withChildren h.plain keeps
  cases h with
  | intro _ stage all => exact .intro recalls stage (further _ all)

/-- A node is marked as a success or a failure. -/
theorem mark (h : Evolved limits source e node) (c : Condition) :
    Evolved limits source e (c.mark node) := by
  unfold Condition.mark
  apply h.set (by decide)
  apply h.recalls.frame
  · unfold Node.value?
    rw [Node.get?_set, if_neg (by decide)]
  · exact fun _ _ evaluated => evaluated.set h.plain (by decide)

/-- A node that is marked keeps its value. -/
theorem keeps_mark (c : Condition) : node.Keeps (c.mark node) := by
  intro value stored
  unfold Condition.mark Node.value?
  rw [Node.get?_set, if_neg (by decide)]
  exact stored

/-- The targets of a comparison are marked. -/
theorem mapTargets (h : Evolved limits source e node) (c : Condition) :
    Evolved limits source e (node.mapTargets c.mark) := by
  by_cases group : node.kind = .group
  · rw [Node.mapTargets_of_group group]
    apply h.withChildren
    · rw [List.forall₂_map_right_iff, List.forall₂_same]
      exact fun _ _ => keeps_mark c
    · intro parts all
      rw [List.forall₂_map_right_iff]
      exact all.imp fun _ _ part => part.mark c
  · rw [Node.mapTargets_of_single h.plain group]
    exact h.mark c

/-- Children keep their values if the one that is replaced does. -/
theorem keeps_set {nodes : List Node} {i : Nat} {child child' : Node}
    (hchild : nodes[i]? = some child) (keeps : child.Keeps child') :
    List.Forall₂ Node.Keeps nodes (nodes.set i child') := by
  induction nodes generalizing i with
  | nil => cases hchild
  | cons node nodes ih =>
    cases i with
    | zero =>
      obtain rfl := Option.some.inj hchild
      exact .cons keeps (List.forall₂_same.mpr fun _ _ _ stored => stored)
    | succ i => exact .cons (fun _ stored => stored) (ih hchild)

/-- One of several nodes has evolved as well, and may evolve further. -/
theorem exists_child {parts : List Expr} {nodes : List Node} {i : Nat} {child : Node}
    (h : List.Forall₂ (Evolved limits source) parts nodes) (hchild : nodes[i]? = some child) :
    ∃ e, Evolved limits source e child ∧ ∀ child', Evolved limits source e child' →
      List.Forall₂ (Evolved limits source) parts (nodes.set i child') := by
  induction h generalizing i with
  | nil => cases hchild
  | @cons first node _ _ hfirst rest ih =>
    cases i with
    | zero =>
      obtain rfl := Option.some.inj hchild
      exact ⟨first, hfirst, fun _ evolved => .cons evolved rest⟩
    | succ i =>
      obtain ⟨e, evolved, further⟩ := ih hchild
      exact ⟨e, evolved, fun child' evolved' => .cons hfirst (further child' evolved')⟩

/-- A child has evolved as well, and may evolve further. -/
theorem child (h : Evolved limits source e node) {i : Nat} {child : Node}
    (hchild : node.children[i]? = some child) :
    ∃ e', Evolved limits source e' child ∧ ∀ child', Evolved limits source e' child' →
      child.Keeps child' → Evolved limits source e (node.setChild i child') := by
  have plain := h.plain
  cases h with
  | intro recalls stage all =>
    obtain ⟨e', evolved, further⟩ := exists_child all hchild
    refine ⟨e', evolved, fun child' evolved' keeps => ?_⟩
    exact .intro (recalls.withChildren plain (keeps_set hchild keeps)) stage
      (further child' evolved')

end Evolved

/-! ## Trees without dice -/

/-- There are dice below the modifiers of a roll. -/
private theorem Expr.exists_dice (count : Node) (sides : Sides) (steps : List Step) :
    ∃ n ∈ (Expr.modified (Expr.plainRoll count sides) steps).preorder, n.kind = .dice := by
  induction steps using List.reverseRecOn with
  | nil => exact ⟨_, Node.self_mem_preorder _, rfl⟩
  | append_singleton steps step ih =>
    obtain ⟨n, below, kind⟩ := ih
    rw [Expr.modified_append]
    exact ⟨n, Node.mem_preorder_trans below (Node.child_mem_preorder List.mem_cons_self), kind⟩

/-- A literal recalls itself. -/
private theorem recalls_literal (n : Nat) : Recalls limits source (.literal n) (.integer n) := by
  intro value stored trace
  obtain rfl : Value.int n = value := Option.some.inj stored
  refine ⟨.single (.int n), trace, ?_, rfl, rfl, [.integer n], rfl, rfl⟩
  rw [meaning]
  rfl

/-- The tree of an expression, if there are no dice in it, has evolved from itself. -/
theorem evolved_toNode (legible : e.Legible)
    (noDice : e.toNode.Everywhere fun node => node.kind ≠ .dice) :
    Evolved limits source e e.toNode := by
  have several {es : List Expr} (h : ∀ e ∈ es, Evolved limits source e e.toNode) :
      List.Forall₂ (Evolved limits source) es (es.map Expr.toNode) := by
    rw [List.forall₂_map_right_iff, List.forall₂_same]
    exact h
  -- There are no dice in the trees below either.
  have below {root child : Node} (h : root.Everywhere fun node => node.kind ≠ .dice)
      (hchild : child ∈ root.children) : child.Everywhere fun node => node.kind ≠ .dice :=
    (Node.everywhere_iff.mp h).2 child hchild
  -- By induction on the expression; a roll is excluded, as it would be a dice node.
  induction e with
  | literal n => exact .intro (recalls_literal n) (.literal nofun) .nil
  | roll count sides steps =>
    obtain ⟨n, hn, dice⟩ := Expr.exists_dice count.toNode sides steps
    exact absurd dice (noDice n hn)
  | negate operand ih =>
    rw [Expr.Legible] at legible
    have evolved := ih legible (below noDice List.mem_cons_self)
    exact .intro (recalls_of_new rfl) .negate (.cons evolved .nil)
  | binary op left right ih ih' =>
    rw [Expr.Legible] at legible
    have first := ih legible.1 (below noDice List.mem_cons_self)
    have second := ih' legible.2 (below noDice (List.mem_cons_of_mem _ List.mem_cons_self))
    exact .intro (recalls_of_new rfl) .binary (.cons first (.cons second .nil))
  | compare op left right ih ih' =>
    rw [Expr.Legible] at legible
    have first := ih legible.1 (below noDice List.mem_cons_self)
    have second := ih' legible.2 (below noDice (List.mem_cons_of_mem _ List.mem_cons_self))
    exact .intro (recalls_of_new rfl) .compare (.cons first (.cons second .nil))
  | call name arguments ih =>
    rw [Expr.Legible, Expr.legibleAll_iff] at legible
    rw [Expr.toNode, Expr.toNodes_eq_map] at noDice ⊢
    apply Evolved.intro (recalls_of_new rfl) (.call rfl)
    apply several
    intro e he
    exact ih e he (legible.2 e he) (below noDice (List.mem_map_of_mem he))
  | group members repeats ih =>
    rw [Expr.Legible, Expr.legibleAll_iff] at legible
    rw [Expr.toNode, Expr.toNodes_eq_map] at noDice ⊢
    have new : (Node.make .group (Expr.groupAttributes repeats)
        (members.map Expr.toNode)).value? = none := by
      cases repeats <;> rfl
    have given : (OrderedMap.ofList (Expr.groupAttributes repeats)).get? "repeat" =
        repeats.map fun n : Nat => .int n := by
      cases repeats <;> rfl
    apply Evolved.intro (recalls_of_new new) (.group given legible.2)
    apply several
    intro e he
    exact ih e he (legible.1 e he) (below noDice (List.mem_map_of_mem he))

end

end DiceNotation
