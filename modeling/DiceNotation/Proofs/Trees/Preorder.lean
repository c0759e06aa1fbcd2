import DiceNotation.Node.Walk

/-! # The nodes of a tree

What is said of a tree is often said of each of its nodes.  `Node.Everywhere P` says `P` of every
node in a tree, and is proved and used child by child.

* `induct`           induction with one hypothesis for each child
* `mem_preorder`     a node of a tree is the root or a node below a child
* `everywhere_iff`   `P` holds everywhere iff it holds of the root and everywhere below -/

namespace DiceNotation.Node

/-- Induction on a tree: the statement is known of every child. -/
@[elab_as_elim]
theorem induct {motive : Node → Prop}
    (node : ∀ kind attributes children, (∀ child ∈ children, motive child) →
      motive ⟨kind, attributes, children⟩) (root : Node) : motive root :=
  @Node.rec motive (fun nodes => ∀ child ∈ nodes, motive child) node (fun _ h => nomatch h)
    (fun _ _ head tail child h => by
      rcases List.mem_cons.mp h with rfl | h
      · exact head
      · exact tail child h)
    root

/-- A tree has at least one level. -/
theorem depth_pos (node : Node) : 0 < node.depth := by
  obtain ⟨kind, attributes, children⟩ := node
  rw [depth]
  omega

/-- A node of several trees is a node of one of them. -/
theorem mem_preorderAll {node : Node} {nodes : List Node} :
    node ∈ preorderAll nodes ↔ ∃ root ∈ nodes, node ∈ root.preorder := by
  induction nodes with
  | nil => simp [preorderAll]
  | cons first rest ih => simp [preorderAll, ih]

/-- A node of a tree is its root or a node below one of the children. -/
theorem mem_preorder {node root : Node} :
    node ∈ root.preorder ↔ node = root ∨ ∃ child ∈ root.children, node ∈ child.preorder := by
  obtain ⟨kind, attributes, children⟩ := root
  rw [preorder, List.mem_cons, mem_preorderAll]

/-- A tree has its root. -/
theorem self_mem_preorder (node : Node) : node ∈ node.preorder :=
  mem_preorder.mpr (.inl rfl)

/-- What stands below a node of a tree stands in the tree. -/
theorem mem_preorder_trans {node mid root : Node} (below : node ∈ mid.preorder)
    (h : mid ∈ root.preorder) : node ∈ root.preorder := by
  induction root using induct with
  | node kind attributes children ih =>
    rcases mem_preorder.mp h with rfl | ⟨child, hchild, inside⟩
    · exact below
    · exact mem_preorder.mpr (.inr ⟨child, hchild, ih child hchild inside⟩)

/-- A tree has its children. -/
theorem child_mem_preorder {child node : Node} (h : child ∈ node.children) :
    child ∈ node.preorder :=
  mem_preorder.mpr (.inr ⟨child, h, self_mem_preorder child⟩)

/-- Every node of the tree has the property. -/
def Everywhere (P : Node → Prop) (root : Node) : Prop := ∀ node ∈ root.preorder, P node

variable {P Q : Node → Prop} {root : Node}

/-- A property holds everywhere if it holds of the root and everywhere below. -/
theorem everywhere_iff :
    Everywhere P root ↔ P root ∧ ∀ child ∈ root.children, Everywhere P child := by
  constructor
  · intro h
    refine ⟨h root (self_mem_preorder root), fun child hchild node below => ?_⟩
    exact h node (mem_preorder_trans below (child_mem_preorder hchild))
  · rintro ⟨here, below⟩ node h
    rcases mem_preorder.mp h with rfl | ⟨child, hchild, inside⟩
    · exact here
    · exact below child hchild node inside

/-- What holds everywhere holds of the root. -/
theorem Everywhere.here (h : Everywhere P root) : P root := (everywhere_iff.mp h).1

/-- What holds everywhere holds everywhere below. -/
theorem Everywhere.child {child : Node} (h : Everywhere P root) (below : child ∈ root.children) :
    Everywhere P child :=
  (everywhere_iff.mp h).2 child below

/-- What holds everywhere can be weakened. -/
theorem Everywhere.mono (h : Everywhere P root) (weaker : ∀ node, P node → Q node) :
    Everywhere Q root :=
  fun node below => weaker node (h node below)

end DiceNotation.Node
