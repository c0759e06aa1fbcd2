import DiceNotation.Node.Walk
import DiceNotation.Proofs.Trees.Preorder

/-! # The walk through a tree

The walk keeps the trees that are still to be visited on a stack.  In each turn it visits the root
of the tree on top and puts the children in the place of this tree.  What was visited so far and
what stands on the stack make up the preorder of the whole tree (`walkStack_append`), and each turn
takes one node off the stack (`sizeAll_stackAfter`).  So the walk ends, and it is the preorder.

Nodes of a tree can be equal, so that it is said of their addresses that each one is met once.  The
address of a node says which child to go to, step by step from the root.  In preorder the addresses
are in lexicographic order.

* `walk_eq_preorder`   the walk is the preorder, by recursion on the tree
* `walk_exact`         each address is met once, in order, and then the walk ends -/

namespace DiceNotation.Node

/-! ## The stack -/

/-- The nodes of two lists of trees are visited one list after the other. -/
@[simp] theorem preorderAll_append (nodes nodes' : List Node) :
    preorderAll (nodes ++ nodes') = preorderAll nodes ++ preorderAll nodes' := by
  induction nodes with
  | nil => rfl
  | cons node nodes ih => simp [preorderAll, ih]

/-- The nodes of several trees are those of each tree in order. -/
private theorem preorderAll_eq_flatMap (nodes : List Node) :
    preorderAll nodes = nodes.flatMap preorder := by
  induction nodes with
  | nil => rfl
  | cons node nodes ih => rw [preorderAll, ih, List.flatMap_cons]

/-- The sizes of two lists of trees add up. -/
@[simp] theorem sizeAll_append (nodes nodes' : List Node) :
    sizeAll (nodes ++ nodes') = sizeAll nodes + sizeAll nodes' := by
  induction nodes with
  | nil => simp [sizeAll]
  | cons node nodes ih =>
    simp only [List.cons_append, sizeAll, ih]
    omega

/-- A tree has at least one node. -/
private theorem size_pos (node : Node) : 0 < node.size := by
  obtain ⟨kind, attributes, children⟩ := node
  rw [size]
  omega

/-- Only no trees at all have no nodes. -/
private theorem sizeAll_eq_zero_iff {nodes : List Node} : sizeAll nodes = 0 ↔ nodes = [] := by
  cases nodes with
  | nil => simp [sizeAll]
  | cons node nodes =>
    have := node.size_pos
    simp only [sizeAll, reduceCtorEq, iff_false]
    omega

/-- The stack after so many turns; from an empty one there is no turn. -/
def stackAfter : (turns : Nat) → (stack : List Node) → List Node
  | 0, stack => stack
  | _ + 1, [] => []
  | turns + 1, node :: stack => stackAfter turns (node.children ++ stack)

variable {turns : Nat} {stack : List Node}

/-- What was visited and what is still on the stack are all nodes in preorder. -/
theorem walkStack_append (turns : Nat) (stack : List Node) :
    walkStack turns stack ++ preorderAll (stackAfter turns stack) = preorderAll stack := by
  induction turns generalizing stack with
  | zero => rfl
  | succ turns ih =>
    cases stack with
    | nil => rfl
    | cons node stack =>
      obtain ⟨kind, attributes, children⟩ := node
      rw [walkStack, stackAfter, List.cons_append, ih, preorderAll_append, preorderAll, preorder]
      rfl

/-- Each turn takes one node off the stack. -/
theorem sizeAll_stackAfter (turns : Nat) (stack : List Node) :
    sizeAll (stackAfter turns stack) = sizeAll stack - turns := by
  induction turns generalizing stack with
  | zero => rfl
  | succ turns ih =>
    cases stack with
    | nil => simp [stackAfter, sizeAll]
    | cons node stack =>
      obtain ⟨kind, attributes, children⟩ := node
      rw [stackAfter, ih]
      simp only [sizeAll, size, sizeAll_append]
      omega

/-- The stack is empty once there were as many turns as there are nodes. -/
private theorem stackAfter_eq_nil_iff : stackAfter turns stack = [] ↔ sizeAll stack ≤ turns := by
  rw [← sizeAll_eq_zero_iff, sizeAll_stackAfter, Nat.sub_eq_zero_iff_le]

/-- With enough turns, all trees on the stack are listed one after the other. -/
private theorem walkStack_eq (enough : sizeAll stack ≤ turns) :
    walkStack turns stack = preorderAll stack := by
  have invariant := walkStack_append turns stack
  rwa [stackAfter_eq_nil_iff.mpr enough, preorderAll, List.append_nil] at invariant

/-- The walk visits the nodes in preorder. -/
theorem walk_eq_preorder (root : Node) : root.walk = root.preorder := by
  have enough : sizeAll [root] ≤ root.size := by simp [sizeAll]
  rw [walk, walkStack_eq enough, preorderAll, preorderAll, List.append_nil]

/-! ## Addresses -/

/-- The node at an address, if there is one. -/
def at? : Node → List Nat → Option Node
  | node, [] => some node
  | node, i :: path => node.children[i]?.bind fun child => at? child path

/-- The root is at the empty address. -/
@[simp] theorem at?_nil (node : Node) : node.at? [] = some node := rfl

/-- An address begins with the number of a child and goes on below it. -/
@[simp] theorem at?_cons (node : Node) (i : Nat) (path : List Nat) :
    node.at? (i :: path) = node.children[i]?.bind fun child => child.at? path := rfl

/-- An address can be followed in two parts. -/
theorem at?_append (node : Node) (path rest : List Nat) :
    node.at? (path ++ rest) = (node.at? path).bind fun below => below.at? rest := by
  induction path generalizing node with
  | nil => rfl
  | cons i path ih =>
    rw [List.cons_append, at?_cons, at?_cons, Option.bind_assoc]
    exact congrArg _ (funext fun child => ih child)

/-- What is at an address is a node of the tree. -/
theorem mem_preorder_of_at? {root node : Node} {path : List Nat}
    (found : root.at? path = some node) : node ∈ root.preorder := by
  induction path generalizing root with
  | nil =>
    cases found
    exact self_mem_preorder node
  | cons i path ih =>
    obtain ⟨child, hchild, below⟩ := Option.bind_eq_some_iff.mp found
    exact mem_preorder.mpr (.inr ⟨child, List.mem_of_getElem? hchild, ih below⟩)

mutual

/-- The addresses of all nodes of a tree, in preorder. -/
def addresses : Node → List (List Nat)
  | ⟨_, _, children⟩ => [] :: addressesFrom 0 children

/-- The addresses of the nodes of several trees, of which the first one is child `i` and the others
    are the children behind it. -/
def addressesFrom : (i : Nat) → List Node → List (List Nat)
  | _, [] => []
  | i, node :: rest => (addresses node).map (i :: ·) ++ addressesFrom (i + 1) rest

end

/-- The addresses of several trees begin with the number of a tree and go on with an address in it.
    -/
private theorem mem_addressesFrom {i : Nat} {nodes : List Node} {path : List Nat} :
    path ∈ addressesFrom i nodes ↔
      ∃ j node rest, nodes[j]? = some node ∧ rest ∈ node.addresses ∧ path = (i + j) :: rest := by
  -- An address begins with the number of the child that it leads through.
  induction nodes generalizing i with
  | nil => simp [addressesFrom]
  | cons first others ih =>
    rw [addressesFrom, List.mem_append, List.mem_map, ih]
    constructor
    · rintro (⟨rest, hrest, rfl⟩ | ⟨j, node, rest, hnode, hrest, rfl⟩)
      · exact ⟨0, first, rest, rfl, hrest, rfl⟩
      · exact ⟨j + 1, node, rest, hnode, hrest, by rw [Nat.add_assoc, Nat.add_comm 1]⟩
    · rintro ⟨j, node, rest, hnode, hrest, rfl⟩
      cases j with
      | zero =>
        cases hnode
        exact .inl ⟨rest, hrest, rfl⟩
      | succ j => exact .inr ⟨j, node, rest, hnode, hrest, by rw [Nat.add_assoc, Nat.add_comm 1]⟩

/-- Every address that leads to a node is listed. -/
private theorem mem_addresses {root : Node} {path : List Nat} :
    path ∈ root.addresses ↔ (root.at? path).isSome = true := by
  -- The path is followed from the root, one child at a time.
  induction path generalizing root with
  | nil =>
    obtain ⟨kind, attributes, children⟩ := root
    simp [addresses]
  | cons i path ih =>
    obtain ⟨kind, attributes, children⟩ := root
    rw [addresses, List.mem_cons, mem_addressesFrom, at?_cons]
    constructor
    · rintro (impossible | ⟨j, child, rest, hchild, hrest, same⟩)
      · cases impossible
      · rw [Nat.zero_add, List.cons.injEq] at same
        obtain ⟨rfl, rfl⟩ := same
        rw [hchild, Option.bind_some]
        exact ih.mp hrest
    · intro found
      obtain ⟨node, hnode⟩ := Option.isSome_iff_exists.mp found
      obtain ⟨child, hchild, below⟩ := Option.bind_eq_some_iff.mp hnode
      have inside : path ∈ child.addresses := ih.mpr (by rw [below]; rfl)
      exact .inr ⟨i, child, path, hchild, inside, by rw [Nat.zero_add]⟩

/-- The listed addresses are in lexicographic order, and so there are no two equal ones. -/
private theorem pairwise_addresses (root : Node) : root.addresses.Pairwise (· < ·) := by
  -- The induction on the tree needs one on the list of children, with the number of the first.
  induction root using induct with
  | node kind attributes children ih =>
    have below (nodes : List Node) (i : Nat)
        (h : ∀ node ∈ nodes, node.addresses.Pairwise (· < ·)) :
        (addressesFrom i nodes).Pairwise (· < ·) := by
      induction nodes generalizing i with
      | nil => exact .nil
      | cons first others inner =>
        obtain ⟨here, behind⟩ := List.forall_mem_cons.mp h
        rw [addressesFrom, List.pairwise_append]
        refine ⟨?_, inner (i + 1) behind, ?_⟩
        · refine List.pairwise_map.mpr (here.imp fun lt => ?_)
          exact List.cons_lt_cons_iff.mpr (.inr ⟨rfl, lt⟩)
        · -- An address below the first child comes before those below the children behind it.
          intro path hpath path' hpath'
          obtain ⟨rest, -, rfl⟩ := List.mem_map.mp hpath
          obtain ⟨j, node, rest', -, -, rfl⟩ := mem_addressesFrom.mp hpath'
          exact List.cons_lt_cons_iff.mpr (.inl (by omega))
    rw [addresses, List.pairwise_cons]
    refine ⟨fun path hpath => ?_, below children 0 ih⟩
    obtain ⟨j, node, rest, -, -, rfl⟩ := mem_addressesFrom.mp hpath
    exact List.nil_lt_cons _ _

/-- The addresses lead to the nodes in preorder. -/
private theorem map_at?_addresses (root : Node) :
    root.addresses.map root.at? = root.preorder.map some := by
  induction root using induct with
  | node kind attributes children ih =>
    have below (before nodes : List Node)
        (h : ∀ node ∈ nodes, node.addresses.map node.at? = node.preorder.map some) :
        (addressesFrom before.length nodes).map (at? ⟨kind, attributes, before ++ nodes⟩) =
          (preorderAll nodes).map some := by
      -- The children before the listed ones are collected in `before`.
      induction nodes generalizing before with
      | nil => rfl
      | cons first others inner =>
        obtain ⟨here, behind⟩ := List.forall_mem_cons.mp h
        have others' := inner (before ++ [first]) behind
        rw [List.length_append, List.length_singleton, List.append_assoc, List.singleton_append]
          at others'
        rw [addressesFrom, List.map_append, others', preorderAll, List.map_append, ← here,
          List.map_map]
        congr 1
        refine List.map_congr_left fun path _ => ?_
        simp
    -- The root has the empty address, and it comes first in both lists.
    rw [addresses, preorder, List.map_cons, List.map_cons, at?_nil]
    exact congrArg _ (below [] children ih)

/-! ## Marks -/

mutual

/-- The number of nodes of a tree that a comparison has marked in the given way. -/
def marked (mark : String) : Node → Nat
  | ⟨kind, attributes, children⟩ =>
    (if hasText ⟨kind, attributes, children⟩ "success" mark then 1 else 0) + markedAll mark children

/-- The number of marked nodes of several trees. -/
def markedAll (mark : String) : List Node → Nat
  | [] => 0
  | node :: rest => marked mark node + markedAll mark rest

end

/-- The marks that are counted are those of the nodes in preorder. -/
private theorem marked_eq_countP (mark : String) (root : Node) :
    root.marked mark = root.preorder.countP (·.hasText "success" mark) := by
  induction root using induct with
  | node kind attributes children ih =>
    have below (nodes : List Node)
        (h : ∀ node ∈ nodes, node.marked mark = node.preorder.countP (·.hasText "success" mark)) :
        markedAll mark nodes = (preorderAll nodes).countP (·.hasText "success" mark) := by
      induction nodes with
      | nil => rfl
      | cons first others inner =>
        obtain ⟨here, behind⟩ := List.forall_mem_cons.mp h
        rw [markedAll, preorderAll, List.countP_append, here, inner behind]
    rw [marked, preorder, List.countP_cons, below children ih, Nat.add_comm]

/-! ## The whole walk -/

/-- The walk lists the root and then what the walks through its children list, from left to right:
    it meets every address in the tree once, in lexicographic order.  It ends after as many turns as
    there are nodes; before that, what it has still to list stands on the stack in preorder.  So the
    marks that are counted along the walk are those that recursion on the tree counts. -/
theorem walk_exact (root : Node) :
    root.walk = root.preorder ∧
    root.walk = root :: root.children.flatMap walk ∧
    (∃ addresses : List (List Nat), addresses.Pairwise (· < ·) ∧
      (∀ path, path ∈ addresses ↔ (root.at? path).isSome = true) ∧
      addresses.map root.at? = root.walk.map some) ∧
    (∀ turns, stackAfter turns [root] = [] ↔ root.size ≤ turns) ∧
    (∀ turns, walkStack turns [root] ++ preorderAll (stackAfter turns [root]) = root.walk) ∧
    root.successes = root.marked "yes" ∧ root.failures = root.marked "no" := by
  have single : sizeAll [root] = root.size := Nat.add_zero _
  refine ⟨walk_eq_preorder root, ?_, ?_, fun turns => ?_, fun turns => ?_, ?_, ?_⟩
  · obtain ⟨kind, attributes, children⟩ := root
    have everywhere : walk = preorder := funext walk_eq_preorder
    rw [everywhere, preorder, preorderAll_eq_flatMap]
  · refine ⟨root.addresses, pairwise_addresses root, fun _ => mem_addresses, ?_⟩
    rw [walk_eq_preorder, map_at?_addresses]
  · rw [stackAfter_eq_nil_iff, single]
  · rw [walkStack_append, walk_eq_preorder, preorderAll, preorderAll, List.append_nil]
  · rw [successes, walk_eq_preorder, marked_eq_countP]
  · rw [failures, walk_eq_preorder, marked_eq_countP]

end DiceNotation.Node
