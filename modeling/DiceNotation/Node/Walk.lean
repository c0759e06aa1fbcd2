import DiceNotation.Node.Basic

/-! # Walking through a tree

`walk` lists the nodes of a tree in depth-first order with a stack of subtrees still to be
visited; `preorder` lists them by recursion on the tree.  `size` bounds the number of steps of
the walk, `depth` the length of a path from the root.

`successes` and `failures` count the nodes that a comparison has marked. -/

namespace DiceNotation.Node

mutual

/-- The number of nodes of a tree. -/
def size : Node → Nat
  | ⟨_, _, children⟩ => 1 + sizeAll children

/-- The number of nodes of several trees. -/
def sizeAll : List Node → Nat
  | [] => 0
  | node :: rest => size node + sizeAll rest

end

mutual

/-- The number of nodes on the longest path from the root. -/
def depth : Node → Nat
  | ⟨_, _, children⟩ => 1 + depthAll children

/-- The greatest depth of several trees. -/
def depthAll : List Node → Nat
  | [] => 0
  | node :: rest => max (depth node) (depthAll rest)

end

mutual

/-- The node, then the nodes below it, child by child from left to right. -/
def preorder : Node → List Node
  | ⟨kind, attributes, children⟩ => ⟨kind, attributes, children⟩ :: preorderAll children

/-- The nodes of several trees, one tree after the other. -/
def preorderAll : List Node → List Node
  | [] => []
  | node :: rest => preorder node ++ preorderAll rest

end

/-- The nodes of the trees on the stack, in at most `steps` steps: visit the tree on top and put
    its children in its place. -/
def walkStack : (steps : Nat) → (stack : List Node) → List Node
  | 0, _ => []
  | _ + 1, [] => []
  | steps + 1, node :: stack => node :: walkStack steps (node.children ++ stack)

/-- All nodes of a tree, depth first. -/
def walk (node : Node) : List Node := walkStack node.size [node]

/-- The number of nodes that a comparison has marked as a success. -/
def successes (node : Node) : Nat := node.walk.countP (·.hasText "success" "yes")

/-- The number of nodes that a comparison has marked as a failure. -/
def failures (node : Node) : Nat := node.walk.countP (·.hasText "success" "no")

/-- A child is less deep than its parent. -/
theorem depth_lt_of_mem {node child : Node} (h : child ∈ node.children) :
    child.depth < node.depth := by
  obtain ⟨kind, attributes, children⟩ := node
  -- The depth of a list bounds that of each member, which is shown by induction on the list.
  suffices ∀ cs : List Node, child ∈ cs → child.depth ≤ depthAll cs by
    have := this children h
    simp only [depth]
    omega
  intro cs hc
  induction cs with
  | nil => simp at hc
  | cons c rest ih =>
    simp only [depthAll]
    rcases List.mem_cons.mp hc with rfl | hc
    · omega
    · have := ih hc
      omega

end DiceNotation.Node
