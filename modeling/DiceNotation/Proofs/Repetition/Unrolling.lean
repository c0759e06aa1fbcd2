import DiceNotation.Proofs.Repetition.Mirroring
import DiceNotation.Proofs.Trees.Successes

/-! # Groups that are written out

A group that repeats its members `n` times can be written out: its members stand in it `n` times,
and nothing is said of repeats (`Node.unrolled`).  `Node.writeOut` does this to the group at an
address.

When a tree and the tree with a group written out have been evaluated, they still differ in the
attribute that tells how often the group was repeated, and in nothing else.  Where the group was
copied along with an outer group, each of its copies differs in this way.  A group that was not
evaluated is left as it is on both sides.  All this is said by `Node.SameExcept`.

`Twins x y after` says that `x` and `y` are about to be evaluated side by side: they are equal, or
`y` is `x` with a group written out.  `after` is what holds of them afterwards.

* `Twins.children`          the children of twins are twins
* `SameExcept.countP_eq`    as many nodes are marked on both sides -/

namespace DiceNotation

/-! ## Attributes in another order -/

namespace OrderedMap

variable {α : Type}

/-- To set an attribute and to forget another one can be done in any order. -/
private theorem erase_insert_of_ne (m : OrderedMap α) {key name : String} (value : α)
    (other : key ≠ name) : (m.insert key value).erase name = (m.erase name).insert key value := by
  have entries (list : List (String × α)) :
      (insertEntry key value list).filter (·.1 ≠ name) =
        insertEntry key value (list.filter (·.1 ≠ name)) := by
    induction list with
    | nil => simp [insertEntry, other]
    | cons entry rest ih =>
      by_cases found : entry.1 = key
      · simp [insertEntry, found, other]
      · -- The entry is behind this one, which may be the one that is forgotten.
        rw [insertEntry, if_neg found]
        by_cases forgotten : entry.1 = name
        · rw [List.filter_cons_of_neg (by simp [forgotten]), ih,
            List.filter_cons_of_neg (by simp [forgotten])]
        · rw [List.filter_cons_of_pos (by simp [forgotten]), ih,
            List.filter_cons_of_pos (by simp [forgotten]), insertEntry, if_neg found]
  simp only [insert, erase, mk.injEq]
  exact entries m.entries

/-- Erasing a key undoes its insertion. -/
private theorem erase_insert_self (m : OrderedMap α) (key : String) (value : α) :
    (m.insert key value).erase key = m.erase key := by
  have entries (list : List (String × α)) :
      (insertEntry key value list).filter (·.1 ≠ key) = list.filter (·.1 ≠ key) := by
    induction list with
    | nil => simp [insertEntry]
    | cons entry rest ih =>
      by_cases found : entry.1 = key
      · simp [insertEntry, found]
      · simp only [insertEntry, found, if_false, List.filter_cons, ih]
  simp only [insert, erase, mk.injEq]
  exact entries m.entries

end OrderedMap

namespace Node

variable {n : Nat} {node group x y : Node}

/-- Setting one attribute and removing another can be done in either order. -/
theorem unset_set_of_ne {key name : String} (value : Value) (other : key ≠ name) :
    (node.set key value).unset name = (node.unset name).set key value := by
  simp only [unset, set, OrderedMap.erase_insert_of_ne _ value other]

/-- Removing an attribute undoes its setting. -/
theorem unset_set_self (key : String) (value : Value) :
    (node.set key value).unset key = node.unset key := by
  simp only [unset, set, OrderedMap.erase_insert_self]

/-! ## Writing out -/

/-- The group with `n` copies of its members in their place, and without repeats. -/
def unrolled (n : Nat) (group : Node) : Node :=
  (group.unset "repeat").withChildren (List.replicate n group.children).flatten

/-- Writing out a group brings no members into it that it did not have. -/
theorem mem_children_of_unrolled {member : Node} (h : member ∈ (group.unrolled n).children) :
    member ∈ group.children := by
  obtain ⟨copies, hcopies, inside⟩ := List.mem_flatten.mp h
  rwa [List.eq_of_mem_replicate hcopies] at inside

/-- A group that is written out keeps its other attributes. -/
theorem get?_unrolled {name : String} (other : name ≠ "repeat") :
    (group.unrolled n).get? name = group.get? name := by
  rw [unrolled, get?_withChildren, get?_unset, if_neg other]

/-- A group that is written out repeats nothing. -/
theorem get?_repeat_unrolled : (group.unrolled n).get? "repeat" = none := by
  rw [unrolled, get?_withChildren, get?_unset, if_pos rfl]

/-- The tree with the group at an address written out. -/
def writeOut (n : Nat) : (place : List Nat) → (tree : Node) → Node
  | [], group => group.unrolled n
  | i :: place, ⟨kind, attributes, children⟩ =>
    ⟨kind, attributes, children.modify i (writeOut n place)⟩

/-- A group that was not evaluated and repeats its members `n` times. -/
structure Repeats (n : Nat) (group : Node) : Prop where
  kind : group.kind = .group
  new : group.value? = none
  times : group.get? "repeat" = some (.int n)

/-! ## Trees with a group written out in one of them -/

/-- Both nodes were evaluated to the same value. -/
def SameValue (x y : Node) : Prop := ∃ value, x.value? = some value ∧ y.value? = some value

/-- A group was repeated in `x` and written out in `y`: only the attribute that tells so differs. -/
structure Unrolls (n : Nat) (group x y : Node) : Prop where
  told : x.get? "repeated" = some (.int n)
  untold : y.get? "repeated" = group.get? "repeated"
  same : x.unset "repeated" = y.unset "repeated"

/-- Nodes with the number `i` are related, and all others are equal. -/
def OnlyAt (i : Nat) (R : Node → Node → Prop) (j : Nat) (x y : Node) : Prop :=
  if j = i then R x y else x = y

/-- At the place itself the nodes are related. -/
theorem onlyAt_self (i : Nat) (R : Node → Node → Prop) : OnlyAt i R i = R := by
  funext x y
  exact if_pos rfl

/-- At any other place the nodes are equal. -/
theorem onlyAt_ne {i j : Nat} (R : Node → Node → Prop) (other : j ≠ i) : OnlyAt i R j = Eq := by
  funext x y
  exact if_neg other

/-- What has become of the tree `source`, once as it is and once with the group at `place` written
    out, is the same except for the repeats of this group.  If a group was repeated, the child at
    position `j` is a copy of the child that it had at position `j % count`. -/
def SameExcept (n : Nat) : (place : List Nat) → (source x y : Node) → Prop
  | [], group, x, y => (x = group ∧ y = group.unrolled n) ∨ Unrolls n group x y
  | i :: place, source, x, y => x = y ∨
    x.kind = y.kind ∧ x.attributes = y.attributes ∧ ∃ child, source.children[i]? = some child ∧
      Aligned (fun j => OnlyAt i (SameExcept n place child) (j % source.childCount)) x.children
        y.children

namespace Unrolls

/-- A group that was repeated and one that was written out have the same children. -/
theorem children_eq (h : Unrolls n group x y) : x.children = y.children := by
  have same := congrArg Node.children h.same
  exact same

/-- They have the same attributes, the one that tells the repeats excepted. -/
theorem get?_eq (h : Unrolls n group x y) {name : String} (other : name ≠ "repeated") :
    x.get? name = y.get? name := by
  have same := congrArg (fun node => node.get? name) h.same
  simpa only [get?_unset, if_neg other] using same

/-- Setting another attribute on both keeps them so. -/
theorem set (h : Unrolls n group x y) {key : String} (value : Value) (other : key ≠ "repeated") :
    Unrolls n group (x.set key value) (y.set key value) where
  told := by rw [get?_set, if_neg other.symm, h.told]
  untold := by rw [get?_set, if_neg other.symm, h.untold]
  same := by rw [unset_set_of_ne value other, unset_set_of_ne value other, h.same]

/-- Giving both the same children keeps them so. -/
theorem withChildren (h : Unrolls n group x y) (children : List Node) :
    Unrolls n group (x.withChildren children) (y.withChildren children) where
  told := h.told
  untold := h.untold
  same := by
    have same := congrArg (fun node => node.withChildren children) h.same
    exact same

end Unrolls

namespace SameExcept

variable {place : List Nat} {source : Node}

/-- Nothing was evaluated. -/
private theorem of_writeOut (found : source.at? place = some group) :
    SameExcept n place source source (source.writeOut n place) := by
  -- The place is a path, and the induction goes down one child at a time.
  induction place generalizing source with
  | nil => exact .inl ⟨rfl, rfl⟩
  | cons i place ih =>
    obtain ⟨kind, attributes, children⟩ := source
    obtain ⟨child, hchild, below⟩ := Option.bind_eq_some_iff.mp found
    have changed : Aligned (OnlyAt i (SameExcept n place child)) children
        (children.modify i (writeOut n place)) := by
      apply Aligned.modify
      · intro c hc
        cases hchild.symm.trans hc
        rw [onlyAt_self]
        exact ih below
      · intro j c other _
        rw [onlyAt_ne _ other]
    exact .inr ⟨rfl, rfl, child, hchild, changed.mod le_rfl⟩

/-- An attribute of both nodes is set.  This is not said of a group that was not evaluated. -/
private theorem set (h : SameExcept n place source x y) {key : String} (value : Value)
    (other : key ≠ "repeated") (evaluated : place = [] → x ≠ source) :
    SameExcept n place source (x.set key value) (y.set key value) := by
  cases place with
  | nil =>
    rcases h with ⟨rfl, -⟩ | unrolls
    · exact absurd rfl (evaluated rfl)
    · exact .inr (unrolls.set value other)
  | cons i place =>
    rcases h with rfl | ⟨kind, attributes, children⟩
    · exact .inl rfl
    · exact .inr ⟨kind, congrArg (fun m => m.insert key value) attributes, children⟩

/-! ## Marks -/

/-- Writing out a group of unmarked nodes marks none. -/
private theorem unmarked_unrolled (h : Everywhere Unmarked group) :
    Everywhere Unmarked (group.unrolled n) := by
  rw [everywhere_iff]
  constructor
  · unfold Unmarked
    rw [get?_unrolled (by decide)]
    exact h.here
  · exact fun child hchild => h.child (mem_children_of_unrolled hchild)

/-- As many nodes are marked on both sides, if nothing was marked before. -/
theorem sumOver_eq (h : SameExcept n place source x y) (passing : Bool)
    (unmarked : Everywhere Unmarked source) :
    x.sumOver (fun node => if node.isMarked passing then 1 else 0) =
      y.sumOver (fun node => if node.isMarked passing then 1 else 0) := by
  -- In a group that was not evaluated, nothing is marked at all.
  have none {node : Node} (h : Everywhere Unmarked node) :
      node.sumOver (fun node => if node.isMarked passing then 1 else 0) = 0 :=
    sumOver_eq_zero (h.mono fun node unmarked => by simp [unmarked.isMarked])
  induction place generalizing source x y with
  | nil =>
    rcases h with ⟨rfl, rfl⟩ | unrolls
    · rw [none unmarked, none (unmarked_unrolled unmarked)]
    · have mark : x.isMarked passing = y.isMarked passing := by
        unfold isMarked hasText
        rw [unrolls.get?_eq (by decide)]
      rw [Node.sumOver_eq, Node.sumOver_eq _ y, mark, unrolls.children_eq]
  | cons i place ih =>
    rcases h with rfl | ⟨kind, attributes, child, hchild, length, related⟩
    · rfl
    · have mark : x.isMarked passing = y.isMarked passing := by
        unfold isMarked hasText get?
        rw [attributes]
      rw [Node.sumOver_eq, Node.sumOver_eq _ y, mark]
      congr 2
      refine List.ext_getElem (by rw [List.length_map, List.length_map, length]) fun j hx hy => ?_
      rw [List.getElem_map, List.getElem_map]
      rw [List.length_map] at hx hy
      have here : OnlyAt i (SameExcept n place child) (j % source.childCount) x.children[j]
          y.children[j] :=
        related j _ _ (List.getElem?_eq_getElem hx) (List.getElem?_eq_getElem hy)
      -- The child is a copy of the one that the address goes through, or it is equal.
      by_cases copy : j % source.childCount = i
      · rw [copy, onlyAt_self] at here
        exact ih here (unmarked.child (List.mem_of_getElem? hchild))
      · rw [onlyAt_ne _ copy] at here
        rw [here]

/-- As many nodes are marked in both trees. -/
theorem countP_eq (h : SameExcept n place source x y) (passing : Bool)
    (unmarked : Everywhere Unmarked source) :
    x.walk.countP (isMarked passing) = y.walk.countP (isMarked passing) := by
  have counted (node : Node) : (node.walk.countP (isMarked passing) : Int) =
      node.sumOver fun node => if node.isMarked passing then 1 else 0 := by
    rw [walk_eq_preorder, sumOver]
    induction node.preorder with
    | nil => rfl
    | cons node nodes ih =>
      rw [List.countP_cons, List.map_cons, List.sum_cons, ← ih]
      cases node.isMarked passing <;> simp [Int.add_comm]
  have same := h.sumOver_eq passing unmarked
  rw [← counted, ← counted] at same
  exact Int.ofNat_inj.mp same

end SameExcept

/-! ## Twins -/

/-- The nodes are equal, or a group is written out in the second one; `after` is what holds of them
    when they have been evaluated, or have been left as they are. -/
inductive Twins (n : Nat) : (x y : Node) → (after : Node → Node → Prop) → Prop where
  | same (x : Node) : Twins n x x Eq
  | written {place : List Nat} {x group : Node} (found : x.at? place = some group)
      (repeats : group.Repeats n) : Twins n x (x.writeOut n place) (SameExcept n place x)

namespace Twins

variable {after : Node → Node → Prop}

/-- Twins that have not been evaluated are related. -/
theorem before (h : Twins n x y after) : after x y := by
  cases h with
  | same => rfl
  | written found => exact .of_writeOut found

/-- Twins without groups are equal. -/
theorem eq (h : Twins n x y after) (plain : Everywhere (fun node => node.kind ≠ .group) x) :
    y = x := by
  cases h with
  | same => rfl
  | written found repeats => exact absurd repeats.kind (plain _ (mem_preorder_of_at? found))

/-- Twins of another kind than groups can become equal. -/
theorem refl (h : Twins n x y after) (plain : x.kind ≠ .group) (node : Node) : after node node := by
  cases h with
  | same => rfl
  | @written place _ group found repeats =>
    cases place with
    | nil =>
      cases found
      exact absurd repeats.kind plain
    | cons i place => exact .inl rfl

/-- What is written out is the group itself, or it stands below one of the children: these are
    twins, and what becomes of the node is known from what becomes of them. -/
theorem split {kind : NodeKind} {attributes : OrderedMap Value} {children : List Node}
    (h : Twins n ⟨kind, attributes, children⟩ y after) :
    (Repeats n ⟨kind, attributes, children⟩ ∧ y = unrolled n ⟨kind, attributes, children⟩ ∧
      after = SameExcept n [] ⟨kind, attributes, children⟩) ∨
    ∃ (children' : List Node) (related : Nat → Node → Node → Prop),
      y = ⟨kind, attributes, children'⟩ ∧
      Aligned (fun i c d => Twins n c d (related i)) children children' ∧
      ∀ attributes' xs ys, Aligned (fun i => related (i % children.length)) xs ys →
        after ⟨kind, attributes', xs⟩ ⟨kind, attributes', ys⟩ := by
  cases h with
  -- A tree is related to itself with nothing written out.
  | same =>
    refine .inr ⟨children, fun _ => Eq, rfl, .refl fun _ c _ => .same c, fun _ xs ys aligned => ?_⟩
    rw [aligned.eq]
  | @written place _ group found repeats =>
    -- The group is the node itself, or it is below one of the children, which alone differs then.
    cases place with
    | nil =>
      cases found
      exact .inl ⟨repeats, rfl, rfl⟩
    | cons i place =>
      obtain ⟨child, hchild, below⟩ := Option.bind_eq_some_iff.mp found
      refine .inr ⟨children.modify i (writeOut n place), OnlyAt i (SameExcept n place child), rfl,
        ?_, fun _ xs ys aligned => .inr ⟨rfl, rfl, child, hchild, aligned⟩⟩
      apply Aligned.modify
      · intro c hc
        cases hchild.symm.trans hc
        rw [onlyAt_self]
        exact .written below repeats
      · intro j c other _
        rw [onlyAt_ne _ other]
        exact .same c

/-- The children of twins that are no groups are twins. -/
theorem children {kind : NodeKind} {attributes : OrderedMap Value} {children : List Node}
    (h : Twins n ⟨kind, attributes, children⟩ y after) (plain : kind ≠ .group) :
    ∃ (children' : List Node) (related : Nat → Node → Node → Prop),
      y = ⟨kind, attributes, children'⟩ ∧
      Aligned (fun i c d => Twins n c d (related i)) children children' ∧
      ∀ attributes' xs ys, xs.length = children.length → Aligned related xs ys →
        after ⟨kind, attributes', xs⟩ ⟨kind, attributes', ys⟩ := by
  rcases h.split with ⟨repeats, -⟩ | ⟨children', related, rfl, twins, rebuilt⟩
  · exact absurd repeats.kind plain
  · exact ⟨children', related, rfl, twins, fun attributes' xs ys length aligned =>
      rebuilt attributes' xs ys (aligned.mod length.le)⟩

/-! ## Marks on twins that were evaluated -/

/-- A target that was evaluated is marked on both sides. -/
theorem mark (h : Twins n x y after) {a b : Node} (related : after a b) {value : Value}
    (left : a.value? = some value) (right : b.value? = some value) (c : Condition) :
    after (c.mark a) (c.mark b) := by
  unfold Condition.mark
  rw [left, right]
  cases h with
  | same =>
    cases related
    rfl
  | written found repeats =>
    refine SameExcept.set related _ (by decide) ?_
    -- The target has a value, so that it is not a group that was left as it was.
    rintro rfl rfl
    cases found
    rw [repeats.new] at left
    cases left

/-- The members of a group that was evaluated are marked on both sides. -/
theorem markMembers (h : Twins n x y after) {a b : Node} (related : after a b) {value : Value}
    (left : a.value? = some value) (c : Condition)
    (members : Aligned (fun _ => SameValue) a.children b.children) :
    after (a.withChildren (a.children.map c.mark)) (b.withChildren (b.children.map c.mark)) := by
  cases h with
  | same =>
    cases related
    rfl
  | @written place _ group found repeats =>
    cases place with
    | nil =>
      cases found
      -- The group has a value, so that it was evaluated: its members are equal on both sides.
      rcases related with ⟨rfl, -⟩ | unrolls
      · rw [repeats.new] at left
        cases left
      · rw [← unrolls.children_eq]
        exact .inr (unrolls.withChildren _)
    | cons i place =>
      obtain ⟨child, hchild, below⟩ := Option.bind_eq_some_iff.mp found
      rcases related with rfl | ⟨kinds, attributes, child', hchild', aligned⟩
      · exact .inl rfl
      · cases hchild.symm.trans hchild'
        refine .inr ⟨kinds, attributes, child, hchild, ?_⟩
        -- Marking a member keeps it related to its copy, and an equal one equal.
        apply (aligned.and members).map
        rintro j d e ⟨copies, value, left, right⟩
        by_cases copy : j % x.childCount = i
        · rw [copy, onlyAt_self] at copies ⊢
          exact mark (.written below repeats) copies left right c
        · rw [onlyAt_ne _ copy] at copies ⊢
          rw [copies]

end Twins

end Node

end DiceNotation
