import Mathlib.Data.List.Basic
import DiceNotation.Node.Render
import DiceNotation.Proofs.Trees.Preorder

/-! # Trees that have a text

Rendering looks at each node by itself: a number must not be too long, and the children that the
text is put together from must be there.  A tree whose nodes are all `Showable` in this sense has a
text, whatever else its nodes hold.

* `shown_assemble`   a showable node has a text if its children have one
* `shown_render`     a tree of showable nodes has a text -/

namespace DiceNotation

namespace Rendering

/-- There is a text. -/
def Shown (rendered : Rendered) : Prop := ∃ text, rendered = .ok text

variable {parts : List Rendered} {rendered : Rendered}

/-- A text that is made of a shown one is shown. -/
theorem Shown.bind {f : String → Rendered} (h : Shown rendered) (hf : ∀ text, Shown (f text)) :
    Shown (rendered >>= f) := by
  obtain ⟨text, rfl⟩ := h
  exact hf text

/-- A text is shown. -/
private theorem shown_ok (text : String) : Shown (.ok text) := ⟨text, rfl⟩

/-- What a shown text is made of is shown. -/
theorem Shown.of_bind {f : String → Rendered} (h : Shown (rendered >>= f)) : Shown rendered := by
  cases rendered with
  | error fault =>
    obtain ⟨text, h⟩ := h
    cases h
  | ok text => exact shown_ok text

/-- A value that can be written is shown. -/
theorem shown_valueText {value : Option Value} (h : value.all Value.isWritable = true) :
    Shown (valueText value) := by
  rw [valueText, if_pos h]
  exact shown_ok _

/-- A value that can be written is shown where there is one. -/
theorem shown_some {value : Value} (h : value.isWritable = true) :
    Shown (valueText (some value)) := by
  apply shown_valueText
  rw [Option.all_some]
  exact h

/-- Parts that are shown have texts. -/
private theorem exists_texts (h : ∀ part ∈ parts, Shown part) :
    ∃ texts, parts.mapM id = .ok texts := by
  induction parts with
  | nil => exact ⟨[], rfl⟩
  | cons part parts ih =>
    obtain ⟨⟨text, rfl⟩, behind⟩ := List.forall_mem_cons.mp h
    obtain ⟨texts, htexts⟩ := ih behind
    refine ⟨text :: texts, ?_⟩
    rw [List.mapM_cons, htexts]
    rfl

/-- A list of shown parts is shown. -/
private theorem shown_listText (h : ∀ part ∈ parts, Shown part) : Shown (listText parts) := by
  obtain ⟨texts, htexts⟩ := exists_texts h
  rw [listText, htexts]
  exact shown_ok _

/-- Parts that have texts are shown. -/
private theorem shown_of_texts {texts : List String} (h : parts.mapM id = .ok texts) :
    ∀ part ∈ parts, Shown part := by
  -- The texts are put together from the front, and the first failure would be the result.
  induction parts generalizing texts with
  | nil => exact nofun
  | cons part parts ih =>
    rw [List.mapM_cons] at h
    cases part with
    | error fault => cases h
    | ok text =>
      cases htexts : parts.mapM id with
      | error fault =>
        rw [htexts] at h
        cases h
      | ok texts => exact List.forall_mem_cons.mpr ⟨shown_ok text, ih htexts⟩

/-- A list has a text only if all of its parts have one. -/
theorem shown_of_listText (h : Shown (listText parts)) : ∀ part ∈ parts, Shown part := by
  obtain ⟨text, h⟩ := h
  cases htexts : parts.mapM id with
  | error fault =>
    rw [listText, htexts] at h
    cases h
  | ok texts => exact shown_of_texts htexts

/-- A part that is there is shown. -/
private theorem shown_part {i : Nat} (h : ∀ part ∈ parts, Shown part) (lt : i < parts.length) :
    Shown (part parts i) := by
  rw [part, List.getElem?_eq_getElem lt]
  exact h _ (List.getElem_mem lt)

/-- An operand is shown, with parentheses or without. -/
private theorem shown_operand {kind : NodeKind} {minimum : Nat} (h : Shown rendered) :
    Shown (operand kind minimum rendered) :=
  h.bind fun _ => shown_ok _

/-- An operation of two shown operands is shown. -/
private theorem shown_binary {symbol : String} {precedence : Nat} {rightward : Bool}
    {children : List Node} (two : children.length = 2) (length : parts.length = children.length)
    (h : ∀ part ∈ parts, Shown part) :
    Shown (binary symbol precedence rightward children parts) := by
  obtain ⟨left, right, rfl⟩ := List.length_eq_two.mp two
  obtain ⟨leftText, rightText, rfl⟩ := List.length_eq_two.mp length
  apply (shown_operand (h leftText (by simp))).bind
  intro _
  apply (shown_operand (h rightText (by simp))).bind
  intro _
  exact shown_ok _

/-- Dice whose parts are shown are shown. -/
private theorem shown_dice {children : List Node} (h : ∀ part ∈ parts, Shown part) :
    Shown (dice children parts) := by
  unfold dice
  split
  · apply (h _ (by simp)).bind
    intro count
    dsimp only
    split
    · exact shown_ok _
    · exact (h _ (by simp)).bind fun _ => shown_ok _
  · exact (shown_listText h).bind fun _ => shown_ok _

/-- A die whose value is shown is shown. -/
private theorem shown_die {node : Node} (h : Shown (numberText node.value?)) : Shown (die node) :=
  h.bind fun _ => shown_ok _

end Rendering

namespace Node

open Rendering

/-- What a node of a kind needs so that there is a text for it: its number can be written, and it
    has the children that are looked at. -/
def Showable (node : Node) : Prop :=
  match node.kind with
  | .integer | .diceRoll => Shown (numberText node.value?)
  | .diceSides => node.value?.any Value.isFate = true ∨ Shown (numberText node.value?)
  | .dice => True
  | .negate | .modifier _ => 0 < node.children.length
  | .comparison _ => node.children.length = 1 ∨ node.children.length = 2
  | .operator _ => node.children.length = 2
  | .function => Shown (valueText (node.get? "name"))
  | .group => Shown (valueText (node.get? "repeat"))

/-- Every node of the tree has what it needs. -/
def Printable (root : Node) : Prop := Everywhere Showable root

/-- A tree can be printed if its root and all subtrees below it can. -/
theorem printable_iff {root : Node} :
    root.Printable ↔ root.Showable ∧ ∀ child ∈ root.children, child.Printable :=
  everywhere_iff

/-- A subtree of a tree that can be printed can be printed. -/
theorem Printable.child {root child : Node} (h : root.Printable) (below : child ∈ root.children) :
    child.Printable :=
  (printable_iff.mp h).2 child below

end Node

namespace Rendering

/-- A showable node has a text if its children have one. -/
theorem shown_assemble {node : Node} {parts : List Rendered}
    (length : parts.length = node.children.length) (h : ∀ part ∈ parts, Shown part)
    (showable : node.Showable) : Shown (assemble node parts) := by
  obtain ⟨kind, attributes, children⟩ := node
  -- Each construct is put together from the texts of its children and from its own attributes.
  cases kind with
  | integer => exact showable
  | diceSides =>
    -- Fate dice have a text of their own; any other number of sides is written as its value.
    by_cases fate : (Node.mk .diceSides attributes children).value?.any Value.isFate = true
    · simp only [assemble, fate, if_true]
      exact shown_ok _
    · simp only [assemble, fate, Bool.false_eq_true, if_false]
      exact showable.resolve_left fate
  | dice => exact shown_dice h
  | diceRoll => exact shown_die showable
  | negate =>
    obtain _ | ⟨child, children⟩ := children
    · cases showable
    · have first : Shown (part parts 0) := shown_part h (by rw [length]; exact showable)
      exact (shown_operand first).bind fun _ => shown_ok _
  | comparison op =>
    -- A comparison with one child is the condition of a modifier and has no left side.
    by_cases single : children.length = 1
    · have first : Shown (part parts 0) := shown_part h (by rw [length, single]; decide)
      simp only [assemble, single, if_true]
      exact first.bind fun _ => shown_ok _
    · simp only [assemble, single, if_false]
      exact shown_binary (showable.resolve_left single) length h
  | operator op => exact shown_binary showable length h
  | function =>
    apply (shown_listText h).bind
    intro _
    exact Shown.bind showable fun _ => shown_ok _
  | group =>
    apply (shown_listText h).bind
    intro items
    have repeats : Shown (valueText ((Node.mk .group attributes children).get? "repeat")) :=
      showable
    split
    · exact shown_ok _
    · next times given =>
      obtain ⟨given, -⟩ := Option.filter_eq_some_iff.mp given
      rw [given] at repeats
      exact repeats.bind fun _ => shown_ok _
  | modifier m =>
    have first : Shown (part parts 0) := shown_part h (by rw [length]; exact showable)
    apply first.bind
    intro roll
    by_cases argument : 1 < children.length
    · simp only [argument, if_true]
      exact (shown_part h (by rw [length]; exact argument)).bind fun _ => shown_ok _
    · simp only [argument, if_false]
      exact shown_ok _

end Rendering

namespace Node

open Rendering

/-- A tree of showable nodes has a text. -/
theorem shown_render {root : Node} (h : root.Printable) : Shown root.render := by
  induction root using induct with
  | node kind attributes children ih =>
    obtain ⟨here, below⟩ := printable_iff.mp h
    rw [render, renderAll_eq_map]
    apply shown_assemble (List.length_map _) _ here
    intro part hpart
    obtain ⟨child, hchild, rfl⟩ := List.mem_map.mp hpart
    exact ih child hchild (below child hchild)

/-! ## New nodes -/

/-- A node can be printed if its attributes and its children can. -/
theorem printable_make {kind : NodeKind} {attributes : List (String × Value)}
    {children : List Node} (here : (make kind attributes children).Showable)
    (below : ∀ child ∈ children, child.Printable) : (make kind attributes children).Printable :=
  printable_iff.mpr ⟨here, below⟩

/-- An integer that can be written is shown. -/
theorem shown_int {n : Int} (h : (Value.int n).isWritable = true) :
    Shown (numberText (some (.int n))) := by
  rw [numberText, Number.normalize_int]
  exact shown_some h

/-- An integer that is shown can be written. -/
theorem isWritable_of_shown_int {n : Int} (h : Shown (numberText (some (.int n)))) :
    (Value.int n).isWritable = true := by
  by_contra unwritable
  obtain ⟨text, h⟩ := h
  rw [numberText, Number.normalize_int, valueText, Option.all_some, if_neg unwritable] at h
  cases h

/-- The tree of an integer that can be written can be printed. -/
theorem printable_integer {n : Int} (h : (Value.int n).isWritable = true) :
    (integer n).Printable :=
  printable_make (shown_int h) nofun

end Node

end DiceNotation
