import DiceNotation.Node.Render
import DiceNotation.Proofs.Printing.Legible

/-! # The text of an expression

`Expr.text` is the text that the tree of an expression is rendered as, character by character.

* `render_toNode`   the tree of a legible expression is rendered as its text -/

namespace DiceNotation.Expr

/-- How tightly the text of an expression holds together. -/
def precedence : Expr → Nat
  | compare .. => 1
  | negate _ => 2
  | binary op _ _ => op.precedence
  | _ => 5

/-- The precedence that the left operand of an operator needs. -/
def leftMinimum (op : Operator) : Nat :=
  if op = .exponent then op.precedence + 1 else op.precedence

/-- The precedence that the right operand of an operator needs. -/
def rightMinimum (op : Operator) : Nat :=
  if op = .exponent then op.precedence else op.precedence + 1

/-- Whether an expression is a literal. -/
def isLiteral : Expr → Bool
  | literal _ => true
  | _ => false

/-- The digits of a number. -/
def digits (n : Nat) : List Char := Nat.toDigits 10 n

/-- A text in parentheses. -/
def parenthesized (text : List Char) : List Char := '(' :: (text ++ [')'])

/-- The text of an operand where at least the precedence `minimum` is needed. -/
def operandText (minimum precedence : Nat) (text : List Char) : List Char :=
  if precedence < minimum then parenthesized text else text

/-- The members of a list behind the first one. -/
def furtherText (texts : List (List Char)) : List Char :=
  texts.flatMap fun text => ',' :: ' ' :: text

/-- The members of a list, separated by commas. -/
def listText : List (List Char) → List Char
  | [] => []
  | text :: texts => text ++ furtherText texts

/-- The text of the letter `d` and the sides. -/
def Sides.text : Sides → List Char
  | faces n => 'd' :: digits n
  | fate => ['d', 'F']

/-- The text of a condition. -/
def Bound.text (bound : Bound) : List Char := bound.op.symbol.toList ++ digits bound.limit

/-- The text of an argument, if there is one. -/
def boundText (bound : Option Bound) : List Char := (bound.map Bound.text).getD []

/-- The text of a number of dice, if there is one. -/
def amountText (amount : Option Nat) : List Char := (amount.map digits).getD []

/-- The text of a modifier. -/
def Step.text : Step → List Char
  | explode penetrating bound => (if penetrating then ['!', 'p'] else ['!']) ++ boundText bound
  | keep highest amount => (if highest then ['k', 'h'] else ['k', 'l']) ++ amountText amount
  | drop highest amount => (if highest then ['d', 'h'] else ['d', 'l']) ++ amountText amount
  | critical success bound => (if success then ['c', 's'] else ['c', 'f']) ++ boundText bound
  | reroll once bound => (if once then ['r', 'o'] else ['r']) ++ boundText bound
  | sort descending => if descending then ['s', 'd'] else ['s', 'a']

/-- The text of the number of repeats of a group, if there is one. -/
def repeatsText : Option Nat → List Char
  | none => []
  | some n => '.' :: '.' :: '.' :: digits n

mutual

/-- The text of an expression. -/
def text : Expr → List Char
  | literal n => digits n
  | roll count sides steps =>
    (if count.isLiteral then count.text else parenthesized count.text) ++
      (sides.text ++ steps.flatMap Step.text)
  | negate operand => '-' :: operandText 3 operand.precedence operand.text
  | binary op left right =>
    operandText (leftMinimum op) left.precedence left.text ++
      ' ' :: (op.symbol.toList ++
        ' ' :: operandText (rightMinimum op) right.precedence right.text)
  | compare op left right =>
    left.text ++ ' ' :: (op.symbol.toList ++ ' ' :: operandText 2 right.precedence right.text)
  | call name arguments => name.toList ++ '(' :: (listText (texts arguments) ++ [')'])
  | group members repeats => '{' :: (listText (texts members) ++ '}' :: repeatsText repeats)

/-- The texts of several expressions. -/
def texts : List Expr → List (List Char)
  | [] => []
  | e :: es => e.text :: texts es

end

/-- The texts of several expressions are those of each of them. -/
@[simp] theorem texts_eq_map (es : List Expr) : texts es = es.map text := by
  induction es with
  | nil => rfl
  | cons e es ih => rw [texts, ih, List.map_cons]

/-! ## Where a text is ambiguous -/

/-- Whether a step could still take a condition. -/
def Step.isOpen : Step → Bool
  | explode _ bound | critical _ bound | reroll _ bound => bound.isNone
  | _ => false

/-- Whether the text of an expression ends with a modifier that could still take a condition. -/
def endsOpen : Expr → Bool
  | roll _ _ steps => steps.getLast?.any Step.isOpen
  | negate operand => decide (3 ≤ operand.precedence) && operand.endsOpen
  | binary op _ right => decide (rightMinimum op ≤ right.precedence) && right.endsOpen
  | compare _ _ right => decide (2 ≤ right.precedence) && right.endsOpen
  | _ => false

mutual

/-- The number of comparisons whose sign is not read as theirs: the left operand is written
    without parentheses, but it is a comparison itself or takes the sign for its own condition. -/
def clashes : Expr → Nat
  | literal _ => 0
  | roll count _ _ => count.clashes
  | negate operand => operand.clashes
  | binary _ left right => left.clashes + right.clashes
  | compare _ left right =>
    (if left.precedence < 2 ∨ left.endsOpen = true then 1 else 0) + left.clashes + right.clashes
  | call _ arguments => clashesAll arguments
  | group members _ => clashesAll members

/-- The clashes in several expressions. -/
def clashesAll : List Expr → Nat
  | [] => 0
  | e :: es => e.clashes + clashesAll es

end

/-- The clashes of several expressions are those of each of them. -/
@[simp] theorem clashesAll_eq_sum (es : List Expr) : clashesAll es = (es.map clashes).sum := by
  induction es with
  | nil => rfl
  | cons e es ih => rw [clashesAll, ih, List.map_cons, List.sum_cons]

/-! ## Rendering -/

/-- A node is rendered from the texts of its children. -/
theorem render_make (kind : NodeKind) (attributes : List (String × Value))
    (children : List Node) :
    (Node.make kind attributes children).render =
      Rendering.assemble (.make kind attributes children) (children.map Node.render) := by
  rw [Node.make, Node.render, Node.renderAll_eq_map]

/-- The text of a natural number is its digits. -/
theorem toList_toString (n : Nat) : (toString n).toList = digits n := by
  rw [Nat.toString_eq_repr, Nat.toList_repr, digits]

/-- A natural number that can be written is shown in digits. -/
theorem valueText_int {n : Nat} (h : Writable n) :
    Rendering.valueText (some (.int n)) = .ok (String.ofList (digits n)) := by
  have writable : (some (Value.int n)).all Value.isWritable = true := by
    rw [Option.all_some]
    exact writable_iff.mp h
  rw [Rendering.valueText, if_pos writable, Value.optionText, Option.getD_some, Value.toText,
    Number.text, ← toList_toString, String.ofList_toList]
  rfl

/-- The tree of a natural number is rendered in digits. -/
theorem render_integer {n : Nat} (h : Writable n) :
    (Node.integer n).render = .ok (String.ofList (digits n)) := by
  rw [Node.integer, render_make, Rendering.assemble]
  exact valueText_int h

/-- The tree of a condition is rendered as its text. -/
theorem render_bound {bound : Bound} (h : Writable bound.limit) :
    bound.toNode.render = .ok (String.ofList bound.text) := by
  rw [Bound.toNode, render_make, List.map_singleton, render_integer h]
  simp only [Rendering.assemble, Node.make, List.length_singleton, if_true, Rendering.part]
  rw [Bound.text, String.ofList_append, String.ofList_toList]
  rfl

/-- The rendering of an argument, empty if there is none. -/
theorem render_argument {step : Step} (h : step.Legible) :
    ∃ text, (∀ node ∈ step.argument, node.render = .ok (String.ofList text)) ∧
      (step.argument = none → text = []) ∧
      ∃ letters, step.text = letters ++ text ∧ ∀ node : Node,
        Rendering.modifierLetters (step.toNode node) step.modifier = String.ofList letters := by
  -- The argument of a modifier is a condition or a number, and either may be left out.
  have condition : ∀ bound : Option Bound, (∀ b ∈ bound, Writable b.limit) →
      (∀ node ∈ bound.map Bound.toNode, node.render = .ok (String.ofList (boundText bound))) ∧
      (bound.map Bound.toNode = none → boundText bound = []) := by
    intro bound small
    cases bound with
    | none => exact ⟨nofun, fun _ => rfl⟩
    | some b =>
      refine ⟨?_, nofun⟩
      rintro node ⟨⟩
      exact render_bound (small b rfl)
  have number : ∀ amount : Option Nat, (∀ n ∈ amount, Writable n) →
      (∀ node ∈ amount.map fun k : Nat => Node.integer k,
        node.render = .ok (String.ofList (amountText amount))) ∧
      (amount.map (fun k : Nat => Node.integer k) = none → amountText amount = []) := by
    intro amount small
    cases amount with
    | none => exact ⟨nofun, fun _ => rfl⟩
    | some n =>
      refine ⟨?_, nofun⟩
      rintro node ⟨⟩
      exact render_integer (small n rfl)
  -- The letters tell the variant of the modifier; the argument is written behind them.
  cases step with
  | explode penetrating bound =>
    refine ⟨boundText bound, (condition bound h).1, (condition bound h).2, _, rfl, fun node => ?_⟩
    cases penetrating <;> rfl
  | keep highest amount =>
    refine ⟨amountText amount, (number amount h).1, (number amount h).2, _, rfl, fun node => ?_⟩
    cases highest <;> rfl
  | drop highest amount =>
    refine ⟨amountText amount, (number amount h).1, (number amount h).2, _, rfl, fun node => ?_⟩
    cases highest <;> rfl
  | critical success bound =>
    refine ⟨boundText bound, (condition bound h).1, (condition bound h).2, _, rfl, fun node => ?_⟩
    cases success <;> rfl
  | reroll once bound =>
    refine ⟨boundText bound, (condition bound h).1, (condition bound h).2, _, rfl, fun node => ?_⟩
    cases once <;> rfl
  | sort descending =>
    refine ⟨[], nofun, fun _ => rfl, _, (List.append_nil _).symm, fun node => ?_⟩
    cases descending <;> rfl

/-- A step is written behind the roll that it is applied to. -/
theorem render_step {step : Step} {node : Node} {text : List Char} (h : step.Legible)
    (hnode : node.render = .ok (String.ofList text)) :
    (step.toNode node).render = .ok (String.ofList (text ++ step.text)) := by
  obtain ⟨argument, written, absent, letters, htext, hletters⟩ := render_argument h
  have hletters := hletters node
  rw [Step.toNode] at hletters ⊢
  rw [render_make, List.map_cons, hnode, htext, String.ofList_append, String.ofList_append,
    ← hletters]
  -- Sorting takes no argument, so nothing is left out.
  have sorted : step.modifier = .sort → argument = [] := by
    intro hm
    refine absent ?_
    cases step <;> first | rfl | cases hm
  have unsorted : (if step.modifier = .sort then "" else String.ofList argument) =
      String.ofList argument := by
    split
    · next hm => rw [sorted hm]
    · rfl
  -- The children are the roll and the argument, if there is one.
  cases harg : step.argument with
  | none =>
    change Except.ok (_ ++ _ ++ if step.modifier = .sort then "" else "") = Except.ok _
    rw [absent harg, ite_self, String.append_assoc]
  | some node' =>
    rw [Option.toList_some, List.map_singleton, written node' harg]
    change Except.ok (_ ++ _ ++ if step.modifier = .sort then "" else _) = Except.ok _
    rw [unsorted, String.append_assoc]

/-- The tree of a modified roll is rendered as the roll and its modifiers, in order. -/
theorem render_modified {steps : List Step} {roll : Node} {text : List Char}
    (h : ∀ step ∈ steps, step.Legible) (hroll : roll.render = .ok (String.ofList text)) :
    (modified roll steps).render = .ok (String.ofList (text ++ steps.flatMap Step.text)) := by
  induction steps generalizing roll text with
  | nil => rw [modified_nil, List.flatMap_nil, List.append_nil, hroll]
  | cons step steps ih =>
    have first := render_step (h step List.mem_cons_self) hroll
    have := ih (fun s hs => h s (List.mem_cons_of_mem _ hs)) first
    rwa [List.flatMap_cons, ← List.append_assoc]

/-- Only literals are written without parentheses before dice. -/
theorem kind_toNode_eq_integer_iff (e : Expr) : e.toNode.kind = .integer ↔ e.isLiteral = true := by
  cases e with
  | roll count sides steps =>
    rw [toNode]
    rcases kind_modified count.toNode sides steps with h | ⟨m, h⟩
    · rw [h]
      exact iff_of_false (by simp) (by simp [isLiteral])
    · rw [h]
      exact iff_of_false (by simp) (by simp [isLiteral])
  | literal => exact iff_of_true rfl rfl
  | _ => exact iff_of_false (by simp [toNode, Node.make]) (by simp [isLiteral])

/-- The precedence of an expression is that of the kind of its tree. -/
theorem precedence_toNode (e : Expr) : e.toNode.kind.precedence = e.precedence := by
  cases e with
  | roll count sides steps =>
    rw [toNode]
    rcases kind_modified count.toNode sides steps with h | ⟨m, h⟩ <;> rw [h] <;> rfl
  | _ => rfl

/-- A text in parentheses, as characters and as a string. -/
theorem ofList_parenthesized (text : List Char) :
    String.ofList (parenthesized text) = Rendering.parenthesize (String.ofList text) := by
  rw [parenthesized, Rendering.parenthesize, ← String.toList_inj]
  simp

/-- An operand is rendered with parentheses where its precedence asks for them. -/
theorem render_operand {e : Expr} {minimum : Nat} :
    Rendering.operand e.toNode.kind minimum (.ok (String.ofList e.text)) =
      .ok (String.ofList (operandText minimum e.precedence e.text)) := by
  rw [Rendering.operand, precedence_toNode, operandText]
  change Except.ok _ = Except.ok _
  split
  · rw [ofList_parenthesized]
  · rfl

/-- Dice are rendered as their count and their sides. -/
theorem render_sides {sides : Sides} (h : sides.Legible) (count : Node) (countText : List Char) :
    Rendering.dice [count, .diceSides sides.toValue]
        [.ok (String.ofList countText), (Node.diceSides sides.toValue).render] =
      .ok (String.ofList ((if count.kind = .integer then countText else parenthesized countText) ++
        sides.text)) := by
  -- Texts are joined as strings there and as characters here.
  have count_eq : (if count.kind = .integer then String.ofList countText
      else Rendering.parenthesize (String.ofList countText)) =
      String.ofList (if count.kind = .integer then countText else parenthesized countText) := by
    split
    · rfl
    · rw [ofList_parenthesized]
  rw [String.ofList_append, ← count_eq]
  cases sides with
  | faces n =>
    have written : (Node.diceSides (Sides.faces n).toValue).render =
        .ok (String.ofList (digits n)) := by
      rw [Node.diceSides, render_make, Rendering.assemble]
      exact (if_neg (fun fate => by cases fate)).trans (valueText_int h)
    rw [written]
    change Except.ok (_ ++ "d" ++ _) = Except.ok _
    exact congrArg Except.ok (String.toList_inj.mp (by simp [Sides.text]))
  | fate => rfl

/-- The members of a list stand between commas and spaces. -/
theorem intercalate_eq_listText (texts : List (List Char)) :
    List.intercalate [',', ' '] texts = listText texts := by
  cases texts with
  | nil => rfl
  | cons text texts =>
    rw [listText]
    induction texts generalizing text with
    | nil => simp [furtherText]
    | cons text' texts ih =>
      rw [List.intercalate_cons_cons, ih text']
      simp [furtherText]

/-- Texts are written one behind the other, with commas between them. -/
theorem listText_ok (texts : List (List Char)) :
    Rendering.listText (texts.map fun text => .ok (String.ofList text)) =
      .ok (String.ofList (listText texts)) := by
  -- No text of the list fails, so they are joined.
  have all : (texts.map fun text => (.ok (String.ofList text) : Rendered)).mapM id =
      .ok (texts.map String.ofList) := by
    induction texts with
    | nil => rfl
    | cons text texts ih =>
      rw [List.map_cons, List.mapM_cons, ih]
      rfl
  rw [Rendering.listText, all]
  refine congrArg Except.ok (String.toList_inj.mp ?_)
  rw [← intercalate_eq_listText, String.toList_intercalate, List.map_map, String.toList_ofList,
    String.toList_ofList]
  exact congrArg _ ((List.map_congr_left fun text _ => String.toList_ofList).trans (List.map_id _))

/-- A list of trees is rendered as the texts of its expressions. -/
theorem render_list {es : List Expr}
    (h : ∀ e ∈ es, e.toNode.render = .ok (String.ofList e.text)) :
    Rendering.listText ((es.map toNode).map Node.render) =
      .ok (String.ofList (listText (es.map text))) := by
  rw [← listText_ok, List.map_map, List.map_map]
  exact congrArg _ (List.map_congr_left h)

/-- A binary operator is written between its operands. -/
theorem render_binary {kind : NodeKind} {symbol : String} {left right : Expr}
    {leftMinimum rightMinimum : Nat} (precedence : Nat) (rightward : Bool)
    (hl : (if rightward then precedence + 1 else precedence) = leftMinimum)
    (hr : (if rightward then precedence else precedence + 1) = rightMinimum)
    (hleft : left.toNode.render = .ok (String.ofList left.text))
    (hright : right.toNode.render = .ok (String.ofList right.text))
    (assembled : ∀ parts, Rendering.assemble (.make kind [] [left.toNode, right.toNode]) parts =
      Rendering.binary symbol precedence rightward [left.toNode, right.toNode] parts) :
    (Node.make kind [] [left.toNode, right.toNode]).render =
      .ok (String.ofList (operandText leftMinimum left.precedence left.text ++
        ' ' :: (symbol.toList ++
          ' ' :: operandText rightMinimum right.precedence right.text))) := by
  rw [render_make, assembled, List.map_cons, List.map_singleton, hleft, hright]
  rw [Rendering.binary, hl, hr, render_operand, render_operand]
  change Except.ok (_ ++ " " ++ symbol ++ " " ++ _) = Except.ok _
  exact congrArg Except.ok (String.toList_inj.mp (by simp))

/-- Where anything may stand, there are no parentheses. -/
theorem operandText_one (e : Expr) : operandText 1 e.precedence e.text = e.text := by
  have : 1 ≤ e.precedence := by
    cases e with
    | binary op => cases op <;> simp [precedence, Operator.precedence]
    | _ => simp [precedence]
  rw [operandText, if_neg (by omega)]

/-- The tree of a legible expression is rendered as the text of the expression. -/
theorem render_toNode {e : Expr} (h : e.Legible) :
    e.toNode.render = .ok (String.ofList e.text) := by
  induction e with
  | literal n =>
    rw [Legible] at h
    exact render_integer h
  | roll count sides steps ih =>
    rw [Legible] at h
    obtain ⟨hcount, hsides, hsteps⟩ := h
    rw [toNode, text, ← List.append_assoc]
    -- The letters of the modifiers stand behind the plain roll, one after the other.
    refine render_modified hsteps ?_
    rw [plainRoll, render_make, Rendering.assemble, List.map_cons, List.map_singleton, ih hcount]
    have := render_sides hsides count.toNode count.text
    simp only [kind_toNode_eq_integer_iff] at this
    exact this
  | negate operand ih =>
    rw [Legible] at h
    rw [toNode, text, render_make, List.map_singleton, ih h]
    change (Rendering.operand operand.toNode.kind 3 (.ok (String.ofList operand.text)) >>=
      fun body => Except.ok ("-" ++ body)) = _
    rw [render_operand]
    exact congrArg Except.ok (String.toList_inj.mp (by simp))
  | binary op left right ih ih' =>
    rw [Legible] at h
    rw [toNode, text]
    -- Arithmetic and comparisons share the lemma on infix operators, which puts the parentheses.
    refine render_binary op.precedence (op == .exponent) ?_ ?_
      (ih h.1) (ih' h.2) fun parts => rfl
    · cases op <;> rfl
    · cases op <;> rfl
  | compare op left right ih ih' =>
    rw [Legible] at h
    rw [toNode, text, ← operandText_one left]
    exact render_binary 1 false rfl rfl (ih h.1) (ih' h.2)
      fun parts => rfl
  | call name arguments ih =>
    rw [Legible, legibleAll_iff] at h
    rw [toNode, text, toNodes_eq_map, texts_eq_map, render_make, Rendering.assemble]
    simp only [Node.make]
    rw [render_list fun e he => ih e he (h.2 e he)]
    change Except.ok (name ++ "(" ++ _ ++ ")") = Except.ok _
    exact congrArg Except.ok (String.toList_inj.mp (by simp))
  | group members repeats ih =>
    rw [Legible, legibleAll_iff] at h
    rw [toNode, text, toNodes_eq_map, texts_eq_map, render_make, Rendering.assemble]
    simp only [Node.make]
    rw [render_list fun e he => ih e he (h.1 e he)]
    -- The number of repetitions is written only where it was given.
    cases repeats with
    | none =>
      change Except.ok ("\x7b" ++ _ ++ "\x7d") = Except.ok _
      exact congrArg Except.ok (String.toList_inj.mp (by simp [repeatsText]))
    | some n =>
      have times : (Node.get? ⟨.group, .ofList (groupAttributes (some n)), members.map toNode⟩
          "repeat").filter (fun times => !times.isNothing) = some (.int n) := rfl
      rw [times]
      simp only [valueText_int (h.2 n rfl)]
      exact congrArg Except.ok (String.toList_inj.mp (by simp [repeatsText]))

end DiceNotation.Expr
