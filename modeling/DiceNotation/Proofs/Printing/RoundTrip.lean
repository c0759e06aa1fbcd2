import DiceNotation.Proofs.Parsing.Language
import DiceNotation.Proofs.Printing.Parentheses
import DiceNotation.Proofs.Printing.Reading

/-! # Rendering and parsing

The tree of an accepted text can always be rendered.  The rendering is read as the same tree if
and only if there are no clashes: a comparison is written without parentheses as the left operand
of another one, which the parser does not chain, and so is a roll whose last modifier would take
the comparison sign for its own condition. -/

namespace DiceNotation

open DiceNotation.Expr (Sides Bound Step literal roll binary compare)
open Grammar (Accepts)

/-- What a text is accepted as is legible. -/
theorem legible_of_accepts {text : String} {e : Expr} (h : Accepts (lex text) e) : e.Legible := by
  obtain ⟨last, -, derives⟩ := h
  exact legible_of_derives derives (proper_lex text) trivial

/-- Expressions without clashes, and only those, are read back from their text. -/
theorem parse_text_iff {e : Expr} (legible : e.Legible) :
    parse (String.ofList e.text) = .ok ⟨e.toNode, []⟩ ↔ e.clashes = 0 := by
  constructor
  · intro h
    obtain ⟨e', same, accepts⟩ := accepts_of_parse h
    rw [← Expr.toNode_injective same] at accepts
    exact clear_of_accepts legible accepts
  · intro clear
    exact parse_of_accepts (accepts_text legible clear)

/-- What is read without a diagnostic is rendered.  The rendering is read without a diagnostic as
    the same tree if and only if there are no clashes in the expression. -/
theorem parse_render_iff {text : String} {root : Node} (h : parse text = .ok ⟨root, []⟩) :
    ∃ (e : Expr) (text' : String), root = e.toNode ∧ root.render = .ok text' ∧
      (parse text' = .ok ⟨root, []⟩ ↔ e.clashes = 0) := by
  obtain ⟨e, rfl, accepts⟩ := accepts_of_parse h
  have legible : e.Legible := legible_of_accepts accepts
  exact ⟨e, String.ofList e.text, rfl, Expr.render_toNode legible, parse_text_iff legible⟩

/-- A roll in parentheses, in a product. -/
theorem parse_render_iff_roll :
    let root := (binary .multiply (binary .add (roll (literal 4) (.faces 6) [.keep true (some 3)])
      (literal 1)) (literal 2)).toNode
    parse "(4d6kh3 + 1) * 2" = .ok ⟨root, []⟩ ∧
      ∃ (e : Expr) (text' : String), root = e.toNode ∧ root.render = .ok text' ∧
        (parse text' = .ok ⟨root, []⟩ ↔ e.clashes = 0) := by
  intro root
  have read : parse "(4d6kh3 + 1) * 2" = .ok ⟨root, []⟩ := rfl
  exact ⟨read, parse_render_iff read⟩

/-- The tree of an accepted text with clashes is not read back from its rendering. -/
private theorem parse_render_ne {text : String} {e : Expr} (h : parse text = .ok ⟨e.toNode, []⟩)
    (clash : e.clashes ≠ 0) :
    ∃ text', e.toNode.render = .ok text' ∧ parse text' ≠ .ok ⟨e.toNode, []⟩ := by
  obtain ⟨e', same, accepts⟩ := accepts_of_parse h
  rw [← Expr.toNode_injective same] at accepts
  have legible : e.Legible := legible_of_accepts accepts
  exact ⟨_, Expr.render_toNode legible, fun back => clash ((parse_text_iff legible).mp back)⟩

/-- The parentheses of `(1 = 2) = 3` and of `(1d6!) > 3` are needed, and are not rendered. -/
theorem rendering_not_parsed_back :
    (∃ root text', parse "(1 = 2) = 3" = .ok ⟨root, []⟩ ∧ root.render = .ok text' ∧
      parse text' ≠ .ok ⟨root, []⟩) ∧
    ∃ root text', parse "(1d6!) > 3" = .ok ⟨root, []⟩ ∧ root.render = .ok text' ∧
      parse text' ≠ .ok ⟨root, []⟩ := by
  constructor
  · let chained := compare .equal (compare .equal (literal 1) (literal 2)) (literal 3)
    have read : parse "(1 = 2) = 3" = .ok ⟨chained.toNode, []⟩ := rfl
    obtain ⟨text', rendered, lost⟩ := parse_render_ne read (by decide)
    exact ⟨_, text', read, rendered, lost⟩
  · let taken := compare .greater (roll (literal 1) (.faces 6) [.explode false none]) (literal 3)
    have read : parse "(1d6!) > 3" = .ok ⟨taken.toNode, []⟩ := rfl
    obtain ⟨text', rendered, lost⟩ := parse_render_ne read (by decide)
    exact ⟨_, text', read, rendered, lost⟩

end DiceNotation
