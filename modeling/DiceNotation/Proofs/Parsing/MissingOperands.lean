import DiceNotation.Proofs.Parsing.Positions

/-! # Missing operands

Recovery is exact where all that is wrong with a text is that operands are missing.  The parser
records one diagnostic for each of them, from left to right, and reads the rest as if a zero stood
there: no rule takes the token that it finds in the place of an operand, so that the rule around it
goes on with that token.

* `picks_of_tolerates`      the gaps are tokens of the phrase, from left to right
* `parse_missingOperands`   what is returned for a text with gaps -/

namespace DiceNotation

open Grammar (Phrase Tolerates Integer Ends Modifiers)

/-! ## The order of gaps -/

/-- Some of the tokens, from left to right, and no words. -/
structure Picks (picked tokens : List Token) : Prop where
  noWord : ∀ token ∈ picked, token.kind ≠ .identifier
  sublist : picked.Sublist tokens

namespace Picks

variable {token : Token} {picked tokens rest : List Token}

/-- What is picked from tokens is picked from more of them. -/
theorem cons (h : Picks picked tokens) : Picks picked (token :: tokens) :=
  ⟨h.noWord, h.sublist.cons token⟩

/-- What is picked behind the first token is picked. -/
theorem tail (h : Picks picked tokens.tail) : Picks picked tokens :=
  ⟨h.noWord, h.sublist.trans (List.tail_sublist tokens)⟩

/-- A token that closes can be picked. -/
private theorem gap (h : Picks picked tokens) (closes : Parser.isClosing token.kind = true) :
    Picks (token :: picked) (token :: tokens) := by
  refine ⟨List.forall_mem_cons.mpr ⟨fun word => ?_, h.noWord⟩, h.sublist.cons_cons token⟩
  rw [word] at closes
  cases closes

/-- Only words are cut, so that other tokens behind a phrase are tokens of the whole. -/
private theorem behind (h : Picks picked rest) (behind : Behind tokens rest) :
    Picks picked tokens := by
  induction behind with
  | refl => exact h
  | take _ _ ih => exact (ih h).cons
  | cut _ _ _ _ ih =>
    obtain ⟨noWord, sublist⟩ := ih h
    cases sublist with
    | cons _ sublist => exact ⟨noWord, sublist.cons _⟩
    | cons_cons _ _ => exact absurd rfl (noWord _ List.mem_cons_self)

end Picks

/-- The tokens among which the gaps of a phrase are.  A phrase that goes on with what stands before
    it takes a token before it can miss an operand. -/
def Grammar.Phrase.room (tokens : List Token) : Phrase → List Token
  | .sum _ | .product _ | .arguments _ _ | .members _ => tokens.tail
  | _ => tokens

/-- The gaps of a phrase are tokens of it, from left to right; the last one may be the token that
    stands behind it. -/
theorem picks_of_tolerates {phrase : Phrase} {tokens gaps rest : List Token} {e : Expr}
    (h : Tolerates phrase tokens e gaps rest) {later : List Token} (picks : Picks later rest.tail) :
    Picks (gaps ++ later) (phrase.room tokens) := by
  -- Of two phrases, one behind the other, the second one's gaps and what is picked later stand
  -- behind the token that ends the first one.
  have both : ∀ {gaps gaps' later tokens : List Token}, Picks (gaps ++ (gaps' ++ later)) tokens →
      Picks (gaps ++ gaps' ++ later) tokens := by
    intro gaps gaps' later tokens h
    rwa [List.append_assoc]
  induction h generalizing later with
  -- The token stays where it is, but nothing that is picked later is that token again.
  | hole closes => exact picks.gap closes
  | single _ _ ih => exact ih picks
  | compare _ _ _ ih ih' => exact both (ih (ih' picks))
  | unsigned _ _ ih ih' => exact both (ih (ih' picks))
  | positive _ _ _ ih ih' => exact (both (ih (ih' picks))).cons
  | negative _ _ _ ih ih' => exact (both (ih (ih' picks))).cons
  | sumEnd _ => exact picks
  | sumMore _ _ _ ih ih' => exact both (ih (ih' picks))
  | term _ _ ih ih' => exact both (ih (ih' picks))
  | productEnd _ => exact picks
  | productMore _ _ _ ih ih' => exact both (ih (ih' picks))
  | base _ _ ih => exact ih picks
  | exponent _ _ _ ih ih' => exact both (ih (ih' picks))
  | integer number _ => exact picks.tail.behind (behind_integer number)
  | integerDice number dice modifiers =>
    have behind := (behind_dice dice).trans (behind_modifiers modifiers)
    exact picks.tail.behind ((behind_integer number).trans behind)
  | dice dice modifiers =>
    exact picks.tail.behind ((behind_dice dice).trans (behind_modifiers modifiers))
  | parentheses _ _ _ _ ih => exact (ih picks.tail).cons
  | parenthesesDice _ _ _ dice modifiers ih =>
    have behind := (behind_dice dice).trans (behind_modifiers modifiers)
    exact (ih (picks.tail.behind behind)).cons
  | emptyCall _ _ _ _ => exact picks.tail.cons.cons.cons
  | call _ _ _ _ _ _ ih ih' => exact (both (ih (ih' picks))).cons.cons
  | callEnd _ => exact picks.tail
  | callMore _ _ _ ih ih' => exact both (ih (ih' picks))
  | emptyGroup _ _ times => exact (picks.tail.behind (behind_repeats times)).cons.cons
  | group _ _ _ _ ih ih' => exact (both (ih (ih' picks))).cons
  | groupEnd _ times => exact picks.tail.behind (behind_repeats times)
  | groupMore _ _ _ ih ih' => exact both (ih (ih' picks))

/-! ## Whole texts -/

/-- Recovery is exact for missing operands.  If the grammar, with operands missing before the
    tokens `gaps`, derives a text up to its end, the parser returns the derived tree, in which a
    zero stands in for each missing operand.  It records one diagnostic for each of them and no
    other, from left to right, at the token that stands in the place of the operand.  Numerals are
    derived if they can be read, that is, up to `Numeral.maxDigits` digits. -/
theorem parse_missingOperands {text : String} {e : Expr} {gaps : List Token} {last : Token}
    (atEnd : last.kind = .endOfInput)
    (derives : Tolerates .expression (lex text) e gaps [last]) :
    ∃ result, parse text = .ok result ∧ result.root = e.toNode ∧
      result.diagnostics.map (fun d => (d.code, d.position)) =
        gaps.map (fun gap => ("E-PARSE-UNEXPECTED-TOKEN", gap.position)) ∧
      gaps.Sublist (lex text) ∧
      result.diagnostics.Pairwise fun d d' => d.position < d'.position := by
  have sublist : gaps.Sublist (lex text) := by
    have := (picks_of_tolerates derives ⟨List.forall_mem_nil _, List.nil_sublist _⟩).sublist
    rwa [List.append_nil] at this
  refine ⟨_, parse_of_tolerates atEnd derives, rfl, ?_, sublist, ?_⟩
  · rw [List.map_map]
    rfl
  · exact List.pairwise_map.mpr ((positions_lex text).sublist sublist)

/-- Operands are missing before a parenthesis, a comma, a brace and the end of the input. -/
theorem parse_missingOperands_nested :
    let text := "-(1 + )d6 * {, 2 ** } >"
    let roll := Expr.roll (.binary .add (.literal 1) (.literal 0)) (.faces 6) []
    let group := Expr.group [.literal 0, .binary .exponent (.literal 2) (.literal 0)] none
    let e := Expr.compare .greater (.negate (.binary .multiply roll group)) (.literal 0)
    ∃ gaps last, last.kind = .endOfInput ∧ Tolerates .expression (lex text) e gaps [last] ∧
      gaps.map Token.kind = [.parenthesisClose, .comma, .braceClose, .endOfInput] ∧
      ∃ result, parse text = .ok result ∧ result.root = e.toNode ∧
        result.diagnostics.map (fun d => (d.code, d.position)) =
          gaps.map (fun gap => ("E-PARSE-UNEXPECTED-TOKEN", gap.position)) ∧
        gaps.Sublist (lex text) ∧
        result.diagnostics.Pairwise fun d d' => d.position < d'.position := by
  intro text roll group e
  have tokens : lex text = [⟨.minus, 0, "-"⟩, ⟨.parenthesisOpen, 1, "("⟩, ⟨.integer, 2, "1"⟩,
      ⟨.plus, 4, "+"⟩, ⟨.parenthesisClose, 6, ")"⟩, ⟨.identifier, 7, "d"⟩, ⟨.integer, 8, "6"⟩,
      ⟨.asterisk, 10, "*"⟩, ⟨.braceOpen, 12, "\x7b"⟩, ⟨.comma, 13, ","⟩, ⟨.integer, 15, "2"⟩,
      ⟨.doubleAsterisk, 17, "**"⟩, ⟨.braceClose, 20, "\x7d"⟩, ⟨.greater, 22, ">"⟩, .endAt 23] := by
    decide
  have ends {begins : TokenKind → Bool} {token : Token} {tokens : List Token}
      (h : begins token.kind = false) : Ends begins (token :: tokens) := by
    rintro _ ⟨⟩
    exact h
  -- An operand is missing before each of the tokens that close something.
  have missing (gap : Token) (rest : List Token) (closes : Parser.isClosing gap.kind = true) :
      Tolerates .power (gap :: rest) (.literal 0) [gap] (gap :: rest) := by
    refine .base (.hole closes) (ends ?_)
    revert closes
    cases gap.kind <;> decide
  have one (rest : List Token) : Tolerates .term
      (⟨.integer, 2, "1"⟩ :: ⟨.plus, 4, "+"⟩ :: rest) (.literal 1) [] (⟨.plus, 4, "+"⟩ :: rest) :=
    .term (.base (.integer ⟨rfl, rfl⟩ (ends rfl)) (ends rfl)) (.productEnd (ends rfl))
  have sum (rest : List Token) : Tolerates .expression
      (⟨.integer, 2, "1"⟩ :: ⟨.plus, 4, "+"⟩ :: ⟨.parenthesisClose, 6, ")"⟩ :: rest)
      (.binary .add (.literal 1) (.literal 0)) [⟨.parenthesisClose, 6, ")"⟩]
      (⟨.parenthesisClose, 6, ")"⟩ :: rest) :=
    .single (.unsigned (one _) (.sumMore rfl (.term (missing _ rest rfl) (.productEnd (ends rfl)))
      (.sumEnd (ends rfl)))) (ends rfl)
  have dice (rest : List Token) : Tolerates .power (⟨.parenthesisOpen, 1, "("⟩ ::
      ⟨.integer, 2, "1"⟩ :: ⟨.plus, 4, "+"⟩ :: ⟨.parenthesisClose, 6, ")"⟩ ::
        ⟨.identifier, 7, "d"⟩ :: ⟨.integer, 8, "6"⟩ :: ⟨.asterisk, 10, "*"⟩ :: rest)
      roll [⟨.parenthesisClose, 6, ")"⟩] (⟨.asterisk, 10, "*"⟩ :: rest) := by
    have plain : Modifiers (⟨.asterisk, 10, "*"⟩ :: rest) [] (⟨.asterisk, 10, "*"⟩ :: rest) := by
      refine .done (ends rfl) ?_
      rintro letters - _ ⟨⟩ word
      cases word
    exact .base (.parenthesesDice rfl (sum _) rfl (.faces rfl rfl ⟨rfl, rfl⟩) plain) (ends rfl)
  have nothing (rest : List Token) : Tolerates .expression (⟨.comma, 13, ","⟩ :: rest) (.literal 0)
      [⟨.comma, 13, ","⟩] (⟨.comma, 13, ","⟩ :: rest) :=
    .single (.unsigned (.term (missing _ rest rfl) (.productEnd (ends rfl))) (.sumEnd (ends rfl)))
      (ends rfl)
  have power (rest : List Token) : Tolerates .expression
      (⟨.integer, 15, "2"⟩ :: ⟨.doubleAsterisk, 17, "**"⟩ :: ⟨.braceClose, 20, "\x7d"⟩ :: rest)
      (.binary .exponent (.literal 2) (.literal 0)) [⟨.braceClose, 20, "\x7d"⟩]
      (⟨.braceClose, 20, "\x7d"⟩ :: rest) :=
    .single (.unsigned (.term (.exponent (.integer ⟨rfl, rfl⟩ (ends rfl)) rfl (missing _ rest rfl))
      (.productEnd (ends rfl))) (.sumEnd (ends rfl))) (ends rfl)
  have braces (rest : List Token) : Tolerates .power (⟨.braceOpen, 12, "\x7b"⟩ ::
      ⟨.comma, 13, ","⟩ :: ⟨.integer, 15, "2"⟩ :: ⟨.doubleAsterisk, 17, "**"⟩ ::
        ⟨.braceClose, 20, "\x7d"⟩ :: ⟨.greater, 22, ">"⟩ :: rest)
      group [⟨.comma, 13, ","⟩, ⟨.braceClose, 20, "\x7d"⟩] (⟨.greater, 22, ">"⟩ :: rest) :=
    .base (.group rfl (ends rfl) (nothing _) (.groupMore rfl (power _)
      (.groupEnd rfl (.absent (ends rfl))))) (ends rfl)
  -- The parts are put together to the whole expression.
  have derives : Tolerates .expression (lex text) e [⟨.parenthesisClose, 6, ")"⟩, ⟨.comma, 13, ","⟩,
      ⟨.braceClose, 20, "\x7d"⟩, .endAt 23] [.endAt 23] := by
    rw [tokens]
    exact .compare (.negative rfl (.term (dice _) (.productMore rfl (braces _)
      (.productEnd (ends rfl)))) (.sumEnd (ends rfl))) rfl
      (.unsigned (.term (missing _ [] rfl) (.productEnd (ends rfl))) (.sumEnd (ends rfl)))
  exact ⟨_, _, rfl, derives, rfl, parse_missingOperands rfl derives⟩

end DiceNotation
