import DiceNotation.Proofs.Parsing.Expression
import DiceNotation.Proofs.Printing.Dice

/-! # The text of an expression is read back

From the text of an expression without clashes the grammar derives the expression
(`accepts_text`).  The statement about a part of the text says which tokens may stand behind it:
those that no operator inside the part would take.

* `readsAt_operand`   an operand, in parentheses or not
* `readsAt_text`      every expression, as the phrase that its precedence allows -/

namespace DiceNotation

open DiceNotation.Expr (Sides Bound Step Writable digits)
open Grammar (Phrase Derives Ends)
open DiceNotation.Parser (comparison? additive? multiplicative?)

/-! ## Phrases -/

/-- How tightly the operator of a token binds, zero if it is none. -/
def tightness : TokenKind → Nat
  | .doubleAsterisk => 4
  | .asterisk | .slash | .percent => 3
  | .plus | .minus => 2
  | .equals | .greater | .greaterOrEqual | .less | .lessOrEqual => 1
  | _ => 0

/-- A comparison sign binds least. -/
private theorem tightness_comparison (op : Comparison) : tightness op.kind = 1 := by
  cases op <;> rfl

/-- What binds less than an exponent is none. -/
private theorem not_exponent {kind : TokenKind} (h : tightness kind < 4) :
    (kind == .doubleAsterisk) = false := by
  refine beq_false_of_ne ?_
  rintro rfl
  exact absurd h (by decide)

/-- What binds less than a product is no sign of one. -/
private theorem not_multiplicative {kind : TokenKind} (h : tightness kind < 3) :
    (multiplicative? kind).isSome = false := by
  cases kind <;> first | rfl | exact absurd h (by decide)

/-- What binds less than a sum is no sign of one. -/
private theorem not_additive {kind : TokenKind} (h : tightness kind < 2) :
    (additive? kind).isSome = false := by
  cases kind <;> first | rfl | exact absurd h (by decide)

/-- What binds less than a comparison is no sign of one. -/
private theorem not_comparison {kind : TokenKind} (h : tightness kind < 1) :
    comparison? kind = none := by
  cases kind <;> first | rfl | exact absurd h (by decide)

section Reads

variable (text : List Char) (e : Expr) (isOpen : Bool)

/-- The text is derived as a phrase of this kind, whatever may stand behind it. -/
def ReadsAs (phrase : Phrase) (limit : Nat) : Prop :=
  ∀ kind rest tokens, Follows kind rest → (isOpen = true → comparison? kind = none) →
    tightness kind < limit → Scans (text ++ rest) tokens →
    ∃ more, Scans rest more ∧ Derives phrase tokens e more

/-- The text is derived as the beginning of a phrase, which then goes on. -/
def ReadsInto (phrase : Phrase) (further : Expr → Phrase) (limit : Nat) : Prop :=
  ∀ kind rest tokens, Follows kind rest → (isOpen = true → comparison? kind = none) →
    tightness kind < limit → Scans (text ++ rest) tokens →
    ∃ more, Scans rest more ∧ ∀ e' behind, Derives (further e) more e' behind →
      Derives phrase tokens e' behind

/-- The text is derived as what the precedence `level` stands for. -/
def ReadsAt (level : Nat) : Prop :=
  match level with
  | 0 | 1 => ReadsAs text e isOpen .expression 1
  | 2 => ReadsInto text e isOpen .simple .sum 3
  | 3 => ReadsInto text e isOpen .term .product 4
  | 4 => ReadsAs text e isOpen .power 4
  | _ => ReadsAs text e isOpen .factor 5

variable {text e isOpen}

/-- A factor is read as a power. -/
theorem readsAt_four (h : ReadsAt text e isOpen 5) : ReadsAt text e isOpen 4 := by
  intro kind rest tokens follows condition tight scans
  obtain ⟨more, scans, factor⟩ := h _ _ _ follows condition (by omega) scans
  exact ⟨more, scans, .base factor (follows.begins.ends scans (not_exponent tight))⟩

/-- A power is read as a term. -/
private theorem readsAt_three (h : ReadsAt text e isOpen 4) : ReadsAt text e isOpen 3 := by
  intro kind rest tokens follows condition tight scans
  obtain ⟨more, scans, power⟩ := h _ _ _ follows condition tight scans
  exact ⟨more, scans, fun _ _ others => .term power others⟩

/-- A text that is read as a term is one, before what can follow it. -/
theorem term_of_readsAt {kind : TokenKind} {rest : List Char} {tokens : List Token}
    (h : ReadsAt text e isOpen 3) (follows : Follows kind rest)
    (condition : isOpen = true → comparison? kind = none) (tight : tightness kind < 3)
    (scans : Scans (text ++ rest) tokens) :
    ∃ more, Scans rest more ∧ Derives .term tokens e more := by
  obtain ⟨more, scans, term⟩ := h _ _ _ follows condition (by omega) scans
  exact ⟨more, scans, term _ _ (.productEnd (follows.begins.ends scans (not_multiplicative tight)))⟩

/-- A term is read as a sum. -/
theorem readsAt_two (h : ReadsAt text e isOpen 3) : ReadsAt text e isOpen 2 := by
  intro kind rest tokens follows condition tight scans
  obtain ⟨more, scans, term⟩ := term_of_readsAt h follows condition tight scans
  exact ⟨more, scans, fun _ _ others => .unsigned term others⟩

/-- A text that is read as a sum is one, before what can follow it. -/
private theorem simple_of_readsAt {kind : TokenKind} {rest : List Char} {tokens : List Token}
    (h : ReadsAt text e isOpen 2) (follows : Follows kind rest)
    (condition : isOpen = true → comparison? kind = none) (tight : tightness kind < 2)
    (scans : Scans (text ++ rest) tokens) :
    ∃ more, Scans rest more ∧ Derives .simple tokens e more := by
  obtain ⟨more, scans, simple⟩ := h _ _ _ follows condition (by omega) scans
  exact ⟨more, scans, simple _ _ (.sumEnd (follows.begins.ends scans (not_additive tight)))⟩

/-- A sum is read as an expression. -/
theorem readsAt_one (h : ReadsAt text e isOpen 2) : ReadsAt text e isOpen 1 := by
  intro kind rest tokens follows condition tight scans
  obtain ⟨more, scans, simple⟩ := simple_of_readsAt h follows condition (by omega) scans
  refine ⟨more, scans, .single simple (follows.begins.ends scans ?_)⟩
  rw [not_comparison tight]
  rfl

/-- What is read as a tight phrase is read as every looser one. -/
theorem readsAt_mono {level level' : Nat} (h : ReadsAt text e isOpen level') (le : level ≤ level')
    (bounded : level' ≤ 5) : ReadsAt text e isOpen level := by
  have down : ∀ n, n < 5 → ReadsAt text e isOpen (n + 1) → ReadsAt text e isOpen n := by
    intro n hn h
    match n, hn with
    | 0, _ => exact h
    | 1, _ => exact readsAt_one h
    | 2, _ => exact readsAt_two h
    | 3, _ => exact readsAt_three h
    | 4, _ => exact readsAt_four h
  induction le with
  | refl => exact h
  | step _ ih => exact ih (down _ (by omega) h) (by omega)

/-- What closes a list or parentheses can follow an expression. -/
theorem follows_closing {c : Char} {kind : TokenKind} {rest : List Char}
    (sign : IsSign [c] kind rest) (letter : c.isDigit = false ∧ c.isAlpha = false)
    (closes : kind ≠ .identifier ∧ kind ≠ .integer ∧ kind ≠ .exclamation ∧ kind ≠ .ellipsis) :
    Follows kind (c :: rest) where
  begins := begins_sign sign
  separate := by
    rintro d ⟨⟩
    exact letter
  closes := closes

/-- An opening parenthesis is a token of its own. -/
private theorem isSign_opening (rest : List Char) : IsSign ['('] .parenthesisOpen rest :=
  ⟨rfl, by rintro c ⟨⟩; rfl⟩

/-- A closing parenthesis is a token of its own. -/
private theorem isSign_closing (rest : List Char) : IsSign [')'] .parenthesisClose rest :=
  ⟨rfl, by rintro c ⟨⟩; rfl⟩

/-- A closing parenthesis can follow an expression. -/
private theorem follows_parenthesis (rest : List Char) : Follows .parenthesisClose (')' :: rest) :=
  follows_closing (isSign_closing rest) (by decide) (by decide)

/-- A text in parentheses is a factor if no word stands behind it. -/
theorem readsAt_parenthesized (h : ReadsAt text e isOpen 1) :
    ReadsAt (Expr.parenthesized text) e false 5 := by
  intro kind rest tokens follows _ _ scans
  have split : Expr.parenthesized text ++ rest = ['('] ++ (text ++ ([')'] ++ rest)) := by
    simp [Expr.parenthesized]
  rw [split] at scans
  obtain ⟨opening, mid, rfl, opens, scans⟩ := scans_sign scans (isSign_opening _)
  obtain ⟨mid, scans, inner⟩ := h _ _ _ (follows_parenthesis rest) (fun _ => rfl) (by decide) scans
  obtain ⟨closing, more, rfl, closes, scans⟩ := scans_sign scans (isSign_closing rest)
  have next : Ends (· == .identifier) more :=
    follows.begins.ends scans (beq_false_of_ne follows.closes.1)
  exact ⟨more, scans, .parentheses opens inner closes next⟩

end Reads

open DiceNotation.Expr

/-- Nothing binds tighter than a factor. -/
private theorem precedence_le (e : Expr) : e.precedence ≤ 5 := by
  cases e with
  | binary op => cases op <;> simp [precedence, Operator.precedence]
  | _ => simp [precedence]

/-- Nothing binds looser than a comparison. -/
private theorem one_le_precedence (e : Expr) : 1 ≤ e.precedence := by
  cases e with
  | binary op => cases op <;> simp [precedence, Operator.precedence]
  | _ => simp [precedence]

/-- An operand is read as the phrase that its place needs. -/
theorem readsAt_operand {e : Expr} (h : ReadsAt e.text e e.endsOpen e.precedence)
    {minimum : Nat} (bounded : 1 ≤ minimum ∧ minimum ≤ 5) :
    ReadsAt (operandText minimum e.precedence e.text) e
      (decide (minimum ≤ e.precedence) && e.endsOpen) minimum := by
  have small := precedence_le e
  have positive := one_le_precedence e
  rw [operandText]
  by_cases loose : e.precedence < minimum
  · rw [if_pos loose, decide_eq_false (by omega), Bool.false_and]
    have inner : ReadsAt e.text e e.endsOpen 1 := readsAt_mono h positive small
    exact readsAt_mono (readsAt_parenthesized inner) bounded.2 (Nat.le_refl _)
  · rw [if_neg loose, decide_eq_true (by omega), Bool.true_and]
    exact readsAt_mono h (by omega) small

/-! ## Operators -/

section Operators

variable {leftText rightText : List Char} {left right : Expr} {leftOpen rightOpen : Bool}

/-- A sign between spaces can follow an expression. -/
private theorem follows_sign {piece rest : List Char} {kind : TokenKind}
    (sign : IsSign piece kind (' ' :: rest))
    (closes : kind ≠ .identifier ∧ kind ≠ .integer ∧ kind ≠ .exclamation ∧ kind ≠ .ellipsis) :
    Follows kind (' ' :: (piece ++ ' ' :: rest)) where
  begins := begins_space (begins_sign sign)
  separate := by
    rintro d ⟨⟩
    decide
  closes := closes

/-- An operator between spaces can follow an expression. -/
private theorem follows_operator (op : Operator) (rest : List Char) :
    Follows op.kind (' ' :: (op.symbol.toList ++ ' ' :: rest)) :=
  follows_sign (isSign_operator op rest) (by cases op <;> decide)

/-- A comparison sign before a space is a token of its own. -/
private theorem isSign_comparison_space (op : Comparison) (rest : List Char) :
    IsSign op.symbol.toList op.kind (' ' :: rest) :=
  isSign_comparison op rest (by decide)

/-- A comparison sign between spaces can follow an expression. -/
private theorem follows_comparison (op : Comparison) (rest : List Char) :
    Follows op.kind (' ' :: (op.symbol.toList ++ ' ' :: rest)) :=
  follows_sign (isSign_comparison_space op rest) (by cases op <;> decide)

/-- An operator is no comparison sign. -/
private theorem not_comparison_operator (op : Operator) : comparison? op.kind = none := by
  cases op <;> rfl

/-- The text of an operator between its operands, put together differently. -/
private theorem append_operands (leftText symbol rightText rest : List Char) :
    (leftText ++ ' ' :: (symbol ++ ' ' :: rightText)) ++ rest =
      leftText ++ (' ' :: (symbol ++ ' ' :: (rightText ++ rest))) := by
  simp

/-- The sign between two operands. -/
private theorem scans_between {symbol rest : List Char} {kind : TokenKind} {tokens : List Token}
    (scans : Scans (' ' :: (symbol ++ ' ' :: rest)) tokens)
    (sign : IsSign symbol kind (' ' :: rest)) :
    ∃ token more, tokens = token :: more ∧ token.kind = kind ∧ Scans rest more := by
  obtain ⟨token, more, htokens, hk, scans⟩ := scans_sign (scans_space scans) sign
  exact ⟨token, more, htokens, hk, scans_space scans⟩

/-- The text of a sum is read as a sum. -/
private theorem readsAt_sum {op : Operator} (adds : additive? op.kind = some op)
    (hl : ReadsAt leftText left leftOpen 2) (hr : ReadsAt rightText right rightOpen 3) :
    ReadsAt (leftText ++ ' ' :: (op.symbol.toList ++ ' ' :: rightText)) (binary op left right)
      rightOpen 2 := by
  intro kind rest tokens follows condition tight scans
  rw [append_operands] at scans
  have between : tightness op.kind < 3 := by
    cases op <;> first | decide | cases adds
  obtain ⟨mid, scans, simple⟩ := hl _ _ _ (follows_operator op _)
    (fun _ => not_comparison_operator op) between scans
  obtain ⟨sign, mid, rfl, hk, scans⟩ := scans_between scans (isSign_operator op _)
  obtain ⟨more, scans, term⟩ := term_of_readsAt hr follows condition tight scans
  refine ⟨more, scans, fun e' behind others => simple _ _ ?_⟩
  exact .sumMore (by rw [hk, adds]) term others

/-- The text of a product is read as a term. -/
private theorem readsAt_product {op : Operator} (multiplies : multiplicative? op.kind = some op)
    (hl : ReadsAt leftText left leftOpen 3) (hr : ReadsAt rightText right rightOpen 4) :
    ReadsAt (leftText ++ ' ' :: (op.symbol.toList ++ ' ' :: rightText)) (binary op left right)
      rightOpen 3 := by
  intro kind rest tokens follows condition tight scans
  rw [append_operands] at scans
  have between : tightness op.kind < 4 := by
    cases op <;> first | decide | cases multiplies
  obtain ⟨mid, scans, term⟩ := hl _ _ _ (follows_operator op _)
    (fun _ => not_comparison_operator op) between scans
  obtain ⟨sign, mid, rfl, hk, scans⟩ := scans_between scans (isSign_operator op _)
  obtain ⟨more, scans, power⟩ := hr _ _ _ follows condition tight scans
  refine ⟨more, scans, fun e' behind others => term _ _ ?_⟩
  exact .productMore (by rw [hk, multiplies]) power others

/-- The text of a power is read as a power. -/
private theorem readsAt_exponent (hl : ReadsAt leftText left leftOpen 5)
    (hr : ReadsAt rightText right rightOpen 4) :
    ReadsAt (leftText ++ ' ' :: (Operator.exponent.symbol.toList ++ ' ' :: rightText))
      (binary .exponent left right) rightOpen 4 := by
  intro kind rest tokens follows condition tight scans
  rw [append_operands] at scans
  obtain ⟨mid, scans, factor⟩ := hl _ _ _ (follows_operator .exponent _)
    (fun _ => not_comparison_operator .exponent) (by decide) scans
  obtain ⟨sign, mid, rfl, hk, scans⟩ := scans_between scans (isSign_operator .exponent _)
  obtain ⟨more, scans, power⟩ := hr _ _ _ follows condition tight scans
  exact ⟨more, scans, .exponent factor hk power⟩

/-- A comparison, if its left operand does not take the sign for its own. -/
private theorem readsAt_compare {op : Comparison} (hl : ReadsAt leftText left false 2)
    (hr : ReadsAt rightText right rightOpen 2) :
    ReadsAt (leftText ++ ' ' :: (op.symbol.toList ++ ' ' :: rightText)) (compare op left right)
      rightOpen 1 := by
  intro kind rest tokens follows condition tight scans
  rw [append_operands] at scans
  obtain ⟨mid, scans, first⟩ := simple_of_readsAt hl (follows_comparison op _) nofun
    (by rw [tightness_comparison]; decide) scans
  obtain ⟨sign, mid, rfl, hk, scans⟩ := scans_between scans (isSign_comparison_space op _)
  obtain ⟨more, scans, second⟩ := simple_of_readsAt hr follows condition (by omega) scans
  exact ⟨more, scans, .compare first (by rw [hk, comparison?_kind]) second⟩

/-- The text of a negation is read as a sum. -/
theorem readsAt_negate (h : ReadsAt rightText right rightOpen 3) :
    ReadsAt ('-' :: rightText) (negate right) rightOpen 2 := by
  intro kind rest tokens follows condition tight scans
  have split : '-' :: rightText ++ rest = ['-'] ++ (rightText ++ rest) := rfl
  rw [split] at scans
  obtain ⟨sign, mid, rfl, hk, scans⟩ := scans_sign scans ⟨rfl, by rintro c ⟨⟩; rfl⟩
  obtain ⟨more, scans, term⟩ := term_of_readsAt h follows condition tight scans
  exact ⟨more, scans, fun e' behind others => .negative hk term others⟩

end Operators

/-! ## Lists -/

/-- Behind a member stands a comma or what closes the list. -/
private theorem follows_further {closing : TokenKind} {close : List Char}
    (follows : Follows closing close) (tight : tightness closing < 1) (es : List Expr) :
    ∃ kind, Follows kind (furtherText (es.map text) ++ close) ∧ tightness kind < 1 := by
  cases es with
  | nil => exact ⟨closing, follows, tight⟩
  | cons e es =>
    have split : furtherText ((e :: es).map text) ++ close =
        ',' :: (' ' :: (e.text ++ (furtherText (es.map text) ++ close))) := by
      simp [furtherText]
    rw [split]
    exact ⟨.comma, follows_closing ⟨rfl, by rintro c ⟨⟩; rfl⟩ (by decide) (by decide), by decide⟩

/-- Members behind a first one, up to what closes the list. -/
private theorem further_of_text {phrase : List Expr → Phrase} (goesOn : GoesOn phrase)
    {closing : TokenKind}
    {close rest : List Char} (follows : Follows closing close) (tight : tightness closing < 1)
    {es : List Expr} (hes : ∀ e ∈ es, ReadsAt e.text e e.endsOpen 1) (before : List Expr)
    {result : Expr}
    (ends : ∀ tokens, Scans close tokens →
      ∃ more, Scans rest more ∧ Derives (phrase (before ++ es)) tokens result more)
    {tokens : List Token} (scans : Scans (furtherText (es.map text) ++ close) tokens) :
    ∃ more, Scans rest more ∧ Derives (phrase before) tokens result more := by
  induction es generalizing before tokens with
  | nil =>
    rw [List.append_nil] at ends
    exact ends tokens scans
  | cons e es ih =>
    -- Each further member is read behind its comma, and the rest goes on with one member more.
    have split : furtherText ((e :: es).map text) ++ close =
        [','] ++ (' ' :: (e.text ++ (furtherText (es.map text) ++ close))) := by
      simp [furtherText]
    rw [split] at scans
    obtain ⟨comma, mid, rfl, hk, scans⟩ := scans_sign scans ⟨rfl, by rintro c ⟨⟩; rfl⟩
    obtain ⟨kind, behind, loose⟩ := follows_further follows tight es
    obtain ⟨mid, scans, member⟩ := hes e List.mem_cons_self _ _ _ behind
      (fun _ => not_comparison loose) loose (scans_space scans)
    -- The list that was read so far grows by the member.
    have ends' : ∀ tokens, Scans close tokens →
        ∃ more, Scans rest more ∧ Derives (phrase (before ++ [e] ++ es)) tokens result more := by
      rw [List.append_assoc]
      exact ends
    obtain ⟨more, scans, others⟩ :=
      ih (fun e' he => hes e' (List.mem_cons_of_mem _ he)) _ ends' scans
    exact ⟨more, scans, goesOn hk member others⟩

/-- All members of a list that is not empty. -/
private theorem list_of_text {phrase : List Expr → Phrase} (goesOn : GoesOn phrase)
    {closing : TokenKind}
    {close rest : List Char} (follows : Follows closing close) (tight : tightness closing < 1)
    {first : Expr} {es : List Expr}
    (hes : ∀ e ∈ first :: es, ReadsAt e.text e e.endsOpen 1) {result : Expr}
    (ends : ∀ tokens, Scans close tokens →
      ∃ more, Scans rest more ∧ Derives (phrase (first :: es)) tokens result more)
    {tokens : List Token} (scans : Scans (listText ((first :: es).map text) ++ close) tokens) :
    ∃ mid more, Scans rest more ∧ Derives .expression tokens first mid ∧
      Derives (phrase [first]) mid result more := by
  rw [List.map_cons, listText, List.append_assoc] at scans
  obtain ⟨kind, behind, loose⟩ := follows_further follows tight es
  obtain ⟨mid, scans, member⟩ := hes first List.mem_cons_self _ _ _ behind
    (fun _ => not_comparison loose) loose scans
  have others : ∀ e ∈ es, ReadsAt e.text e e.endsOpen 1 :=
    fun e he => hes e (List.mem_cons_of_mem _ he)
  obtain ⟨more, scans, others⟩ :=
    further_of_text goesOn follows tight others [first] ends scans
  exact ⟨mid, more, scans, member, others⟩

/-! ## Factors -/

/-- The text of a literal is read as a factor. -/
private theorem readsAt_literal {n : Nat} (small : Writable n) :
    ReadsAt (digits n) (literal n) false 5 := by
  intro kind rest tokens follows _ _ scans
  obtain ⟨more, number, scans⟩ := scans_integer small scans fun c hc => (follows.separate c hc).1
  have ends : Ends (· == .identifier) more :=
    follows.begins.ends scans (beq_false_of_ne follows.closes.1)
  exact ⟨more, scans, .integer number ends⟩

/-- The text of a roll is read as a factor. -/
private theorem readsAt_roll {count : Expr} {sides : Sides} {steps : List Step}
    (hcount : ReadsAt count.text count count.endsOpen 1)
    (legible : (roll count sides steps).Legible) :
    ReadsAt (roll count sides steps).text (roll count sides steps)
      (steps.getLast?.any Step.isOpen) 5 := by
  intro kind rest tokens follows condition _ scans
  rw [Legible] at legible
  obtain ⟨small, hsides, hsteps⟩ := legible
  rw [text, List.append_assoc, List.append_assoc] at scans
  -- A number of dice that is a numeral stands without parentheses.
  split at scans
  · next isLiteral =>
    obtain ⟨n, rfl⟩ : ∃ n, count = literal n := by
      cases count with
      | literal n => exact ⟨n, rfl⟩
      | _ => cases isLiteral
    rw [Legible] at small
    rw [text] at scans
    -- The numeral ends before the letter of the dice.
    have letter : ∀ c ∈ (sides.text ++ (steps.flatMap Step.text ++ rest)).head?,
        c.isDigit = false := by
      cases sides <;> rintro c ⟨⟩ <;> decide
    obtain ⟨mid, number, scans⟩ := scans_integer small scans letter
    obtain ⟨behind, more, dice, modifiers, scans⟩ :=
      roll_of_text hsides hsteps follows condition scans
    exact ⟨more, scans, .integerDice number dice modifiers⟩
  · have split : ∀ rest, parenthesized count.text ++ rest =
        ['('] ++ (count.text ++ (')' :: rest)) := by
      simp [parenthesized]
    rw [split] at scans
    obtain ⟨opening, mid, rfl, opens, scans⟩ := scans_sign scans (isSign_opening _)
    -- Between parentheses the count is read as an expression of any precedence.
    obtain ⟨mid, scans, inner⟩ :=
      hcount _ _ _ (follows_parenthesis _) (fun _ => rfl) (by decide) scans
    rw [← List.singleton_append] at scans
    obtain ⟨closing, mid, rfl, closes, scans⟩ := scans_sign scans (isSign_closing _)
    obtain ⟨behind, more, dice, modifiers, scans⟩ :=
      roll_of_text hsides hsteps follows condition scans
    exact ⟨more, scans, .parenthesesDice opens inner closes dice modifiers⟩

/-- The text of a call is read as a factor. -/
private theorem readsAt_call {name : String} {arguments : List Expr} (isName : IsName name)
    (hes : ∀ e ∈ arguments, ReadsAt e.text e e.endsOpen 1) :
    ReadsAt (call name arguments).text (call name arguments) false 5 := by
  intro kind rest tokens _ _ _ scans
  have split : (call name arguments).text ++ rest =
      name.toList ++ (['('] ++ (listText (arguments.map text) ++ (')' :: rest))) := by
    simp [text]
  rw [split] at scans
  -- The name is one word, as a parenthesis follows it.
  have ne : name.toList ≠ [] := fun empty => isName.1.1 (String.toList_eq_nil_iff.mp empty)
  obtain ⟨word, mid, rfl, hk, htext, behind⟩ := scans_word scans ne isName.1.2
  rw [List.singleton_append, List.takeWhile_cons_of_neg (by decide), List.append_nil,
    String.ofList_toList] at htext
  rw [List.singleton_append, List.dropWhile_cons_of_neg (by decide),
    ← List.singleton_append] at behind
  subst htext
  obtain ⟨opening, mid, rfl, opens, scans⟩ := scans_sign behind (isSign_opening _)
  -- Behind the last argument comes the closing parenthesis.
  have ends : ∀ tokens, Scans (')' :: rest) tokens → ∃ more, Scans rest more ∧
      Derives (.arguments word.text arguments) tokens (call word.text arguments) more := by
    intro tokens scans
    obtain ⟨closing, more, rfl, closes, scans⟩ := scans_sign scans (isSign_closing rest)
    exact ⟨more, scans, .callEnd closes⟩
  -- An empty list has no phrase of its own in the grammar.
  cases arguments with
  | nil =>
    rw [List.map_nil, listText, List.nil_append, ← List.singleton_append] at scans
    obtain ⟨closing, more, rfl, closes, scans⟩ := scans_sign scans (isSign_closing rest)
    exact ⟨more, scans, .emptyCall hk isName.2 opens closes⟩
  | cons first others =>
    obtain ⟨behind, more, scans, argument, others⟩ := list_of_text (goesOn_arguments word.text)
      (follows_parenthesis rest) (by decide) hes ends scans
    exact ⟨more, scans, .call hk isName.2 opens argument others⟩

/-- The repeats of a group, in front of what may stand behind it. -/
private theorem repeats_of_text {repeats : Option Nat} {kind : TokenKind} {rest : List Char}
    {tokens : List Token} (small : ∀ n ∈ repeats, Writable n) (follows : Follows kind rest)
    (scans : Scans (repeatsText repeats ++ rest) tokens) :
    ∃ more, Grammar.Repeats tokens repeats more ∧ Scans rest more := by
  cases repeats with
  | none =>
    -- What may follow an expression is no ellipsis.
    have next : Ends (· == .ellipsis) tokens :=
      follows.begins.ends scans (beq_false_of_ne follows.closes.2.2.2)
    exact ⟨tokens, .absent next, scans⟩
  | some n =>
    have split : repeatsText (some n) ++ rest = ['.', '.', '.'] ++ (digits n ++ rest) := rfl
    rw [split] at scans
    obtain ⟨dots, mid, rfl, hk, scans⟩ := scans_sign scans ⟨rfl, by rintro c ⟨⟩; rfl⟩
    obtain ⟨more, number, scans⟩ :=
      scans_integer (small n rfl) scans fun c hc => (follows.separate c hc).1
    exact ⟨more, .given hk number, scans⟩

/-- The text of a group is read as a factor. -/
private theorem readsAt_group {members : List Expr} {repeats : Option Nat}
    (small : ∀ n ∈ repeats, Writable n) (hes : ∀ e ∈ members, ReadsAt e.text e e.endsOpen 1) :
    ReadsAt (group members repeats).text (group members repeats) false 5 := by
  intro kind rest tokens follows _ _ scans
  have split : (group members repeats).text ++ rest =
      ['{'] ++ (listText (members.map text) ++ ('}' :: (repeatsText repeats ++ rest))) := by
    simp [text]
  rw [split] at scans
  have closingSign : ∀ rest, IsSign ['}'] .braceClose rest :=
    fun rest => ⟨rfl, by rintro c ⟨⟩; rfl⟩
  obtain ⟨opening, mid, rfl, opens, scans⟩ := scans_sign scans ⟨rfl, by rintro c ⟨⟩; rfl⟩
  have ends : ∀ tokens, Scans ('}' :: (repeatsText repeats ++ rest)) tokens →
      ∃ closing mid more, tokens = closing :: mid ∧ closing.kind = .braceClose ∧
        Grammar.Repeats mid repeats more ∧ Scans rest more := by
    intro tokens scans
    obtain ⟨closing, mid, rfl, closes, scans⟩ := scans_sign scans (closingSign _)
    obtain ⟨more, times, scans⟩ := repeats_of_text small follows scans
    exact ⟨closing, mid, more, rfl, closes, times, scans⟩
  -- The closing brace and the repetitions are the same with members and without.
  cases members with
  | nil =>
    obtain ⟨closing, mid, more, rfl, closes, times, scans⟩ := ends _ scans
    exact ⟨more, scans, .emptyGroup opens closes times⟩
  | cons first others =>
    have derives : ∀ tokens, Scans ('}' :: (repeatsText repeats ++ rest)) tokens →
        ∃ more, Scans rest more ∧ Derives (.members (first :: others)) tokens
          (group (first :: others) repeats) more := by
      intro tokens scans
      obtain ⟨closing, mid, more, rfl, closes, times, scans⟩ := ends tokens scans
      exact ⟨more, scans, .groupEnd closes times⟩
    -- The closing brace follows the last member.
    have brace : Follows .braceClose ('}' :: (repeatsText repeats ++ rest)) :=
      follows_closing (closingSign _) (by decide) (by decide)
    obtain ⟨behind, more, scans, member, others⟩ :=
      list_of_text goesOn_members brace (by decide) hes derives scans
    exact ⟨more, scans, .group opens member others⟩

/-! ## Expressions -/

/-- The text of an operator between operands that are read as what their places need. -/
private theorem readsAt_binary {op : Operator} {left right : Expr}
    (hl : ReadsAt left.text left left.endsOpen left.precedence)
    (hr : ReadsAt right.text right right.endsOpen right.precedence) :
    ReadsAt (binary op left right).text (binary op left right) (binary op left right).endsOpen
      op.precedence := by
  rw [text, endsOpen]
  cases op with
  | add | subtract =>
    exact readsAt_sum rfl (readsAt_operand hl (by decide)) (readsAt_operand hr (by decide))
  | multiply | divide | modulo =>
    exact readsAt_product rfl (readsAt_operand hl (by decide)) (readsAt_operand hr (by decide))
  | exponent =>
    exact readsAt_exponent (readsAt_operand hl (by decide)) (readsAt_operand hr (by decide))

/-- The text of an expression without clashes is read back, by induction on the expression. -/
theorem readsAt_text {e : Expr} (legible : e.Legible) (clear : e.clashes = 0) :
    ReadsAt e.text e e.endsOpen e.precedence := by
  -- Members of a list need no tighter phrase than an expression.
  have members : ∀ {es : List Expr}, (∀ e ∈ es, e.Legible → e.clashes = 0 →
      ReadsAt e.text e e.endsOpen e.precedence) → (∀ e ∈ es, e.Legible) →
      (es.map clashes).sum = 0 → ∀ e ∈ es, ReadsAt e.text e e.endsOpen 1 := by
    intro es ih legible clear e he
    have none : e.clashes = 0 := List.sum_eq_zero_iff.mp clear _ (List.mem_map_of_mem he)
    exact readsAt_mono (ih e he (legible e he) none) (one_le_precedence e) (precedence_le e)
  induction e with
  | literal n =>
    rw [Legible] at legible
    exact readsAt_literal legible
  | roll count sides steps ih =>
    have parts := legible
    rw [Legible] at parts
    rw [clashes] at clear
    have inner := readsAt_mono (ih parts.1 clear) (one_le_precedence count) (precedence_le count)
    exact readsAt_roll inner legible
  | negate operand ih =>
    rw [Legible] at legible
    rw [clashes] at clear
    rw [text, endsOpen]
    exact readsAt_negate (readsAt_operand (ih legible clear) (by decide))
  | binary op left right ih ih' =>
    rw [Legible] at legible
    rw [clashes, Nat.add_eq_zero_iff] at clear
    exact readsAt_binary (ih legible.1 clear.1) (ih' legible.2 clear.2)
  | compare op left right ih ih' =>
    rw [Legible] at legible
    rw [clashes] at clear
    -- Nothing clashes here: the left side is no comparison and does not end in an open modifier.
    obtain ⟨tight, closed⟩ : 2 ≤ left.precedence ∧ left.endsOpen = false := by
      by_contra clash
      rw [if_pos (by grind)] at clear
      omega
    have first := ih legible.1 (by omega)
    rw [closed] at first
    rw [text, endsOpen]
    exact readsAt_compare (readsAt_mono first tight (precedence_le left))
      (readsAt_operand (ih' legible.2 (by omega)) (by decide))
  | call name arguments ih =>
    rw [Legible, legibleAll_iff] at legible
    rw [clashes, clashesAll_eq_sum] at clear
    exact readsAt_call legible.1 (members ih legible.2 clear)
  | group es repeats ih =>
    rw [Legible, legibleAll_iff] at legible
    rw [clashes, clashesAll_eq_sum] at clear
    exact readsAt_group legible.2 (members ih legible.1 clear)

/-- The text of an expression without clashes is accepted as the expression. -/
theorem accepts_text {e : Expr} (legible : e.Legible) (clear : e.clashes = 0) :
    Grammar.Accepts (lex (String.ofList e.text)) e := by
  have expression := readsAt_mono (readsAt_text legible clear) (one_le_precedence e)
    (precedence_le e)
  have scans : Scans (e.text ++ []) (lex (String.ofList e.text)) := by
    have scans := scans_lex (String.ofList e.text)
    rw [String.toList_ofList] at scans
    rwa [List.append_nil]
  -- Only the end of the input is behind the whole text.
  have follows : Follows .endOfInput [] := by
    refine ⟨fun tokens scans => ?_, nofun, by decide⟩
    obtain ⟨last, rfl, kind⟩ := scans_nil scans
    exact ⟨last, [], rfl, kind⟩
  obtain ⟨more, scans, derives⟩ := expression _ _ _ follows (fun _ => rfl) (by decide) scans
  obtain ⟨last, rfl, kind⟩ := scans_nil scans
  exact ⟨last, kind, derives⟩

end DiceNotation
