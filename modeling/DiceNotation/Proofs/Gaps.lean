import DiceNotation.Proofs.Grammar

/-! # Expressions with gaps

The grammar of dice expressions with one production more: an operand may be missing where a list
or a pair of parentheses ends or goes on, or where the input ends.

    factor := ⟨nothing⟩          before `)`, `}`, `,` and the end of the input

`Tolerates phrase tokens e gaps rest` says that `tokens` begin with such a phrase.  A zero stands
in for each missing operand in its expression `e`, and `gaps` are the tokens that were found in
the place of one, from left to right.  The other productions are those of `Derives`.  A list with
nothing in it has no members, rather than one that is missing.

* `begins_of_tolerates`     what phrases begin with
* `tolerates_of_derives`    the phrases of the grammar are phrases without gaps -/

namespace DiceNotation

/-- What is recorded where this token stands in the place of an operand. -/
def Token.missing (gap : Token) : Diagnostic := ⟨.unexpectedToken gap .integer, gap.position⟩

namespace Grammar

open DiceNotation.Parser (comparison? additive? multiplicative? isDiceWord isClosing)

/-- The derivations of phrases in which operands may be missing. -/
inductive Tolerates : Phrase → List Token → Expr → List Token → List Token → Prop where
  | hole {gap rest} (closes : isClosing gap.kind = true) :
      Tolerates .factor (gap :: rest) (.literal 0) [gap] (gap :: rest)
  | single {tokens e gaps rest} (only : Tolerates .simple tokens e gaps rest)
      (next : Ends (fun kind => (comparison? kind).isSome) rest) :
      Tolerates .expression tokens e gaps rest
  | compare {tokens left gaps sign mid op right gaps' rest}
      (first : Tolerates .simple tokens left gaps (sign :: mid))
      (compares : comparison? sign.kind = some op)
      (second : Tolerates .simple mid right gaps' rest) :
      Tolerates .expression tokens (.compare op left right) (gaps ++ gaps') rest
  | unsigned {tokens first gaps mid e gaps' rest} (term : Tolerates .term tokens first gaps mid)
      (others : Tolerates (.sum first) mid e gaps' rest) :
      Tolerates .simple tokens e (gaps ++ gaps') rest
  | positive {sign tokens first gaps mid e gaps' rest} (kind : sign.kind = .plus)
      (term : Tolerates .term tokens first gaps mid)
      (others : Tolerates (.sum first) mid e gaps' rest) :
      Tolerates .simple (sign :: tokens) e (gaps ++ gaps') rest
  | negative {sign tokens first gaps mid e gaps' rest} (kind : sign.kind = .minus)
      (term : Tolerates .term tokens first gaps mid)
      (others : Tolerates (.sum (.negate first)) mid e gaps' rest) :
      Tolerates .simple (sign :: tokens) e (gaps ++ gaps') rest
  | sumEnd {tokens before} (next : Ends (fun kind => (additive? kind).isSome) tokens) :
      Tolerates (.sum before) tokens before [] tokens
  | sumMore {sign tokens before op right gaps mid e gaps' rest}
      (adds : additive? sign.kind = some op) (term : Tolerates .term tokens right gaps mid)
      (others : Tolerates (.sum (.binary op before right)) mid e gaps' rest) :
      Tolerates (.sum before) (sign :: tokens) e (gaps ++ gaps') rest
  | term {tokens first gaps mid e gaps' rest} (power : Tolerates .power tokens first gaps mid)
      (others : Tolerates (.product first) mid e gaps' rest) :
      Tolerates .term tokens e (gaps ++ gaps') rest
  | productEnd {tokens before} (next : Ends (fun kind => (multiplicative? kind).isSome) tokens) :
      Tolerates (.product before) tokens before [] tokens
  | productMore {sign tokens before op right gaps mid e gaps' rest}
      (multiplies : multiplicative? sign.kind = some op)
      (power : Tolerates .power tokens right gaps mid)
      (others : Tolerates (.product (.binary op before right)) mid e gaps' rest) :
      Tolerates (.product before) (sign :: tokens) e (gaps ++ gaps') rest
  | base {tokens e gaps rest} (factor : Tolerates .factor tokens e gaps rest)
      (next : Ends (· == .doubleAsterisk) rest) : Tolerates .power tokens e gaps rest
  | exponent {tokens base gaps sign mid exponent gaps' rest}
      (factor : Tolerates .factor tokens base gaps (sign :: mid))
      (kind : sign.kind = .doubleAsterisk) (power : Tolerates .power mid exponent gaps' rest) :
      Tolerates .power tokens (.binary .exponent base exponent) (gaps ++ gaps') rest
  | integer {tokens n rest} (number : Integer tokens n rest) (next : Ends (· == .identifier) rest) :
      Tolerates .factor tokens (.literal n) [] rest
  | integerDice {tokens n mid sides behind steps rest} (number : Integer tokens n mid)
      (dice : Dice mid sides behind) (modifiers : Modifiers behind steps rest) :
      Tolerates .factor tokens (.roll (.literal n) sides steps) [] rest
  | dice {tokens sides behind steps rest} (dice : Dice tokens sides behind)
      (modifiers : Modifiers behind steps rest) :
      Tolerates .factor tokens (.roll (.literal 1) sides steps) [] rest
  | parentheses {opening tokens e gaps closing rest} (kind : opening.kind = .parenthesisOpen)
      (inner : Tolerates .expression tokens e gaps (closing :: rest))
      (closes : closing.kind = .parenthesisClose) (next : Ends (· == .identifier) rest) :
      Tolerates .factor (opening :: tokens) e gaps rest
  | parenthesesDice {opening tokens e gaps closing mid sides behind steps rest}
      (kind : opening.kind = .parenthesisOpen)
      (inner : Tolerates .expression tokens e gaps (closing :: mid))
      (closes : closing.kind = .parenthesisClose) (dice : Dice mid sides behind)
      (modifiers : Modifiers behind steps rest) :
      Tolerates .factor (opening :: tokens) (.roll e sides steps) gaps rest
  | emptyCall {name opening closing rest} (kind : name.kind = .identifier)
      (word : isDiceWord name = false) (opens : opening.kind = .parenthesisOpen)
      (closes : closing.kind = .parenthesisClose) :
      Tolerates .factor (name :: opening :: closing :: rest) (.call name.text []) [] rest
  | call {name opening tokens first gaps mid e gaps' rest} (kind : name.kind = .identifier)
      (word : isDiceWord name = false) (opens : opening.kind = .parenthesisOpen)
      (nonempty : Ends (· == .parenthesisClose) tokens)
      (argument : Tolerates .expression tokens first gaps mid)
      (others : Tolerates (.arguments name.text [first]) mid e gaps' rest) :
      Tolerates .factor (name :: opening :: tokens) e (gaps ++ gaps') rest
  | callEnd {closing name before rest} (closes : closing.kind = .parenthesisClose) :
      Tolerates (.arguments name before) (closing :: rest) (.call name before) [] rest
  | callMore {comma tokens name before argument gaps mid e gaps' rest} (kind : comma.kind = .comma)
      (next : Tolerates .expression tokens argument gaps mid)
      (others : Tolerates (.arguments name (before ++ [argument])) mid e gaps' rest) :
      Tolerates (.arguments name before) (comma :: tokens) e (gaps ++ gaps') rest
  | emptyGroup {opening closing tokens repeats rest} (opens : opening.kind = .braceOpen)
      (closes : closing.kind = .braceClose) (times : Repeats tokens repeats rest) :
      Tolerates .factor (opening :: closing :: tokens) (.group [] repeats) [] rest
  | group {opening tokens first gaps mid e gaps' rest} (opens : opening.kind = .braceOpen)
      (nonempty : Ends (· == .braceClose) tokens)
      (member : Tolerates .expression tokens first gaps mid)
      (others : Tolerates (.members [first]) mid e gaps' rest) :
      Tolerates .factor (opening :: tokens) e (gaps ++ gaps') rest
  | groupEnd {closing tokens before repeats rest} (closes : closing.kind = .braceClose)
      (times : Repeats tokens repeats rest) :
      Tolerates (.members before) (closing :: tokens) (.group before repeats) [] rest
  | groupMore {comma tokens before member gaps mid e gaps' rest} (kind : comma.kind = .comma)
      (next : Tolerates .expression tokens member gaps mid)
      (others : Tolerates (.members (before ++ [member])) mid e gaps' rest) :
      Tolerates (.members before) (comma :: tokens) e (gaps ++ gaps') rest

end Grammar

open Grammar (Phrase Derives Tolerates Ends)
open DiceNotation.Parser (additive? isClosing)

/-! ## What phrases begin with -/

/-- The kinds of tokens that begin a factor. -/
def beginsFactor : TokenKind → Bool
  | .integer | .identifier | .parenthesisOpen | .braceOpen => true
  | _ => false

/-- The kinds of tokens that begin a phrase. -/
def begins : Phrase → TokenKind → Bool
  | .factor | .power | .term => beginsFactor
  | .expression | .simple => fun kind => beginsFactor kind || (additive? kind).isSome
  | _ => fun _ => true

/-- The token begins the phrase, or stands in the place of the first operand. -/
def Opens (phrase : Phrase) (gaps : List Token) (token : Token) : Prop :=
  begins phrase token.kind = true ∨ gaps ≠ [] ∧ isClosing token.kind = true

namespace Opens

variable {phrase : Phrase} {gaps gaps' : List Token} {token : Token}

/-- What opens a phrase with gaps opens it with more gaps behind them. -/
theorem append (h : Opens phrase gaps token) : Opens phrase (gaps ++ gaps') token :=
  h.imp id fun ⟨missing, closes⟩ => ⟨List.append_ne_nil_of_left_ne_nil missing _, closes⟩

/-- A phrase that begins with a tighter one begins with a token of that one. -/
private theorem looser (h : Opens .term gaps token) : Opens .simple gaps token := by
  refine h.imp (fun begins => ?_) id
  exact Bool.or_eq_true_iff.mpr (.inl begins)

/-- A term does not begin with a sign. -/
theorem not_sign (h : Opens .term gaps token) :
    additive? token.kind = none ∧ token.kind ≠ .minus := by
  have kinds : ∀ kind, beginsFactor kind = true ∨ isClosing kind = true →
      additive? kind = none ∧ kind ≠ .minus := by
    intro kind
    cases kind <;> decide
  exact kinds _ (h.imp id And.right)

end Opens

/-- The first token of a phrase begins it, or stands where its first operand is missing. -/
theorem begins_of_tolerates {phrase : Phrase} {tokens gaps rest : List Token} {e : Expr}
    (h : Tolerates phrase tokens e gaps rest) :
    ∀ token ∈ tokens.head?, Opens phrase gaps token := by
  -- The first token decides, except where a sum or a list goes on, or an operand is missing.
  have first : ∀ {kind : TokenKind} {token : Token} {tokens gaps : List Token}, token.kind = kind →
      beginsFactor kind = true → ∀ t ∈ (token :: tokens).head?, Opens .factor gaps t := by
    rintro kind token tokens gaps rfl h t ⟨⟩
    exact .inl h
  induction h with
  | hole closes =>
    rintro token ⟨⟩
    exact .inr ⟨List.cons_ne_nil _ _, closes⟩
  | single _ _ ih => exact ih
  | compare _ _ _ ih _ => exact fun token ht => (ih token ht).append
  | unsigned _ _ ih _ => exact fun token ht => (ih token ht).looser.append
  | positive kind _ _ _ _ =>
    rintro token ⟨⟩
    rw [Opens, kind]
    exact .inl rfl
  | negative kind _ _ _ _ =>
    rintro token ⟨⟩
    rw [Opens, kind]
    exact .inl rfl
  | sumEnd | sumMore | productEnd | productMore | callEnd | callMore | groupEnd | groupMore =>
    exact fun _ _ => .inl rfl
  | term _ _ ih _ => exact fun token ht => (ih token ht).append
  | base _ _ ih => exact ih
  | exponent _ _ _ ih _ => exact fun token ht => (ih token ht).append
  | integer number _ =>
    obtain ⟨kind, -⟩ := number
    exact first kind rfl
  | integerDice number _ _ =>
    obtain ⟨kind, -⟩ := number
    exact first kind rfl
  | dice dice _ =>
    cases dice with
    | faces kind _ _ => exact first kind rfl
    | hundred kind _ _ => exact first kind rfl
    | fate word => cases word with
      | whole kind _ => exact first kind rfl
      | part kind _ _ => exact first kind rfl
  | parentheses kind _ _ _ _ => exact first kind rfl
  | parenthesesDice kind _ _ _ _ _ => exact first kind rfl
  | emptyCall kind _ _ _ => exact first kind rfl
  | call kind _ _ _ _ _ _ _ => exact first kind rfl
  | emptyGroup opens _ _ => exact first opens rfl
  | group opens _ _ _ _ _ => exact first opens rfl

/-- Where no operand is missing, an expression does not begin with the token that closes the list
    it stands in. -/
private theorem nonempty_of_tolerates {tokens rest : List Token} {e : Expr} {closing : TokenKind}
    (closes : closing = .parenthesisClose ∨ closing = .braceClose)
    (h : Tolerates .expression tokens e [] rest) : Ends (· == closing) tokens := by
  intro token ht
  rcases begins_of_tolerates h token ht with first | ⟨missing, -⟩
  · refine beq_eq_false_iff_ne.mpr fun kind => ?_
    rw [kind] at first
    rcases closes with rfl | rfl <;> exact absurd first (by decide)
  · exact absurd rfl missing

/-! ## Phrases without gaps -/

/-- The phrases of the grammar are phrases in which no operand is missing. -/
theorem tolerates_of_derives {phrase : Phrase} {tokens rest : List Token} {e : Expr}
    (h : Derives phrase tokens e rest) : Tolerates phrase tokens e [] rest := by
  -- Without holes each rule is the same one, except that arguments and members are known not to be
  -- empty.
  induction h with
  | single _ next ih => exact .single ih next
  | compare _ compares _ ih ih' => exact .compare ih compares ih'
  | unsigned _ _ ih ih' => exact .unsigned ih ih'
  | positive kind _ _ ih ih' => exact .positive kind ih ih'
  | negative kind _ _ ih ih' => exact .negative kind ih ih'
  | sumEnd next => exact .sumEnd next
  | sumMore adds _ _ ih ih' => exact .sumMore adds ih ih'
  | term _ _ ih ih' => exact .term ih ih'
  | productEnd next => exact .productEnd next
  | productMore multiplies _ _ ih ih' => exact .productMore multiplies ih ih'
  | base _ next ih => exact .base ih next
  | exponent _ kind _ ih ih' => exact .exponent ih kind ih'
  | integer number next => exact .integer number next
  | integerDice number dice modifiers => exact .integerDice number dice modifiers
  | dice dice modifiers => exact .dice dice modifiers
  | parentheses kind _ closes next ih => exact .parentheses kind ih closes next
  | parenthesesDice kind _ closes dice modifiers ih =>
    exact .parenthesesDice kind ih closes dice modifiers
  | emptyCall kind word opens closes => exact .emptyCall kind word opens closes
  | call kind word opens _ _ ih ih' =>
    exact .call kind word opens (nonempty_of_tolerates (.inl rfl) ih) ih ih'
  | callEnd closes => exact .callEnd closes
  | callMore kind _ _ ih ih' => exact .callMore kind ih ih'
  | emptyGroup opens closes times => exact .emptyGroup opens closes times
  | group opens _ _ ih ih' => exact .group opens (nonempty_of_tolerates (.inr rfl) ih) ih ih'
  | groupEnd closes times => exact .groupEnd closes times
  | groupMore kind _ _ ih ih' => exact .groupMore kind ih ih'

end DiceNotation
