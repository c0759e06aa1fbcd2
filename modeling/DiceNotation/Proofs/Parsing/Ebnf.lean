import DiceNotation.Proofs.Parsing.Language

/-! # The grammar without looking ahead

The grammar as it is written down, with optional parts and repetitions that may end anywhere:

    expression := simple [cmp simple]
    simple     := [+|-] term ((+|-) term)*
    term       := power ((*|/|%) power)*
    power      := factor ['**' power]
    factor     := name '(' [list] ')' | dice | integer [dice] | '(' expression ')' [dice]
                | '{' [list] '}' ['...' integer]
    dice       := ('d' (integer | '%') | 'dF') modifier*
    modifier   := '!' ['p'] [cmp integer] | (k kh kl d dh dl) [integer]
                | (r ro c cs cf) [cmp integer] | s sa sd

Read in this way it is ambiguous, and the parser, which never goes back, does not find every
derivation.  It finds those that are careful about three things: in a word, `s` does not stand
before `d` nor `c` before `s`, which are read as `sd` and `cs`; a condition is not left out before
a comparison sign; and no name of a function begins with `dF`.  Everywhere else one token is enough
to see how to go on.

## Key results

- `accepts_of_careful`: what is derived with care is accepted
- `parse_iff_careful`: the texts that are read without a diagnostic
- `careless_not_parsed`: care is needed -/

namespace DiceNotation.Ebnf

open DiceNotation.Parser (comparison? additive? multiplicative? isDiceWord)
open DiceNotation.Expr (Sides Bound Step)
open Grammar (Integer Letters Dice Ends Lacks Longest spellings)

/-! ## Modifiers -/

/-- Spellings that are the beginning of a longer one which goes on like another modifier. -/
def merging : List (String × String) := [("s", "sd"), ("c", "cs")]

/-- What follows in the word is not read as the end of the modifier. -/
def Apart (letters : String) (tokens : List Token) : Prop :=
  ∀ merged, (letters, merged) ∈ merging → Lacks merged tokens

/-- The number of dice that a modifier keeps or drops. -/
inductive Amount : List Token → List Token → Prop where
  | given {tokens n rest} (number : Integer tokens n rest) : Amount tokens rest
  | absent {tokens} : Amount tokens tokens

section

-- Whether derivations are careful.
variable (careful : Prop)

/-- The condition of a modifier. -/
inductive Condition : List Token → List Token → Prop where
  | given {sign tokens op n rest} (compares : comparison? sign.kind = some op)
      (number : Integer tokens n rest) : Condition (sign :: tokens) rest
  | absent {tokens} (clear : careful → Ends (fun kind => (comparison? kind).isSome) tokens) :
      Condition tokens tokens

/-- A modifier. -/
inductive Modifier : List Token → List Token → Prop where
  | explode {mark tokens rest} (kind : mark.kind = .exclamation)
      (condition : Condition careful tokens rest) : Modifier (mark :: tokens) rest
  | penetrate {mark tokens mid rest} (kind : mark.kind = .exclamation)
      (letter : Letters "p" tokens mid) (condition : Condition careful mid rest) :
      Modifier (mark :: tokens) rest
  | counted {letters tokens mid rest} (spelling : letters ∈ Grammar.counted.map Prod.fst)
      (word : Letters letters tokens mid) (number : Amount mid rest) : Modifier tokens rest
  | conditional {letters tokens mid rest} (spelling : letters ∈ Grammar.conditional.map Prod.fst)
      (word : Letters letters tokens mid) (apart : careful → Apart letters tokens)
      (condition : Condition careful mid rest) : Modifier tokens rest
  | plain {letters tokens rest} (spelling : letters ∈ Grammar.plain.map Prod.fst)
      (word : Letters letters tokens rest) (apart : careful → Apart letters tokens) :
      Modifier tokens rest

/-- Any number of modifiers. -/
inductive Modifiers : List Token → List Token → Prop where
  | done {tokens} : Modifiers tokens tokens
  | more {tokens mid rest} (first : Modifier careful tokens mid) (others : Modifiers mid rest) :
      Modifiers tokens rest

/-! ## Expressions -/

/-- The number of repeats of a group. -/
inductive Repeats : List Token → List Token → Prop where
  | given {dots tokens n rest} (kind : dots.kind = .ellipsis) (number : Integer tokens n rest) :
      Repeats (dots :: tokens) rest
  | absent {tokens} : Repeats tokens tokens

/-- The phrases that expressions are made of. -/
inductive Phrase where
  | expression
  | simple
  /-- Operators and terms behind a term. -/
  | terms
  | term
  /-- Operators and powers behind a power. -/
  | powers
  | power
  | factor
  /-- Commas and expressions behind an expression. -/
  | others

/-- The derivations of phrases. -/
inductive Derives : Phrase → List Token → List Token → Prop where
  | single {tokens rest} (only : Derives .simple tokens rest) : Derives .expression tokens rest
  | compare {tokens sign mid op rest} (first : Derives .simple tokens (sign :: mid))
      (compares : comparison? sign.kind = some op) (second : Derives .simple mid rest) :
      Derives .expression tokens rest
  | unsigned {tokens mid rest} (first : Derives .term tokens mid)
      (others : Derives .terms mid rest) : Derives .simple tokens rest
  | signed {sign tokens mid rest} (kind : sign.kind = .plus ∨ sign.kind = .minus)
      (first : Derives .term tokens mid) (others : Derives .terms mid rest) :
      Derives .simple (sign :: tokens) rest
  | termsEnd {tokens} : Derives .terms tokens tokens
  | termsMore {sign tokens op mid rest} (adds : additive? sign.kind = some op)
      (term : Derives .term tokens mid) (others : Derives .terms mid rest) :
      Derives .terms (sign :: tokens) rest
  | term {tokens mid rest} (first : Derives .power tokens mid)
      (others : Derives .powers mid rest) : Derives .term tokens rest
  | powersEnd {tokens} : Derives .powers tokens tokens
  | powersMore {sign tokens op mid rest} (multiplies : multiplicative? sign.kind = some op)
      (power : Derives .power tokens mid) (others : Derives .powers mid rest) :
      Derives .powers (sign :: tokens) rest
  | base {tokens rest} (factor : Derives .factor tokens rest) : Derives .power tokens rest
  | exponent {tokens sign mid rest} (factor : Derives .factor tokens (sign :: mid))
      (kind : sign.kind = .doubleAsterisk) (power : Derives .power mid rest) :
      Derives .power tokens rest
  | integer {tokens n rest} (number : Integer tokens n rest) : Derives .factor tokens rest
  | integerDice {tokens n mid sides behind rest} (number : Integer tokens n mid)
      (dice : Dice mid sides behind) (modifiers : Modifiers careful behind rest) :
      Derives .factor tokens rest
  | dice {tokens sides behind rest} (dice : Dice tokens sides behind)
      (modifiers : Modifiers careful behind rest) : Derives .factor tokens rest
  | parentheses {opening tokens closing rest} (kind : opening.kind = .parenthesisOpen)
      (inner : Derives .expression tokens (closing :: rest))
      (closes : closing.kind = .parenthesisClose) : Derives .factor (opening :: tokens) rest
  | parenthesesDice {opening tokens closing mid sides behind rest}
      (kind : opening.kind = .parenthesisOpen)
      (inner : Derives .expression tokens (closing :: mid))
      (closes : closing.kind = .parenthesisClose) (dice : Dice mid sides behind)
      (modifiers : Modifiers careful behind rest) : Derives .factor (opening :: tokens) rest
  | emptyCall {name opening closing rest} (kind : name.kind = .identifier)
      (word : name.text ≠ "d" ∧ name.text ≠ "dF")
      (plain : careful → ¬"dF".toList <+: name.text.toList)
      (opens : opening.kind = .parenthesisOpen) (closes : closing.kind = .parenthesisClose) :
      Derives .factor (name :: opening :: closing :: rest) rest
  | call {name opening tokens mid closing rest} (kind : name.kind = .identifier)
      (word : name.text ≠ "d" ∧ name.text ≠ "dF")
      (plain : careful → ¬"dF".toList <+: name.text.toList)
      (opens : opening.kind = .parenthesisOpen) (argument : Derives .expression tokens mid)
      (others : Derives .others mid (closing :: rest)) (closes : closing.kind = .parenthesisClose) :
      Derives .factor (name :: opening :: tokens) rest
  | emptyGroup {opening closing tokens rest} (opens : opening.kind = .braceOpen)
      (closes : closing.kind = .braceClose) (times : Repeats tokens rest) :
      Derives .factor (opening :: closing :: tokens) rest
  | group {opening tokens mid closing behind rest} (opens : opening.kind = .braceOpen)
      (member : Derives .expression tokens mid) (others : Derives .others mid (closing :: behind))
      (closes : closing.kind = .braceClose) (times : Repeats behind rest) :
      Derives .factor (opening :: tokens) rest
  | othersEnd {tokens} : Derives .others tokens tokens
  | othersMore {comma tokens mid rest} (kind : comma.kind = .comma)
      (next : Derives .expression tokens mid) (others : Derives .others mid rest) :
      Derives .others (comma :: tokens) rest

/-- The tokens are an expression up to the end of the input. -/
def Accepts (tokens : List Token) : Prop :=
  ∃ last, last.kind = .endOfInput ∧ Derives careful .expression tokens [last]

end

/-! ## What can follow -/

/-- The kinds of tokens that can stand behind an expression. -/
def afterExpression : TokenKind → Bool
  | .parenthesisClose | .braceClose | .comma | .endOfInput => true
  | _ => false

/-- The kinds of tokens that can stand behind the operand of a comparison. -/
def afterSimple (kind : TokenKind) : Bool := (comparison? kind).isSome || afterExpression kind

/-- The kinds of tokens that can stand behind a term. -/
def afterTerm (kind : TokenKind) : Bool := (additive? kind).isSome || afterSimple kind

/-- The kinds of tokens that can stand behind a power. -/
def afterPower (kind : TokenKind) : Bool := (multiplicative? kind).isSome || afterTerm kind

/-- The kinds of tokens that can stand behind a factor. -/
def afterFactor (kind : TokenKind) : Bool := kind == .doubleAsterisk || afterPower kind

/-- The kinds of tokens that can stand behind a modifier. -/
def afterModifier (kind : TokenKind) : Bool :=
  kind == .exclamation || kind == .identifier || afterFactor kind

/-- There is a next token, and it is of such a kind. -/
def Followed (can : TokenKind → Bool) (tokens : List Token) : Prop :=
  ∃ token more, tokens = token :: more ∧ can token.kind = true

/-- What can follow can follow where more can follow. -/
theorem Followed.mono {can may : TokenKind → Bool} {tokens : List Token}
    (h : Followed can tokens) (le : ∀ kind, can kind = true → may kind = true) :
    Followed may tokens := by
  obtain ⟨token, more, rfl, hk⟩ := h
  exact ⟨token, more, rfl, le _ hk⟩

/-- What can follow does not go on with a token that cannot. -/
private theorem Followed.ends {can begins : TokenKind → Bool} {tokens : List Token}
    (h : Followed can tokens) (disjoint : ∀ kind, can kind = true → begins kind = false) :
    Ends begins tokens := by
  obtain ⟨token, more, rfl, hk⟩ := h
  rintro _ ⟨⟩
  exact disjoint _ hk

/-- If the next token is a word, a modifier stands at its beginning. -/
def Spelled (tokens : List Token) : Prop :=
  ∀ token ∈ tokens.head?, token.kind = .identifier →
    ∃ letters ∈ spellings, letters.toList <+: token.text.toList

/-! ## Modifiers are read as they were meant -/

/-- Where one spelling is the beginning of another one, the other one goes on with a letter that
    no spelling begins with, unless the two merge. -/
private theorem merging_or_apart : ∀ letters ∈ spellings, ∀ longer ∈ spellings,
    letters.length < longer.length → letters.toList <+: longer.toList →
      (letters, longer) ∈ merging ∨
        ∀ start ∈ spellings, start.toList.head? ≠ longer.toList[letters.length]? := by
  decide

/-- Every spelling has a first letter, which is not `p`. -/
private theorem spellings_head : ∀ start ∈ spellings,
    start.toList.head? ≠ none ∧ start.toList.head? ≠ some 'p' := by
  decide

/-- Where no word can follow, no word has to be spelled. -/
private theorem spelled_of_followed {can : TokenKind → Bool} {tokens : List Token}
    (h : Followed can tokens) (plain : ∀ kind, can kind = true → kind ≠ .identifier) :
    Spelled tokens := by
  obtain ⟨token, more, rfl, hk⟩ := h
  rintro _ ⟨⟩ word
  exact absurd word (plain _ hk)

/-- Where no word can follow, no letters follow. -/
private theorem Followed.lacks {can : TokenKind → Bool} {tokens : List Token}
    (h : Followed can tokens)
    (plain : ∀ kind, can kind = true → kind ≠ .identifier) (letters : String) :
    Lacks letters tokens := by
  obtain ⟨token, more, rfl, hk⟩ := h
  rintro _ ⟨⟩ word
  exact absurd word (plain _ hk)

/-- The letters of a modifier are a modifier at the beginning of a word. -/
private theorem spelled_of_letters {letters : String} {tokens mid : List Token}
    (mem : letters ∈ spellings) (word : Letters letters tokens mid) :
    Spelled tokens ∧ Followed afterModifier tokens := by
  cases word with
  | whole kind text =>
    refine ⟨?_, _, _, rfl, by rw [kind]; rfl⟩
    rintro _ ⟨⟩ -
    exact ⟨letters, mem, by rw [text]⟩
  | part kind text left =>
    refine ⟨?_, _, _, rfl, by rw [kind]; rfl⟩
    rintro _ ⟨⟩ -
    exact ⟨letters, mem, by rw [text, String.toList_append]; exact List.prefix_append _ _⟩

/-- The first letter of a word at whose beginning a modifier stands. -/
private theorem head?_of_begins {start : String} {text : List Char} (mem : start ∈ spellings)
    (h : start.toList <+: text) : start.toList.head? = text.head? := by
  have nonempty := (spellings_head start mem).1
  obtain ⟨tail, rfl⟩ := h
  cases hs : start.toList with
  | nil => rw [hs] at nonempty; exact absurd rfl nonempty
  | cons c cs => rfl

/-- A modifier that stands apart from what follows is the longest one that fits. -/
private theorem longest_of_apart {letters : String} {tokens mid : List Token}
    (mem : letters ∈ spellings)
    (word : Letters letters tokens mid) (apart : Apart letters tokens) (spelled : Spelled mid) :
    Longest letters tokens := by
  rintro longer hlonger lt token htoken kind fits
  -- A longer spelling that fits has this one as its beginning.
  have inside : ∀ more : String, token.text = letters ++ more →
      letters.toList <+: longer.toList := by
    intro more text
    have begins : letters.toList <+: token.text.toList := by
      rw [text, String.toList_append]
      exact List.prefix_append _ _
    refine List.prefix_of_prefix_length_le begins fits ?_
    rw [String.length_toList, String.length_toList]
    omega
  cases word with
  | whole _ text =>
    obtain rfl := Option.mem_some_iff.mp htoken
    -- The word is too short for it.
    have := fits.length_le
    rw [text, String.length_toList, String.length_toList] at this
    omega
  | @part first rest more _ text left =>
    obtain rfl := Option.mem_some_iff.mp htoken
    rcases merging_or_apart letters mem longer hlonger lt (inside more text) with merges | differs
    · exact apart longer merges _ htoken kind fits
    · -- What is left of the word begins with the next letter of the longer spelling.
      obtain ⟨start, hstart, begins⟩ := spelled _ rfl rfl
      apply differs start hstart
      obtain ⟨tail, split⟩ := fits
      rw [text, String.toList_append] at split
      have inside : letters.toList.length < longer.toList.length := by
        rwa [String.length_toList, String.length_toList]
      have shared : (longer.toList ++ tail)[letters.toList.length]? =
          longer.toList[letters.toList.length]? := List.getElem?_append_left inside
      rw [head?_of_begins hstart begins, ← String.length_toList, ← shared, split,
        List.getElem?_append_right (Nat.le_refl _), Nat.sub_self, List.head?_eq_getElem?]

section

variable {careful : Prop} {tokens mid rest : List Token}

/-- A careful condition is one of the grammar. -/
private theorem grammar_condition (h : Condition careful tokens rest) (care : careful) :
    ∃ bound, Grammar.Condition tokens bound rest := by
  cases h with
  | given compares number => exact ⟨_, .given compares number⟩
  | absent clear => exact ⟨_, .absent (clear care)⟩

/-- A condition in front leaves the words behind it spelled. -/
private theorem spelled_of_condition (h : Condition careful tokens rest) (spelled : Spelled rest) :
    Spelled tokens := by
  cases h with
  | absent => exact spelled
  | given compares number =>
    rintro _ ⟨⟩ kind
    rw [kind] at compares
    cases compares

/-- No modifier begins with `p`. -/
private theorem lacks_p (h : Spelled tokens) : Lacks "p" tokens := by
  intro token htoken kind fits
  obtain ⟨start, mem, begins⟩ := h token htoken kind
  have := (spellings_head start mem).2
  rw [head?_of_begins mem begins] at this
  obtain ⟨tail, split⟩ := fits
  rw [← split] at this
  exact this rfl

/-- An amount is one of the grammar, since no numeral can follow where there is none. -/
private theorem grammar_amount (h : Amount tokens rest) (followed : Followed afterModifier rest) :
    ∃ amount, Grammar.Amount tokens amount rest := by
  cases h with
  | given number => exact ⟨_, .given number⟩
  | absent =>
    refine ⟨none, .absent (followed.ends ?_)⟩
    intro kind
    cases kind <;> decide

/-- An amount in front leaves the words behind it spelled. -/
private theorem spelled_of_amount (h : Amount tokens rest) (spelled : Spelled rest) :
    Spelled tokens := by
  cases h with
  | absent => exact spelled
  | given number =>
    obtain ⟨kind, -⟩ := number
    rintro _ ⟨⟩ word
    rw [kind] at word
    cases word

/-- The modifiers with an amount are spelled. -/
private theorem mem_spellings_of_counted {letters : String}
    (h : letters ∈ Grammar.counted.map Prod.fst) : letters ∈ spellings :=
  List.mem_append_left _ (List.mem_append_left _ h)

/-- The modifiers with a condition are spelled. -/
private theorem mem_spellings_of_conditional {letters : String}
    (h : letters ∈ Grammar.conditional.map Prod.fst) : letters ∈ spellings :=
  List.mem_append_left _ (List.mem_append_right _ h)

/-- The modifiers without an argument are spelled. -/
private theorem mem_spellings_of_plain {letters : String}
    (h : letters ∈ Grammar.plain.map Prod.fst) : letters ∈ spellings :=
  List.mem_append_right _ h

/-- What takes a number of dice does not merge with anything. -/
private theorem apart_of_counted {letters : String} (h : letters ∈ Grammar.counted.map Prod.fst)
    (tokens : List Token) : Apart letters tokens := by
  have none : ∀ letters ∈ Grammar.counted.map Prod.fst, ∀ pair ∈ merging, pair.1 ≠ letters := by
    decide
  intro merged merges
  exact absurd rfl (none letters h _ merges)

/-- A modifier of a careful derivation is one that the parser takes. -/
private theorem grammar_modifier (h : Modifier careful tokens rest) (care : careful)
    (spelled : Spelled rest) (followed : Followed afterModifier rest) :
    (∃ step, Grammar.Modifier tokens step rest) ∧ Spelled tokens ∧
      Followed afterModifier tokens := by
  -- An exclamation mark is no word, so nothing before it can merge with it.
  have marked {mark : Token} {tokens : List Token} (kind : mark.kind = .exclamation) :
      Spelled (mark :: tokens) ∧ Followed afterModifier (mark :: tokens) := by
    refine ⟨?_, mark, tokens, rfl, by rw [kind]; rfl⟩
    rintro _ ⟨⟩ word
    rw [kind] at word
    cases word
  cases h with
  | explode kind condition =>
    obtain ⟨bound, condition'⟩ := grammar_condition condition care
    -- No modifier begins with `p`, so that the dice do not penetrate.
    have next := lacks_p (spelled_of_condition condition spelled)
    exact ⟨⟨_, .explode kind next condition'⟩, marked kind⟩
  | penetrate kind letter condition =>
    obtain ⟨bound, condition⟩ := grammar_condition condition care
    exact ⟨⟨_, .penetrate kind letter condition⟩, marked kind⟩
  | counted spelling word number =>
    have mem := mem_spellings_of_counted spelling
    have spelled := spelled_of_amount number spelled
    -- The letters are the longest spelling, as what follows would not make another one.
    have longest := longest_of_apart mem word (apart_of_counted spelling tokens) spelled
    obtain ⟨⟨letters, step⟩, hstep, rfl⟩ := List.mem_map.mp spelling
    obtain ⟨amount, number⟩ := grammar_amount number followed
    exact ⟨⟨_, .counted hstep longest word number⟩, spelled_of_letters mem word⟩
  | conditional spelling word apart condition =>
    have mem := mem_spellings_of_conditional spelling
    have spelled := spelled_of_condition condition spelled
    have longest := longest_of_apart mem word (apart care) spelled
    obtain ⟨⟨letters, step⟩, hstep, rfl⟩ := List.mem_map.mp spelling
    obtain ⟨bound, condition⟩ := grammar_condition condition care
    exact ⟨⟨_, .conditional hstep longest word condition⟩, spelled_of_letters mem word⟩
  | plain spelling word apart =>
    have mem := mem_spellings_of_plain spelling
    have longest := longest_of_apart mem word (apart care) spelled
    obtain ⟨⟨letters, step⟩, hstep, rfl⟩ := List.mem_map.mp spelling
    exact ⟨⟨_, .plain hstep longest word⟩, spelled_of_letters mem word⟩

/-- No word can follow a factor. -/
private theorem not_identifier_of_afterFactor :
    ∀ kind, afterFactor kind = true → kind ≠ .identifier := by
  intro kind
  cases kind <;> decide

/-- The modifiers of a careful derivation are those that the parser takes. -/
private theorem grammar_modifiers (h : Modifiers careful tokens rest) (care : careful)
    (followed : Followed afterFactor rest) :
    (∃ steps, Grammar.Modifiers tokens steps rest) ∧ Spelled tokens ∧
      Followed afterModifier tokens := by
  -- From the last modifier to the first, since each one depends on what stands behind it.
  induction h with
  | done =>
    have unmarked : Ends (· == .exclamation) _ :=
      followed.ends (by intro kind; cases kind <;> decide)
    have unspelled := followed.lacks not_identifier_of_afterFactor
    refine ⟨⟨[], .done unmarked fun letters _ => unspelled letters⟩, ?_, ?_⟩
    · exact spelled_of_followed followed not_identifier_of_afterFactor
    · exact followed.mono (by intro kind; cases kind <;> decide)
  | more first _ ih =>
    obtain ⟨⟨steps, others⟩, spelled, next⟩ := ih followed
    obtain ⟨⟨step, modifier⟩, spelled, next⟩ := grammar_modifier first care spelled next
    exact ⟨⟨step :: steps, .more modifier others⟩, spelled, next⟩

/-! ## Phrases are read as they were meant -/

/-- Repeats are those of the grammar, since no ellipsis can follow where there are none. -/
private theorem grammar_repeats (h : Repeats tokens rest) (followed : Followed afterFactor rest) :
    ∃ repeats, Grammar.Repeats tokens repeats rest := by
  cases h with
  | given kind number => exact ⟨_, .given kind number⟩
  | absent =>
    refine ⟨none, .absent (followed.ends ?_)⟩
    intro kind
    cases kind <;> decide

/-- What can follow an expression can follow a sum. -/
private theorem afterSimple_of_afterExpression :
    ∀ kind, afterExpression kind = true → afterSimple kind = true := by
  intro kind
  cases kind <;> decide

/-- What can follow a sum can follow a term. -/
private theorem afterTerm_of_afterSimple :
    ∀ kind, afterSimple kind = true → afterTerm kind = true := by
  intro kind
  cases kind <;> decide

/-- What can follow a term can follow a power. -/
private theorem afterPower_of_afterTerm :
    ∀ kind, afterTerm kind = true → afterPower kind = true := by
  intro kind
  cases kind <;> decide

/-- What can follow a power can follow a factor. -/
private theorem afterFactor_of_afterPower :
    ∀ kind, afterPower kind = true → afterFactor kind = true := by
  intro kind
  cases kind <;> decide

/-- A name that does not begin with `dF` is not taken for dice. -/
private theorem isDiceWord_eq_false {name : Token} (word : name.text ≠ "d" ∧ name.text ≠ "dF")
    (plain : ¬"dF".toList <+: name.text.toList) : isDiceWord name = false := by
  rw [isDiceWord, Bool.or_eq_false_iff]
  refine ⟨beq_false_of_ne word.1, ?_⟩
  rw [← Bool.not_eq_true, ParserState.startsWith_iff]
  exact plain

/-- What the grammar derives from the tokens of a phrase, before what can follow. -/
def Phrase.Means : Phrase → List Token → List Token → Prop
  | .expression, tokens, rest => Followed afterExpression rest →
    ∃ e, Grammar.Derives .expression tokens e rest
  | .simple, tokens, rest => Followed afterSimple rest →
    ∃ e, Grammar.Derives .simple tokens e rest
  | .terms, tokens, rest => Followed afterSimple rest →
    Followed afterTerm tokens ∧ ∀ before, ∃ e, Grammar.Derives (.sum before) tokens e rest
  | .term, tokens, rest => Followed afterTerm rest →
    ∃ e, Grammar.Derives .term tokens e rest
  | .powers, tokens, rest => Followed afterTerm rest →
    Followed afterPower tokens ∧ ∀ before, ∃ e, Grammar.Derives (.product before) tokens e rest
  | .power, tokens, rest => Followed afterPower rest →
    ∃ e, Grammar.Derives .power tokens e rest
  | .factor, tokens, rest => Followed afterFactor rest →
    ∃ e, Grammar.Derives .factor tokens e rest
  -- The brackets that close tell which list it is.
  | .others, tokens, rest => ∀ closing behind, rest = closing :: behind →
    (closing.kind = .parenthesisClose → Followed afterExpression tokens ∧
      ∀ name before, ∃ e, Grammar.Derives (.arguments name before) tokens e behind) ∧
    (closing.kind = .braceClose → Followed afterExpression tokens ∧
      ∀ repeats last, Grammar.Repeats behind repeats last →
        ∀ before, ∃ e, Grammar.Derives (.members before) tokens e last)

/-! ## Each production means one of the grammar

What follows a part is known from what follows the whole, or from the part behind it. -/

namespace Phrase.Means

variable {token name opening closing : Token} {behind : List Token} {sides : Sides} {n : Nat}

/-- An expression without a comparison has no sign behind it. -/
private theorem single (only : Phrase.simple.Means tokens rest) :
    Phrase.expression.Means tokens rest := by
  intro followed
  obtain ⟨e, only⟩ := only (followed.mono afterSimple_of_afterExpression)
  exact ⟨e, .single only (followed.ends (by intro kind; cases kind <;> decide))⟩

/-- The left side of a comparison is followed by the sign. -/
private theorem compare {op : Comparison} (first : Phrase.simple.Means tokens (token :: mid))
    (compares : comparison? token.kind = some op) (second : Phrase.simple.Means mid rest) :
    Phrase.expression.Means tokens rest := by
  intro followed
  have signed : afterSimple token.kind = true := by rw [afterSimple, compares]; rfl
  obtain ⟨left, first⟩ := first ⟨token, mid, rfl, signed⟩
  obtain ⟨right, second⟩ := second (followed.mono afterSimple_of_afterExpression)
  exact ⟨_, .compare first compares second⟩

/-- The first term is followed by what the other terms begin with. -/
private theorem unsigned (first : Phrase.term.Means tokens mid)
    (others : Phrase.terms.Means mid rest) : Phrase.simple.Means tokens rest := by
  intro followed
  obtain ⟨next, others⟩ := others followed
  obtain ⟨first', term⟩ := first next
  obtain ⟨e, others⟩ := others first'
  exact ⟨e, .unsigned term others⟩

/-- A sign in front is read before the first term; a minus negates this term only. -/
private theorem signed (kind : token.kind = .plus ∨ token.kind = .minus)
    (first : Phrase.term.Means tokens mid) (others : Phrase.terms.Means mid rest) :
    Phrase.simple.Means (token :: tokens) rest := by
  intro followed
  obtain ⟨next, others⟩ := others followed
  obtain ⟨first', term⟩ := first next
  rcases kind with plus | minus
  · obtain ⟨e, others⟩ := others first'
    exact ⟨e, .positive plus term others⟩
  · obtain ⟨e, others⟩ := others (.negate first')
    exact ⟨e, .negative minus term others⟩

/-- A sum ends where neither a plus nor a minus can follow. -/
private theorem termsEnd : Phrase.terms.Means tokens tokens := by
  intro followed
  refine ⟨followed.mono afterTerm_of_afterSimple, fun before => ⟨before, .sumEnd ?_⟩⟩
  exact followed.ends (by intro kind; cases kind <;> decide)

/-- One more term of a sum. -/
private theorem termsMore {op : Operator} (adds : additive? token.kind = some op)
    (term : Phrase.term.Means tokens mid) (others : Phrase.terms.Means mid rest) :
    Phrase.terms.Means (token :: tokens) rest := by
  intro followed
  obtain ⟨next, others⟩ := others followed
  obtain ⟨right, term⟩ := term next
  have signed : afterTerm token.kind = true := by rw [afterTerm, adds]; rfl
  refine ⟨⟨token, _, rfl, signed⟩, fun before => ?_⟩
  obtain ⟨e, others⟩ := others (.binary op before right)
  exact ⟨e, .sumMore adds term others⟩

/-- The first power is followed by what the other powers begin with. -/
theorem term (first : Phrase.power.Means tokens mid) (others : Phrase.powers.Means mid rest) :
    Phrase.term.Means tokens rest := by
  intro followed
  obtain ⟨next, others⟩ := others followed
  obtain ⟨first', power⟩ := first next
  obtain ⟨e, others⟩ := others first'
  exact ⟨e, .term power others⟩

/-- A product ends where no sign of a product can follow. -/
private theorem powersEnd : Phrase.powers.Means tokens tokens := by
  intro followed
  refine ⟨followed.mono afterPower_of_afterTerm, fun before => ⟨before, .productEnd ?_⟩⟩
  exact followed.ends (by intro kind; cases kind <;> decide)

/-- One more power of a product. -/
private theorem powersMore {op : Operator} (multiplies : multiplicative? token.kind = some op)
    (power : Phrase.power.Means tokens mid) (others : Phrase.powers.Means mid rest) :
    Phrase.powers.Means (token :: tokens) rest := by
  intro followed
  obtain ⟨next, others⟩ := others followed
  obtain ⟨right, power⟩ := power next
  have signed : afterPower token.kind = true := by rw [afterPower, multiplies]; rfl
  refine ⟨⟨token, _, rfl, signed⟩, fun before => ?_⟩
  obtain ⟨e, others⟩ := others (.binary op before right)
  exact ⟨e, .productMore multiplies power others⟩

/-- A power without an exponent has no sign of one behind it. -/
private theorem base (factor : Phrase.factor.Means tokens rest) :
    Phrase.power.Means tokens rest := by
  intro followed
  obtain ⟨e, factor⟩ := factor (followed.mono afterFactor_of_afterPower)
  exact ⟨e, .base factor (followed.ends (by intro kind; cases kind <;> decide))⟩

/-- The base of a power is followed by the sign of the exponent. -/
private theorem exponent (factor : Phrase.factor.Means tokens (token :: mid))
    (kind : token.kind = .doubleAsterisk) (power : Phrase.power.Means mid rest) :
    Phrase.power.Means tokens rest := by
  intro followed
  obtain ⟨base, factor⟩ := factor ⟨token, mid, rfl, by rw [kind]; rfl⟩
  obtain ⟨exponent, power⟩ := power followed
  exact ⟨_, .exponent factor kind power⟩

/-- No word can follow a factor, so that an integer is not taken for a number of dice. -/
private theorem integer (number : Integer tokens n rest) : Phrase.factor.Means tokens rest := by
  intro followed
  exact ⟨_, .integer number (followed.ends (by intro kind; cases kind <;> decide))⟩

/-- Dice whose number is an integer. -/
private theorem integerDice (care : careful) (number : Integer tokens n mid)
    (dice : Dice mid sides behind)
    (modifiers : Modifiers careful behind rest) : Phrase.factor.Means tokens rest := by
  intro followed
  obtain ⟨⟨steps, modifiers⟩, -⟩ := grammar_modifiers modifiers care followed
  exact ⟨_, .integerDice number dice modifiers⟩

/-- Dice without a number. -/
theorem dice (care : careful) (dice : Dice tokens sides behind)
    (modifiers : Modifiers careful behind rest) : Phrase.factor.Means tokens rest := by
  intro followed
  obtain ⟨⟨steps, modifiers⟩, -⟩ := grammar_modifiers modifiers care followed
  exact ⟨_, .dice dice modifiers⟩

/-- What stands in parentheses is followed by the closing one. -/
private theorem parentheses (kind : opening.kind = .parenthesisOpen)
    (inner : Phrase.expression.Means tokens (closing :: rest))
    (closes : closing.kind = .parenthesisClose) : Phrase.factor.Means (opening :: tokens) rest := by
  intro followed
  obtain ⟨e, inner⟩ := inner ⟨closing, rest, rfl, by rw [closes]; rfl⟩
  have next : Ends (· == .identifier) rest :=
    followed.ends (by intro kind; cases kind <;> decide)
  exact ⟨e, .parentheses kind inner closes next⟩

/-- Dice whose number stands in parentheses. -/
private theorem parenthesesDice (care : careful) (kind : opening.kind = .parenthesisOpen)
    (inner : Phrase.expression.Means tokens (closing :: mid))
    (closes : closing.kind = .parenthesisClose) (dice : Dice mid sides behind)
    (modifiers : Modifiers careful behind rest) : Phrase.factor.Means (opening :: tokens) rest := by
  intro followed
  obtain ⟨count, inner⟩ := inner ⟨closing, mid, rfl, by rw [closes]; rfl⟩
  obtain ⟨⟨steps, modifiers⟩, -⟩ := grammar_modifiers modifiers care followed
  exact ⟨_, .parenthesesDice kind inner closes dice modifiers⟩

/-- A call: the closing parenthesis tells that the others are arguments. -/
private theorem call (kind : name.kind = .identifier) (plain : isDiceWord name = false)
    (opens : opening.kind = .parenthesisOpen) (argument : Phrase.expression.Means tokens mid)
    (others : Phrase.others.Means mid (closing :: rest))
    (closes : closing.kind = .parenthesisClose) :
    Phrase.factor.Means (name :: opening :: tokens) rest := by
  intro _
  obtain ⟨next, others⟩ := (others closing rest rfl).1 closes
  obtain ⟨first, argument⟩ := argument next
  obtain ⟨e, others⟩ := others name.text [first]
  exact ⟨e, .call kind plain opens argument others⟩

/-- A group without members. -/
private theorem emptyGroup (opens : opening.kind = .braceOpen) (closes : closing.kind = .braceClose)
    (times : Repeats tokens rest) : Phrase.factor.Means (opening :: closing :: tokens) rest := by
  intro followed
  obtain ⟨repeats, times⟩ := grammar_repeats times followed
  exact ⟨_, .emptyGroup opens closes times⟩

/-- A group: the closing brace tells that the others are members. -/
private theorem group (opens : opening.kind = .braceOpen)
    (member : Phrase.expression.Means tokens mid)
    (others : Phrase.others.Means mid (closing :: behind)) (closes : closing.kind = .braceClose)
    (times : Repeats behind rest) : Phrase.factor.Means (opening :: tokens) rest := by
  intro followed
  obtain ⟨repeats, times⟩ := grammar_repeats times followed
  obtain ⟨next, others⟩ := (others closing behind rfl).2 closes
  obtain ⟨first, member⟩ := member next
  obtain ⟨e, others⟩ := others repeats rest times [first]
  exact ⟨e, .group opens member others⟩

/-- The end of a list, whichever it is. -/
private theorem othersEnd : Phrase.others.Means tokens tokens := by
  rintro closing behind rfl
  constructor
  · intro closes
    exact ⟨⟨closing, behind, rfl, by rw [closes]; rfl⟩, fun name before => ⟨_, .callEnd closes⟩⟩
  · intro closes
    exact ⟨⟨closing, behind, rfl, by rw [closes]; rfl⟩,
      fun repeats last times before => ⟨_, .groupEnd closes times⟩⟩

/-- One more expression of a list, an argument or a member. -/
private theorem othersMore (kind : token.kind = .comma) (next : Phrase.expression.Means tokens mid)
    (others : Phrase.others.Means mid rest) : Phrase.others.Means (token :: tokens) rest := by
  intro closing behind split
  obtain ⟨arguments, members⟩ := others closing behind split
  have first : Followed afterExpression (token :: tokens) :=
    ⟨token, tokens, rfl, by rw [kind]; rfl⟩
  -- What encloses the list decides whether its items are arguments or members.
  constructor
  · intro closes
    obtain ⟨followed, others⟩ := arguments closes
    obtain ⟨argument, next⟩ := next followed
    refine ⟨first, fun name before => ?_⟩
    obtain ⟨e, others⟩ := others name (before ++ [argument])
    exact ⟨e, .callMore kind next others⟩
  · intro closes
    obtain ⟨followed, others⟩ := members closes
    obtain ⟨member, next⟩ := next followed
    refine ⟨first, fun repeats last times before => ?_⟩
    obtain ⟨e, others⟩ := others repeats last times (before ++ [member])
    exact ⟨e, .groupMore kind next others⟩

end Phrase.Means

/-- A careful derivation is one of the grammar. -/
private theorem means_of_derives {phrase : Phrase} (h : Derives careful phrase tokens rest)
    (care : careful) : phrase.Means tokens rest := by
  -- By induction on the derivation, with one lemma for each production.
  induction h with
  | single _ ih => exact .single ih
  | compare _ compares _ ih ih' => exact .compare ih compares ih'
  | unsigned _ _ ih ih' => exact .unsigned ih ih'
  | signed kind _ _ ih ih' => exact .signed kind ih ih'
  | termsEnd => exact .termsEnd
  | termsMore adds _ _ ih ih' => exact .termsMore adds ih ih'
  | term _ _ ih ih' => exact .term ih ih'
  | powersEnd => exact .powersEnd
  | powersMore multiplies _ _ ih ih' => exact .powersMore multiplies ih ih'
  | base _ ih => exact .base ih
  | exponent _ kind _ ih ih' => exact .exponent ih kind ih'
  | integer number => exact .integer number
  | integerDice number dice modifiers => exact .integerDice care number dice modifiers
  | dice dice modifiers => exact .dice care dice modifiers
  | parentheses kind _ closes ih => exact .parentheses kind ih closes
  | parenthesesDice kind _ closes dice modifiers ih =>
    exact .parenthesesDice care kind ih closes dice modifiers
  | emptyCall kind word plain opens closes =>
    exact fun _ => ⟨_, .emptyCall kind (isDiceWord_eq_false word (plain care)) opens closes⟩
  | call kind word plain opens _ _ closes ih ih' =>
    exact .call kind (isDiceWord_eq_false word (plain care)) opens ih ih' closes
  | emptyGroup opens closes times => exact .emptyGroup opens closes times
  | group opens _ _ closes times ih ih' => exact .group opens ih ih' closes times
  | othersEnd => exact .othersEnd
  | othersMore kind _ _ ih ih' => exact .othersMore kind ih ih'

/-- What is derived with care is accepted. -/
theorem accepts_of_careful (h : Accepts careful tokens) (care : careful) :
    ∃ e, Grammar.Accepts tokens e := by
  obtain ⟨last, atEnd, derives⟩ := h
  obtain ⟨e, derives⟩ := means_of_derives derives care ⟨last, [], rfl, by rw [atEnd]; rfl⟩
  exact ⟨e, last, atEnd, derives⟩

/-! ## The parser derives with care -/

/-- The longest spelling that fits does not merge with what follows. -/
private theorem apart_of_longest {letters : String} (longest : Longest letters tokens) :
    Apart letters tokens := by
  have longer : ∀ pair ∈ merging, pair.2 ∈ spellings ∧ pair.1.length < pair.2.length := by decide
  intro merged merges
  obtain ⟨mem, lt⟩ := longer _ merges
  exact longest merged mem lt

/-- A condition of the grammar is careful: no sign stands behind the one left out. -/
private theorem of_grammar_condition {bound : Option Bound}
    (h : Grammar.Condition tokens bound rest) : Condition careful tokens rest := by
  cases h with
  | given compares number => exact .given compares number
  | absent next => exact .absent fun _ => next

/-- The modifiers of the grammar are careful: each of them is the longest that fits. -/
private theorem of_grammar_modifiers {steps : List Step} (h : Grammar.Modifiers tokens steps rest) :
    Modifiers careful tokens rest := by
  induction h with
  | done => exact .done
  | more first _ ih =>
    refine .more ?_ ih
    -- What the grammar demands of the longest spelling says that the modifiers are apart.
    cases first with
    | explode kind next condition => exact .explode kind (of_grammar_condition condition)
    | penetrate kind letter condition =>
      exact .penetrate kind letter (of_grammar_condition condition)
    | counted spelling longest word number =>
      refine .counted (List.mem_map_of_mem spelling) word ?_
      cases number with
      | given number => exact .given number
      | absent => exact .absent
    | conditional spelling longest word condition =>
      exact .conditional (List.mem_map_of_mem spelling) word (fun _ => apart_of_longest longest)
        (of_grammar_condition condition)
    | plain spelling longest word =>
      exact .plain (List.mem_map_of_mem spelling) word fun _ => apart_of_longest longest

/-- The repeats of the grammar are repeats. -/
private theorem of_grammar_repeats {repeats : Option Nat}
    (h : Grammar.Repeats tokens repeats rest) : Repeats tokens rest := by
  cases h with
  | given kind number => exact .given kind number
  | absent => exact .absent

/-- A word that is not taken for dice is the name of a function. -/
private theorem name_of_isDiceWord {name : Token} (word : isDiceWord name = false) :
    (name.text ≠ "d" ∧ name.text ≠ "dF") ∧ ¬"dF".toList <+: name.text.toList := by
  rw [isDiceWord, Bool.or_eq_false_iff, ← Bool.not_eq_true, ← Bool.not_eq_true,
    ParserState.startsWith_iff, beq_iff_eq] at word
  refine ⟨⟨word.1, fun fate => word.2 ?_⟩, word.2⟩
  rw [fate]

/-- What was read is derived without looking ahead. -/
def Phrase.Reads (careful : Prop) : Grammar.Phrase → List Token → List Token → Prop
  | .expression, tokens, rest => Derives careful .expression tokens rest
  | .simple, tokens, rest => Derives careful .simple tokens rest
  | .sum _, tokens, rest => Derives careful .terms tokens rest
  | .term, tokens, rest => Derives careful .term tokens rest
  | .product _, tokens, rest => Derives careful .powers tokens rest
  | .power, tokens, rest => Derives careful .power tokens rest
  | .factor, tokens, rest => Derives careful .factor tokens rest
  | .arguments _ _, tokens, rest => ∃ closing, closing.kind = .parenthesisClose ∧
    Derives careful .others tokens (closing :: rest)
  | .members _, tokens, rest => ∃ closing behind, closing.kind = .braceClose ∧
    Derives careful .others tokens (closing :: behind) ∧ Repeats behind rest

/-- Every derivation of the grammar is a careful one. -/
private theorem reads_of_grammar {phrase : Grammar.Phrase} {e : Expr}
    (h : Grammar.Derives phrase tokens e rest) : Phrase.Reads careful phrase tokens rest := by
  -- Each rule is one of this grammar too; what it demands of the token behind is dropped.
  induction h with
  | single _ _ ih => exact .single ih
  | compare _ compares _ ih ih' => exact .compare ih compares ih'
  | unsigned _ _ ih ih' => exact .unsigned ih ih'
  | positive kind _ _ ih ih' => exact .signed (.inl kind) ih ih'
  | negative kind _ _ ih ih' => exact .signed (.inr kind) ih ih'
  | sumEnd _ => exact .termsEnd
  | sumMore adds _ _ ih ih' => exact .termsMore adds ih ih'
  | term _ _ ih ih' => exact .term ih ih'
  | productEnd _ => exact .powersEnd
  | productMore multiplies _ _ ih ih' => exact .powersMore multiplies ih ih'
  | base _ _ ih => exact .base ih
  | exponent _ kind _ ih ih' => exact .exponent ih kind ih'
  | integer number _ => exact .integer number
  | integerDice number dice modifiers =>
    exact .integerDice number dice (of_grammar_modifiers modifiers)
  | dice dice modifiers => exact .dice dice (of_grammar_modifiers modifiers)
  | parentheses kind _ closes _ ih => exact .parentheses kind ih closes
  | parenthesesDice kind _ closes dice modifiers ih =>
    exact .parenthesesDice kind ih closes dice (of_grammar_modifiers modifiers)
  | emptyCall kind word opens closes =>
    obtain ⟨name, plain⟩ := name_of_isDiceWord word
    exact .emptyCall kind name (fun _ => plain) opens closes
  | call kind word opens _ _ ih ih' =>
    obtain ⟨name, plain⟩ := name_of_isDiceWord word
    obtain ⟨closing, closes, others⟩ := ih'
    exact .call kind name (fun _ => plain) opens ih others closes
  | callEnd closes => exact ⟨_, closes, .othersEnd⟩
  | callMore kind _ _ ih ih' =>
    obtain ⟨closing, closes, others⟩ := ih'
    exact ⟨closing, closes, .othersMore kind ih others⟩
  | emptyGroup opens closes times => exact .emptyGroup opens closes (of_grammar_repeats times)
  | group opens _ _ ih ih' =>
    obtain ⟨closing, behind, closes, others, times⟩ := ih'
    exact .group opens ih others closes times
  | groupEnd closes times => exact ⟨_, _, closes, .othersEnd, of_grammar_repeats times⟩
  | groupMore kind _ _ ih ih' =>
    obtain ⟨closing, behind, closes, others, times⟩ := ih'
    exact ⟨closing, behind, closes, .othersMore kind ih others, times⟩

end

/-! ## Texts -/

/-- The texts that are read without a diagnostic are those that can be derived with care. -/
theorem parse_iff_careful (text : String) :
    (∃ root, parse text = .ok ⟨root, []⟩) ↔ Accepts True (lex text) := by
  constructor
  · rintro ⟨root, parsed⟩
    obtain ⟨e, -, last, atEnd, derives⟩ := accepts_of_parse parsed
    exact ⟨last, atEnd, reads_of_grammar derives⟩
  · intro accepts
    obtain ⟨e, accepts⟩ := accepts_of_careful accepts trivial
    exact ⟨e.toNode, parse_of_accepts accepts⟩

/-- A factor is a sum of one term. -/
private theorem derives_of_factor {careful : Prop} {tokens rest : List Token}
    (h : Derives careful .factor tokens rest) : Derives careful .simple tokens rest :=
  .unsigned (.term (.base h) .powersEnd) .termsEnd

/-- Modifiers that merge, a condition that is left out before a comparison, and the name of a
    function that begins like fate dice. -/
theorem careless_not_parsed :
    (Accepts False (lex "1d6sdl") ∧ ¬∃ root, parse "1d6sdl" = .ok ⟨root, []⟩) ∧
      (Accepts False (lex "1d6! > (3)") ∧ ¬∃ root, parse "1d6! > (3)" = .ok ⟨root, []⟩) ∧
      (Accepts False (lex "dFoo(1)") ∧ ¬∃ root, parse "dFoo(1)" = .ok ⟨root, []⟩) := by
  -- That the parser reports something is computed for each text.
  have refused (text : String) (fails : (parse text).toOption.any ParseResult.ok = false) :
      ¬∃ root, parse text = .ok ⟨root, []⟩ := by
    rintro ⟨root, parsed⟩
    rw [parsed] at fails
    cases fails
  -- Sort ascending, and then drop the lowest die.
  have merged : Accepts False (lex "1d6sdl") := by
    have tokens : lex "1d6sdl" = [⟨.integer, 0, "1"⟩, ⟨.identifier, 1, "d"⟩, ⟨.integer, 2, "6"⟩,
        ⟨.identifier, 3, "sdl"⟩, ⟨.endOfInput, 6, ""⟩] := by decide
    have sort : Letters "s" [⟨.identifier, 3, "sdl"⟩, ⟨.endOfInput, 6, ""⟩]
        [⟨.identifier, 4, "dl"⟩, ⟨.endOfInput, 6, ""⟩] := .part rfl (by decide) (by decide)
    rw [tokens]
    refine ⟨⟨.endOfInput, 6, ""⟩, rfl, .single (derives_of_factor ?_)⟩
    refine .integerDice (.intro rfl rfl) (.faces rfl rfl (.intro rfl rfl)) ?_
    refine .more (.plain (by decide) sort nofun) ?_
    have spelling : "dl" ∈ Grammar.counted.map Prod.fst := by decide
    exact .more (.counted spelling (.whole rfl rfl) .absent) .done
  -- Compare the exploded dice with a number in parentheses.
  have compared : Accepts False (lex "1d6! > (3)") := by
    have tokens : lex "1d6! > (3)" = [⟨.integer, 0, "1"⟩, ⟨.identifier, 1, "d"⟩,
        ⟨.integer, 2, "6"⟩, ⟨.exclamation, 3, "!"⟩, ⟨.greater, 5, ">"⟩,
        ⟨.parenthesisOpen, 7, "("⟩, ⟨.integer, 8, "3"⟩, ⟨.parenthesisClose, 9, ")"⟩,
        ⟨.endOfInput, 10, ""⟩] := by decide
    rw [tokens]
    refine ⟨⟨.endOfInput, 10, ""⟩, rfl, ?_⟩
    have exploded : Derives False .factor [⟨.integer, 0, "1"⟩, ⟨.identifier, 1, "d"⟩,
        ⟨.integer, 2, "6"⟩, ⟨.exclamation, 3, "!"⟩, ⟨.greater, 5, ">"⟩,
        ⟨.parenthesisOpen, 7, "("⟩, ⟨.integer, 8, "3"⟩, ⟨.parenthesisClose, 9, ")"⟩,
        ⟨.endOfInput, 10, ""⟩] [⟨.greater, 5, ">"⟩, ⟨.parenthesisOpen, 7, "("⟩,
        ⟨.integer, 8, "3"⟩, ⟨.parenthesisClose, 9, ")"⟩, ⟨.endOfInput, 10, ""⟩] := by
      refine .integerDice (.intro rfl rfl) (.faces rfl rfl (.intro rfl rfl)) ?_
      exact .more (.explode rfl (.absent nofun)) .done
    refine .compare (derives_of_factor exploded) rfl (derives_of_factor ?_)
    exact .parentheses rfl (.single (derives_of_factor (.integer (.intro rfl rfl)))) rfl
  -- Call a function whose name begins like fate dice.
  have called : Accepts False (lex "dFoo(1)") := by
    have tokens : lex "dFoo(1)" = [⟨.identifier, 0, "dFoo"⟩, ⟨.parenthesisOpen, 4, "("⟩,
        ⟨.integer, 5, "1"⟩, ⟨.parenthesisClose, 6, ")"⟩, ⟨.endOfInput, 7, ""⟩] := by decide
    rw [tokens]
    refine ⟨⟨.endOfInput, 7, ""⟩, rfl, .single (derives_of_factor ?_)⟩
    have argument : Derives False .factor
        [⟨.integer, 5, "1"⟩, ⟨.parenthesisClose, 6, ")"⟩, ⟨.endOfInput, 7, ""⟩]
        [⟨.parenthesisClose, 6, ")"⟩, ⟨.endOfInput, 7, ""⟩] := .integer (.intro rfl rfl)
    exact .call rfl (by decide) nofun rfl (.single (derives_of_factor argument)) .othersEnd rfl
  exact ⟨⟨merged, refused _ (by decide +kernel)⟩, ⟨compared, refused _ (by decide +kernel)⟩,
    ⟨called, refused _ (by decide +kernel)⟩⟩

end DiceNotation.Ebnf
