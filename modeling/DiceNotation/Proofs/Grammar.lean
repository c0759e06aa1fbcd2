import DiceNotation.Parser.Expression
import DiceNotation.Proofs.Expr

/-! # The grammar of dice expressions

`Derives phrase tokens e rest` says that `tokens` begin with a phrase whose expression is `e`, and
that `rest` is what stands behind the phrase.  There is one constructor for each production:

    expression := simple [cmp simple]
    simple     := [+|-] term ((+|-) term)*
    term       := power ((*|/|%) power)*
    power      := factor ['**' power]
    factor     := name '(' [list] ')' | dice | integer [dice] | '(' expression ')' [dice]
                | '{' [list] '}' ['...' integer]
    dice       := ('d' (integer | '%') | 'dF') modifier*
    modifier   := '!' ['p'] [cmp integer] | (k kh kl d dh dl) [integer]
                | (r ro c cs cf) [cmp integer] | s sa sd

Modifiers stand side by side without separators, so a word holds as many of them as it is long;
the longest spelling that fits is the next one.  A part in brackets is left out only where the
next token cannot be its first one, and a repetition ends only there.  This is what makes the
derivation unique: in `4d6! > 3` the comparison sign belongs to the modifier. -/

namespace DiceNotation.Grammar

open DiceNotation.Parser (comparison? additive? multiplicative? isDiceWord)
open DiceNotation.Expr (Sides Bound Step)

/-- The next token, if there is one, is not of such a kind. -/
def Ends (begins : TokenKind → Bool) (tokens : List Token) : Prop :=
  ∀ token ∈ tokens.head?, begins token.kind = false

/-- The next token is not a word that begins with these letters. -/
def Lacks (letters : String) (tokens : List Token) : Prop :=
  ∀ token ∈ tokens.head?, token.kind = .identifier → ¬letters.toList <+: token.text.toList

/-- A numeral. -/
inductive Integer : List Token → Nat → List Token → Prop where
  | intro {token rest} {n : Nat} (kind : token.kind = .integer)
      (value : Numeral.read token.text = .ok n) : Integer (token :: rest) n rest

/-- Letters at the beginning of a word.  What is left of the word stays. -/
inductive Letters (letters : String) : List Token → List Token → Prop where
  | whole {token rest} (kind : token.kind = .identifier) (text : token.text = letters) :
      Letters letters (token :: rest) rest
  | part {token rest more} (kind : token.kind = .identifier) (text : token.text = letters ++ more)
      (left : more ≠ "") :
      Letters letters (token :: rest)
        (⟨.identifier, token.position + letters.length, more⟩ :: rest)

/-! ## Dice -/

/-- The number of dice that a modifier keeps or drops, which may be left out. -/
inductive Amount : List Token → Option Nat → List Token → Prop where
  | given {tokens n rest} (number : Integer tokens n rest) : Amount tokens (some n) rest
  | absent {tokens} (next : Ends (· == .integer) tokens) : Amount tokens none tokens

/-- The condition of a modifier, which may be left out. -/
inductive Condition : List Token → Option Bound → List Token → Prop where
  | given {sign tokens op n rest} (compares : comparison? sign.kind = some op)
      (number : Integer tokens n rest) : Condition (sign :: tokens) (some ⟨op, n⟩) rest
  | absent {tokens} (next : Ends (fun kind => (comparison? kind).isSome) tokens) :
      Condition tokens none tokens

/-- The spellings of the modifiers that take a number of dice. -/
def counted : List (String × (Option Nat → Step)) :=
  [("k", .keep true), ("kh", .keep true), ("kl", .keep false),
    ("d", .drop false), ("dh", .drop true), ("dl", .drop false)]

/-- The spellings of the modifiers that take a condition. -/
def conditional : List (String × (Option Bound → Step)) :=
  [("r", .reroll false), ("ro", .reroll true),
    ("c", .critical true), ("cs", .critical true), ("cf", .critical false)]

/-- The spellings of the modifiers that take nothing. -/
def plain : List (String × Step) :=
  [("s", .sort false), ("sa", .sort false), ("sd", .sort true)]

/-- A modifier that takes a number of dice keeps or drops dice. -/
theorem exists_of_counted {letters : String} {make : Option Nat → Step}
    (h : (letters, make) ∈ counted) : ∃ highest, make = .keep highest ∨ make = .drop highest := by
  simp only [counted, List.mem_cons, Prod.mk.injEq, List.not_mem_nil, or_false] at h
  rcases h with ⟨-, rfl⟩ | ⟨-, rfl⟩ | ⟨-, rfl⟩ | ⟨-, rfl⟩ | ⟨-, rfl⟩ | ⟨-, rfl⟩
  · exact ⟨true, .inl rfl⟩
  · exact ⟨true, .inl rfl⟩
  · exact ⟨false, .inl rfl⟩
  · exact ⟨false, .inr rfl⟩
  · exact ⟨true, .inr rfl⟩
  · exact ⟨false, .inr rfl⟩

/-- A modifier that takes a condition throws dice again or marks them. -/
theorem exists_of_conditional {letters : String} {make : Option Bound → Step}
    (h : (letters, make) ∈ conditional) :
    ∃ variant, make = .reroll variant ∨ make = .critical variant := by
  simp only [conditional, List.mem_cons, Prod.mk.injEq, List.not_mem_nil, or_false] at h
  rcases h with ⟨-, rfl⟩ | ⟨-, rfl⟩ | ⟨-, rfl⟩ | ⟨-, rfl⟩ | ⟨-, rfl⟩
  · exact ⟨false, .inl rfl⟩
  · exact ⟨true, .inl rfl⟩
  · exact ⟨true, .inr rfl⟩
  · exact ⟨true, .inr rfl⟩
  · exact ⟨false, .inr rfl⟩

/-- A modifier that takes nothing sorts dice. -/
theorem exists_of_plain {letters : String} {step : Step} (h : (letters, step) ∈ plain) :
    ∃ descending, step = .sort descending := by
  simp only [plain, List.mem_cons, Prod.mk.injEq, List.not_mem_nil, or_false] at h
  rcases h with ⟨-, rfl⟩ | ⟨-, rfl⟩ | ⟨-, rfl⟩
  · exact ⟨false, rfl⟩
  · exact ⟨false, rfl⟩
  · exact ⟨true, rfl⟩

/-- All spellings. -/
def spellings : List String :=
  counted.map Prod.fst ++ conditional.map Prod.fst ++ plain.map Prod.fst

/-- No longer spelling than `letters` fits the next word. -/
def Longest (letters : String) (tokens : List Token) : Prop :=
  ∀ other ∈ spellings, letters.length < other.length → Lacks other tokens

/-- A modifier. -/
inductive Modifier : List Token → Step → List Token → Prop where
  | explode {mark tokens bound rest} (kind : mark.kind = .exclamation) (next : Lacks "p" tokens)
      (condition : Condition tokens bound rest) :
      Modifier (mark :: tokens) (.explode false bound) rest
  | penetrate {mark tokens mid bound rest} (kind : mark.kind = .exclamation)
      (letter : Letters "p" tokens mid) (condition : Condition mid bound rest) :
      Modifier (mark :: tokens) (.explode true bound) rest
  | counted {letters step tokens mid amount rest} (spelling : (letters, step) ∈ counted)
      (longest : Longest letters tokens) (word : Letters letters tokens mid)
      (number : Amount mid amount rest) : Modifier tokens (step amount) rest
  | conditional {letters step tokens mid bound rest} (spelling : (letters, step) ∈ conditional)
      (longest : Longest letters tokens) (word : Letters letters tokens mid)
      (condition : Condition mid bound rest) : Modifier tokens (step bound) rest
  | plain {letters step tokens rest} (spelling : (letters, step) ∈ plain)
      (longest : Longest letters tokens) (word : Letters letters tokens rest) :
      Modifier tokens step rest

/-- Modifiers, as many as there are. -/
inductive Modifiers : List Token → List Step → List Token → Prop where
  | done {tokens} (mark : Ends (· == .exclamation) tokens)
      (word : ∀ letters ∈ spellings, Lacks letters tokens) : Modifiers tokens [] tokens
  | more {tokens step mid steps rest} (first : Modifier tokens step mid)
      (others : Modifiers mid steps rest) : Modifiers tokens (step :: steps) rest

/-- The sides of dice. -/
inductive Dice : List Token → Sides → List Token → Prop where
  | faces {letter tokens n rest} (kind : letter.kind = .identifier) (text : letter.text = "d")
      (number : Integer tokens n rest) : Dice (letter :: tokens) (.faces n) rest
  | hundred {letter sign rest} (kind : letter.kind = .identifier) (text : letter.text = "d")
      (percent : sign.kind = .percent) : Dice (letter :: sign :: rest) (.faces 100) rest
  | fate {tokens rest} (word : Letters "dF" tokens rest) : Dice tokens .fate rest

/-- The number of repeats of a group, which may be left out. -/
inductive Repeats : List Token → Option Nat → List Token → Prop where
  | given {dots tokens n rest} (kind : dots.kind = .ellipsis) (number : Integer tokens n rest) :
      Repeats (dots :: tokens) (some n) rest
  | absent {tokens} (next : Ends (· == .ellipsis) tokens) : Repeats tokens none tokens

/-! ## Expressions -/

/-- The phrases that expressions are made of.  Some go on with what stands before them. -/
inductive Phrase where
  | expression
  | simple
  /-- The operators and terms behind the first terms of a sum. -/
  | sum (before : Expr)
  | term
  /-- The operators and powers behind the first powers of a product. -/
  | product (before : Expr)
  | power
  | factor
  /-- The arguments of a call behind the first ones, and the closing parenthesis. -/
  | arguments (name : String) (before : List Expr)
  /-- The members of a group behind the first ones, the closing brace and the repeats. -/
  | members (before : List Expr)

/-- The derivations of phrases. -/
inductive Derives : Phrase → List Token → Expr → List Token → Prop where
  | single {tokens e rest} (only : Derives .simple tokens e rest)
      (next : Ends (fun kind => (comparison? kind).isSome) rest) :
      Derives .expression tokens e rest
  | compare {tokens left sign mid op right rest} (first : Derives .simple tokens left (sign :: mid))
      (compares : comparison? sign.kind = some op) (second : Derives .simple mid right rest) :
      Derives .expression tokens (.compare op left right) rest
  | unsigned {tokens first mid e rest} (term : Derives .term tokens first mid)
      (others : Derives (.sum first) mid e rest) : Derives .simple tokens e rest
  | positive {sign tokens first mid e rest} (kind : sign.kind = .plus)
      (term : Derives .term tokens first mid) (others : Derives (.sum first) mid e rest) :
      Derives .simple (sign :: tokens) e rest
  | negative {sign tokens first mid e rest} (kind : sign.kind = .minus)
      (term : Derives .term tokens first mid) (others : Derives (.sum (.negate first)) mid e rest) :
      Derives .simple (sign :: tokens) e rest
  | sumEnd {tokens before} (next : Ends (fun kind => (additive? kind).isSome) tokens) :
      Derives (.sum before) tokens before tokens
  | sumMore {sign tokens before op right mid e rest} (adds : additive? sign.kind = some op)
      (term : Derives .term tokens right mid)
      (others : Derives (.sum (.binary op before right)) mid e rest) :
      Derives (.sum before) (sign :: tokens) e rest
  | term {tokens first mid e rest} (power : Derives .power tokens first mid)
      (others : Derives (.product first) mid e rest) : Derives .term tokens e rest
  | productEnd {tokens before} (next : Ends (fun kind => (multiplicative? kind).isSome) tokens) :
      Derives (.product before) tokens before tokens
  | productMore {sign tokens before op right mid e rest}
      (multiplies : multiplicative? sign.kind = some op) (power : Derives .power tokens right mid)
      (others : Derives (.product (.binary op before right)) mid e rest) :
      Derives (.product before) (sign :: tokens) e rest
  | base {tokens e rest} (factor : Derives .factor tokens e rest)
      (next : Ends (· == .doubleAsterisk) rest) : Derives .power tokens e rest
  | exponent {tokens base sign mid exponent rest}
      (factor : Derives .factor tokens base (sign :: mid))
      (kind : sign.kind = .doubleAsterisk) (power : Derives .power mid exponent rest) :
      Derives .power tokens (.binary .exponent base exponent) rest
  | integer {tokens n rest} (number : Integer tokens n rest) (next : Ends (· == .identifier) rest) :
      Derives .factor tokens (.literal n) rest
  | integerDice {tokens n mid sides behind steps rest} (number : Integer tokens n mid)
      (dice : Dice mid sides behind) (modifiers : Modifiers behind steps rest) :
      Derives .factor tokens (.roll (.literal n) sides steps) rest
  | dice {tokens sides behind steps rest} (dice : Dice tokens sides behind)
      (modifiers : Modifiers behind steps rest) :
      Derives .factor tokens (.roll (.literal 1) sides steps) rest
  | parentheses {opening tokens e closing rest} (kind : opening.kind = .parenthesisOpen)
      (inner : Derives .expression tokens e (closing :: rest))
      (closes : closing.kind = .parenthesisClose) (next : Ends (· == .identifier) rest) :
      Derives .factor (opening :: tokens) e rest
  | parenthesesDice {opening tokens e closing mid sides behind steps rest}
      (kind : opening.kind = .parenthesisOpen)
      (inner : Derives .expression tokens e (closing :: mid))
      (closes : closing.kind = .parenthesisClose) (dice : Dice mid sides behind)
      (modifiers : Modifiers behind steps rest) :
      Derives .factor (opening :: tokens) (.roll e sides steps) rest
  | emptyCall {name opening closing rest} (kind : name.kind = .identifier)
      (word : isDiceWord name = false) (opens : opening.kind = .parenthesisOpen)
      (closes : closing.kind = .parenthesisClose) :
      Derives .factor (name :: opening :: closing :: rest) (.call name.text []) rest
  | call {name opening tokens first mid e rest} (kind : name.kind = .identifier)
      (word : isDiceWord name = false) (opens : opening.kind = .parenthesisOpen)
      (argument : Derives .expression tokens first mid)
      (others : Derives (.arguments name.text [first]) mid e rest) :
      Derives .factor (name :: opening :: tokens) e rest
  | callEnd {closing name before rest} (closes : closing.kind = .parenthesisClose) :
      Derives (.arguments name before) (closing :: rest) (.call name before) rest
  | callMore {comma tokens name before argument mid e rest} (kind : comma.kind = .comma)
      (next : Derives .expression tokens argument mid)
      (others : Derives (.arguments name (before ++ [argument])) mid e rest) :
      Derives (.arguments name before) (comma :: tokens) e rest
  | emptyGroup {opening closing tokens repeats rest} (opens : opening.kind = .braceOpen)
      (closes : closing.kind = .braceClose) (times : Repeats tokens repeats rest) :
      Derives .factor (opening :: closing :: tokens) (.group [] repeats) rest
  | group {opening tokens first mid e rest} (opens : opening.kind = .braceOpen)
      (member : Derives .expression tokens first mid)
      (others : Derives (.members [first]) mid e rest) : Derives .factor (opening :: tokens) e rest
  | groupEnd {closing tokens before repeats rest} (closes : closing.kind = .braceClose)
      (times : Repeats tokens repeats rest) :
      Derives (.members before) (closing :: tokens) (.group before repeats) rest
  | groupMore {comma tokens before member mid e rest} (kind : comma.kind = .comma)
      (next : Derives .expression tokens member mid)
      (others : Derives (.members (before ++ [member])) mid e rest) :
      Derives (.members before) (comma :: tokens) e rest

/-- The tokens are an expression up to the end of the input. -/
def Accepts (tokens : List Token) (e : Expr) : Prop :=
  ∃ last, last.kind = .endOfInput ∧ Derives .expression tokens e [last]

end DiceNotation.Grammar
