import DiceNotation.Proofs.Parsing.Language
import DiceNotation.Proofs.Printing.Reading

/-! # Integer arithmetic in the textbook notation

An `Arithmetic` is an expression over natural numbers with four operations and a minus sign.  It
has an exact value; a remainder by zero counts zero.

`Writes tier text e` says that the text is the expression in the notation of textbooks:

    sum    := ['-'] term (('+' | '-') term)*
    term   := factor (('*' | '%') factor)*
    factor := digits | '(' sum ')'

Operations of one tier are taken together from the left, and layout may stand in front of every
token.  The grammar of dice expressions reads such a text as the same expression.

* `readsAt_of_writes`   a part of a text, by induction on how it is written
* `parse_of_denotes`    a whole text -/

namespace DiceNotation

namespace Arithmetic

/-- The operations on two numbers. -/
inductive Operation where
  | add
  | subtract
  | multiply
  | modulo
deriving DecidableEq, Repr

namespace Operation

/-- The operation among the operators of dice expressions. -/
def operator : Operation → Operator
  | add => .add
  | subtract => .subtract
  | multiply => .multiply
  | modulo => .modulo

/-- The sign of an operation. -/
def sign : Operation → Char
  | add => '+'
  | subtract => '-'
  | multiply => '*'
  | modulo => '%'

/-- The exact result.  A remainder is that of flooring division: it has the sign of the second
    number. -/
def apply : Operation → Int → Int → Int
  | add, a, b => a + b
  | subtract, a, b => a - b
  | multiply, a, b => a * b
  | modulo, a, b => if b = 0 then 0 else a.fmod b

end Operation

end Arithmetic

/-- An arithmetic expression. -/
inductive Arithmetic where
  | literal (n : Nat)
  | negate (operand : Arithmetic)
  | binary (op : Arithmetic.Operation) (left right : Arithmetic)

namespace Arithmetic

/-- The exact value. -/
def value : Arithmetic → Int
  | literal n => n
  | negate operand => -operand.value
  | binary op left right => op.apply left.value right.value

/-- How many remainders by zero there are. -/
def zeroModuli : Arithmetic → Nat
  | literal _ => 0
  | negate operand => operand.zeroModuli
  | binary op left right =>
    left.zeroModuli + right.zeroModuli + if op = .modulo ∧ right.value = 0 then 1 else 0

/-- The expression as a dice expression. -/
def toExpr : Arithmetic → Expr
  | literal n => .literal n
  | negate operand => .negate operand.toExpr
  | binary op left right => .binary op.operator left.toExpr right.toExpr

/-! ## The notation -/

/-- How tightly the parts of a text hold together. -/
inductive Tier where
  | sum
  | term
  | factor

/-- The tier of an operation.  Its left operand may be of the same tier. -/
def Operation.tier : Operation → Tier
  | add | subtract => .sum
  | multiply | modulo => .term

/-- The next tighter tier. -/
def Tier.next : Tier → Tier
  | sum => term
  | term | factor => factor

/-- The texts of an expression in the notation of textbooks. -/
inductive Writes : Tier → List Char → Arithmetic → Prop where
  | literal {gap run : List Char} (blank : IsGap gap) (ne : run ≠ []) (all : ∀ c ∈ run, c.isDigit)
      (short : run.length ≤ Numeral.maxDigits) :
      Writes .factor (gap ++ run) (.literal (Nat.ofDigitChars 10 run 0))
  | parentheses {gap gap' text : List Char} {e : Arithmetic} (blank : IsGap gap)
      (inner : Writes .sum text e) (blank' : IsGap gap') :
      Writes .factor (gap ++ '(' :: (text ++ (gap' ++ [')']))) e
  | looser {tier : Tier} {text : List Char} {e : Arithmetic} (tight : Writes tier.next text e) :
      Writes tier text e
  | negate {gap text : List Char} {e : Arithmetic} (blank : IsGap gap)
      (term : Writes .term text e) : Writes .sum (gap ++ '-' :: text) (.negate e)
  | binary {op : Operation} {gap text text' : List Char} {left right : Arithmetic}
      (first : Writes op.tier text left) (blank : IsGap gap)
      (second : Writes op.tier.next text' right) :
      Writes op.tier (text ++ (gap ++ op.sign :: text')) (.binary op left right)

/-- The text is the expression in the notation of textbooks, with layout wherever one likes. -/
def Denotes (text : String) (e : Arithmetic) : Prop :=
  ∃ written gap, text.toList = written ++ gap ∧ Writes .sum written e ∧ IsGap gap

/-- No text begins with a second half of a double asterisk. -/
private theorem Writes.exists_cons {tier : Tier} {text : List Char} {e : Arithmetic}
    (h : Writes tier text e) : ∃ c rest, text = c :: rest ∧ c ≠ '*' := by
  -- Layout in front begins with a blank, and without layout the character behind it comes first.
  have behind : ∀ {gap rest : List Char} {c : Char}, IsGap gap → c ≠ '*' →
      ∃ d rest', gap ++ c :: rest = d :: rest' ∧ d ≠ '*' := by
    intro gap rest c blank ne
    cases gap with
    | nil => exact ⟨c, rest, rfl, ne⟩
    | cons d gap =>
      refine ⟨d, gap ++ c :: rest, rfl, ?_⟩
      rintro rfl
      exact absurd (blank '*' List.mem_cons_self) (by decide)
  -- Only the tightest tiers put a character in front; the others begin as their first part does.
  induction h with
  | literal blank ne all short =>
    obtain ⟨d, run, rfl⟩ := List.exists_cons_of_ne_nil ne
    refine behind blank ?_
    rintro rfl
    exact absurd (all '*' List.mem_cons_self) (by decide)
  | parentheses blank => exact behind blank (by decide)
  | looser _ ih => exact ih
  | negate blank => exact behind blank (by decide)
  | binary _ _ _ ih =>
    obtain ⟨c, rest, rfl, ne⟩ := ih
    exact ⟨c, _, rfl, ne⟩

end Arithmetic

/-! ## Reading the notation -/

open DiceNotation.Parser (additive? multiplicative?)

section Reading

variable {kind : TokenKind} {text leftText rightText gap rest : List Char} {e left right : Expr}

/-- A gap in front does not change what a text begins with. -/
private theorem Begins.behind_gap (h : Begins kind rest) (blank : IsGap gap) : Begins kind
    (gap ++ rest) :=
  fun tokens scans => h tokens (scans_gap blank scans)

/-- Layout continues neither a numeral nor a word. -/
private theorem separate_of_isLayout {c : Char} (layout : Lexer.isLayout c = true) :
    c.isDigit = false ∧ c.isAlpha = false := by
  constructor
  · by_contra digit
    rw [isLayout_of_isDigit (Bool.not_eq_false _ ▸ digit)] at layout
    cases layout
  · by_contra letter
    rw [isLayout_of_isAlpha (Bool.not_eq_false _ ▸ letter)] at layout
    cases layout

/-- What can follow an expression can follow it behind a gap. -/
private theorem Follows.behind_gap (h : Follows kind rest) (blank : IsGap gap) : Follows kind
    (gap ++ rest) where
  begins := h.begins.behind_gap blank
  separate := by
    cases gap with
    | nil => exact h.separate
    | cons c gap =>
      rintro d ⟨⟩
      exact separate_of_isLayout (blank c List.mem_cons_self)
  closes := h.closes

/-- Layout in front of a text does not matter. -/
private theorem readsAt_gap {isOpen : Bool} (blank : IsGap gap) (h : ReadsAt text e isOpen 5) :
    ReadsAt (gap ++ text) e isOpen 5 := by
  intro kind rest tokens follows condition tight scans
  rw [List.append_assoc] at scans
  exact h _ _ _ follows condition tight (scans_gap blank scans)

/-- A run of digits that is not too long is read as its value. -/
private theorem readsAt_numeral {run : List Char} (ne : run ≠ []) (all : ∀ c ∈ run, c.isDigit)
    (short : run.length ≤ Numeral.maxDigits) :
    ReadsAt run (.literal (Nat.ofDigitChars 10 run 0)) false 5 := by
  intro kind rest tokens follows _ _ scans
  obtain ⟨more, number, scans⟩ :=
    scans_numeral ne all short scans fun c hc => (follows.separate c hc).1
  have ends : Grammar.Ends (· == .identifier) more :=
    follows.begins.ends scans (beq_false_of_ne follows.closes.1)
  exact ⟨more, scans, .integer number ends⟩

/-- Layout in front of the closing parenthesis does not matter either. -/
private theorem readsAt_enclosed {isOpen : Bool} (blank : IsGap gap) (h : ReadsAt text e isOpen 1) :
    ReadsAt ('(' :: (text ++ (gap ++ [')']))) e false 5 := by
  have inner : ReadsAt (text ++ gap) e isOpen 1 := by
    intro kind rest tokens follows condition tight scans
    rw [List.append_assoc] at scans
    obtain ⟨mid, scans, derives⟩ := h _ _ _ (follows.behind_gap blank) condition tight scans
    exact ⟨mid, scans_gap blank scans, derives⟩
  have enclosed := readsAt_parenthesized inner
  rwa [Expr.parenthesized, List.append_assoc] at enclosed

/-- The sign of an operation is a token of its own where no second asterisk follows. -/
private theorem isSign_sign (op : Arithmetic.Operation) (single : ∀ c ∈ rest.head?, c ≠ '*') :
    IsSign [op.sign] op.operator.kind rest := by
  refine ⟨?_, ?_⟩
  · cases op with
    | multiply =>
      cases rest with
      | nil => rfl
      | cons c rest =>
        -- Only `*` could be the beginning of a longer operator; the other signs stand alone.
        have ne := single c rfl
        show Lexer.lexeme ('*' :: c :: rest) = some (.asterisk, 1)
        -- Each operator of two characters that begins with `*` is ruled out by the next character.
        unfold Lexer.lexeme
        split <;> rename_i heq
        · exact absurd (List.cons.inj (List.cons.inj heq).2).1 ne
        · cases (List.cons.inj heq).1
        · cases (List.cons.inj heq).1
        · cases (List.cons.inj heq).1
        · obtain ⟨rfl, rfl⟩ := List.cons.inj heq
          rfl
        · cases heq
    | _ => rfl
  · rintro c ⟨⟩
    cases op <;> rfl

/-- An operation can follow an expression, with or without a gap. -/
private theorem follows_operation (op : Arithmetic.Operation) (blank : IsGap gap)
    (single : ∀ c ∈ rest.head?, c ≠ '*') :
    Follows op.operator.kind (gap ++ op.sign :: rest) := by
  have sign : Follows op.operator.kind (op.sign :: rest) :=
    follows_closing (isSign_sign op single) (by cases op <;> decide) (by cases op <;> decide)
  exact sign.behind_gap blank

/-- The sign of an operation behind layout. -/
private theorem scans_operation {op : Arithmetic.Operation} {tokens : List Token}
    (blank : IsGap gap)
    (single : ∀ c ∈ rest.head?, c ≠ '*') (scans : Scans (gap ++ op.sign :: rest) tokens) :
    ∃ sign more, tokens = sign :: more ∧ sign.kind = op.operator.kind ∧ Scans rest more := by
  have scans : Scans ([op.sign] ++ rest) tokens := scans_gap blank scans
  exact scans_sign scans (isSign_sign op single)

/-- A minus in front negates the product that is read behind it. -/
private theorem readsAt_minus (blank : IsGap gap) (h : ReadsAt text e false 3) :
    ReadsAt (gap ++ '-' :: text) (.negate e) false 2 := by
  intro kind rest tokens follows condition tight scans
  rw [List.append_assoc] at scans
  exact readsAt_negate h _ _ _ follows condition tight (scans_gap blank scans)

/-- The level of the phrases that a tier is read as. -/
def Arithmetic.Tier.level : Arithmetic.Tier → Nat
  | .sum => 2
  | .term => 3
  | .factor => 5

/-- An operation between its operands. -/
private theorem readsAt_operation {op : Arithmetic.Operation} (blank : IsGap gap)
    (single : ∃ c rest, rightText = c :: rest ∧ c ≠ '*')
    (hl : ReadsAt leftText left false op.tier.level)
    (hr : ReadsAt rightText right false op.tier.next.level) :
    ReadsAt (leftText ++ (gap ++ op.sign :: rightText)) (.binary op.operator left right) false
      op.tier.level := by
  have ahead : ∀ rest : List Char, ∀ c ∈ (rightText ++ rest).head?, c ≠ '*' := by
    obtain ⟨c, behind, rfl, ne⟩ := single
    rintro rest d ⟨⟩
    exact ne
  have split : ∀ rest : List Char, leftText ++ (gap ++ op.sign :: rightText) ++ rest =
      leftText ++ (gap ++ op.sign :: (rightText ++ rest)) := by
    intro rest
    simp
  -- The grammar chains sums behind a term and products behind a power, so the two tiers take the
  -- right operand by different rules.
  cases op with
  | add | subtract =>
    intro kind rest tokens follows condition tight scans
    rw [split] at scans
    obtain ⟨mid, scans, simple⟩ :=
      hl _ _ _ (follows_operation _ blank (ahead rest)) nofun (by decide) scans
    obtain ⟨sign, mid, rfl, hk, scans⟩ := scans_operation blank (ahead rest) scans
    obtain ⟨more, scans, term⟩ := term_of_readsAt hr follows condition tight scans
    exact ⟨more, scans, fun e' behind others => simple _ _ (.sumMore (by rw [hk]; rfl) term others)⟩
  | multiply | modulo =>
    have power := readsAt_four hr
    intro kind rest tokens follows condition tight scans
    rw [split] at scans
    obtain ⟨mid, scans, term⟩ :=
      hl _ _ _ (follows_operation _ blank (ahead rest)) nofun (by decide) scans
    obtain ⟨sign, mid, rfl, hk, scans⟩ := scans_operation blank (ahead rest) scans
    obtain ⟨more, scans, power⟩ := power _ _ _ follows condition tight scans
    exact ⟨more, scans, fun e' behind others =>
      term _ _ (.productMore (by rw [hk]; rfl) power others)⟩

end Reading

namespace Arithmetic

/-- What is written is read as the same expression, as tightly as it is written. -/
theorem readsAt_of_writes {tier : Tier} {text : List Char} {e : Arithmetic}
    (h : Writes tier text e) : ReadsAt text e.toExpr false tier.level := by
  induction h with
  | literal blank ne all short => exact readsAt_gap blank (readsAt_numeral ne all short)
  | parentheses blank _ blank' ih =>
    exact readsAt_gap blank (readsAt_enclosed blank' (readsAt_one ih))
  | @looser tier text e _ ih =>
    cases tier with
    | sum => exact readsAt_two ih
    | term => exact readsAt_mono ih (by decide) (by decide)
    | factor => exact ih
  | negate blank _ ih => exact readsAt_minus blank ih
  | binary _ blank second ih ih' => exact readsAt_operation blank second.exists_cons ih ih'

/-- A text in the notation of textbooks is read as the expression that it denotes. -/
theorem parse_of_denotes {text : String} {e : Arithmetic} (h : Denotes text e) :
    parse text = .ok ⟨e.toExpr.toNode, []⟩ := by
  obtain ⟨written, gap, htext, writes, blank⟩ := h
  have scans := scans_lex text
  rw [htext, ← List.append_nil (written ++ gap), List.append_assoc] at scans
  -- The end of the input stops an expression, also behind the gap at the end of the text.
  have ends : Follows .endOfInput [] := by
    refine ⟨fun tokens scans => ?_, nofun, by decide⟩
    obtain ⟨last, rfl, kind⟩ := scans_nil scans
    exact ⟨last, [], rfl, kind⟩
  have expression := readsAt_one (readsAt_of_writes writes)
  obtain ⟨more, scans, derives⟩ :=
    expression _ _ _ (ends.behind_gap blank) nofun (by decide) scans
  -- Nothing but the end of the input is left behind the expression.
  obtain ⟨last, rfl, kind⟩ := scans_nil (scans_gap blank scans)
  exact parse_of_accepts ⟨last, kind, derives⟩

end Arithmetic

end DiceNotation
