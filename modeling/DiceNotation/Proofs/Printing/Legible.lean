import DiceNotation.Proofs.Derivation
import DiceNotation.Proofs.Lexing

/-! # Expressions that can be written

An expression is legible if its numbers are small enough to be written and its functions have
names that start no dice roll.  What is read from a text is legible (`legible_of_derives`). -/

namespace DiceNotation

open DiceNotation.Expr (Sides Bound Step)
open Grammar (Phrase Derives Letters)

namespace Expr

/-- A number that can be written. -/
def Writable (n : Nat) : Prop := n < 10 ^ Numeral.maxDigits

/-- A natural number can be written if its value in the tree can. -/
theorem writable_iff {n : Nat} : Writable n ↔ (Value.int n).isWritable = true := by
  have same : Number.writableBound = 10 ^ Numeral.maxDigits := by decide +kernel
  rw [Value.isWritable, Number.isWritable, decide_eq_true_eq, same]
  rfl

/-- A word that names a function. -/
def IsName (name : String) : Prop :=
  Lexer.IsWord name ∧ Parser.isDiceWord ⟨.identifier, 0, name⟩ = false

/-- The number of sides can be written. -/
def Sides.Legible : Sides → Prop
  | faces n => Writable n
  | fate => True

/-- The number in the argument can be written. -/
def Step.Legible : Step → Prop
  | explode _ bound | critical _ bound | reroll _ bound => ∀ b ∈ bound, Writable b.limit
  | keep _ amount | drop _ amount => ∀ n ∈ amount, Writable n
  | sort _ => True

mutual

/-- All numbers can be written, and functions have names. -/
def Legible : Expr → Prop
  | literal n => Writable n
  | roll count sides steps => count.Legible ∧ sides.Legible ∧ ∀ step ∈ steps, step.Legible
  | negate operand => operand.Legible
  | binary _ left right => left.Legible ∧ right.Legible
  | compare _ left right => left.Legible ∧ right.Legible
  | call name arguments => IsName name ∧ LegibleAll arguments
  | group members repeats => LegibleAll members ∧ ∀ n ∈ repeats, Writable n

/-- All of the expressions are legible. -/
def LegibleAll : List Expr → Prop
  | [] => True
  | e :: es => e.Legible ∧ LegibleAll es

end

/-- Expressions are legible if each of them is. -/
theorem legibleAll_iff (es : List Expr) : LegibleAll es ↔ ∀ e ∈ es, e.Legible := by
  induction es with
  | nil => exact ⟨nofun, fun _ => trivial⟩
  | cons e es ih => rw [LegibleAll, ih, List.forall_mem_cons]

end Expr

open DiceNotation.Expr (Writable)

/-- A token as a text has it: numerals are runs of digits, words are runs of letters. -/
structure Token.Proper (token : Token) : Prop where
  numeral : token.kind = .integer → Numeral.IsDigits token.text
  word : token.kind = .identifier → Lexer.IsWord token.text

/-- All of the tokens are proper. -/
def Proper (tokens : List Token) : Prop := ∀ token ∈ tokens, token.Proper

/-- The tokens of a text are proper. -/
theorem proper_lex (text : String) : Proper (lex text) :=
  fun token ht => ⟨(regular_lex text).numerals token ht, Lexer.isWord_of_mem_scan ht⟩

/-- Proper tokens stay proper without the first one. -/
theorem Proper.tail {token : Token} {tokens : List Token} (h : Proper (token :: tokens)) :
    Proper tokens :=
  fun t ht => h t (List.mem_cons_of_mem _ ht)

/-- What stands behind a phrase of proper tokens is proper. -/
private theorem Behind.proper {tokens rest : List Token} (h : Behind tokens rest)
    (proper : Proper tokens) : Proper rest := by
  induction h with
  | refl => exact proper
  | take _ _ ih => exact ih proper.tail
  | cut kind text left _ ih =>
    refine ih fun t ht => ?_
    rcases List.mem_cons.mp ht with rfl | ht
    · refine ⟨nofun, fun _ => ⟨left, fun c hc => ?_⟩⟩
      -- What is left of a word is made of its letters.
      have word := (proper _ List.mem_cons_self).word kind
      refine word.2 c ?_
      rw [text, String.toList_append]
      exact List.mem_append_right _ hc
    · exact proper.tail t ht

/-! ## The parts of a dice roll -/

/-- A numeral of proper tokens can be written. -/
private theorem writable_of_integer {tokens rest : List Token} {n : Nat} (proper : Proper tokens)
    (h : Grammar.Integer tokens n rest) : Writable n := by
  obtain ⟨kind, value⟩ := h
  obtain ⟨k, hk, small⟩ :=
    Numeral.exists_of_read_eq_ok ((proper _ List.mem_cons_self).numeral kind) value
  rw [Int.ofNat.inj hk]
  exact small

/-- An amount of proper tokens can be written. -/
private theorem writable_of_amount {tokens rest : List Token} {amount : Option Nat}
    (proper : Proper tokens) (h : Grammar.Amount tokens amount rest) :
    ∀ n ∈ amount, Writable n := by
  cases h with
  | given number =>
    rintro n ⟨⟩
    exact writable_of_integer proper number
  | absent _ => exact nofun

/-- The limit of a condition of proper tokens can be written. -/
private theorem writable_of_condition {tokens rest : List Token} {bound : Option Bound}
    (proper : Proper tokens) (h : Grammar.Condition tokens bound rest) :
    ∀ b ∈ bound, Writable b.limit := by
  cases h with
  | given _ number =>
    rintro b ⟨⟩
    exact writable_of_integer proper.tail number
  | absent _ => exact nofun

/-- A modifier of proper tokens is legible. -/
private theorem legible_of_modifier {tokens rest : List Token} {step : Step}
    (proper : Proper tokens) (h : Grammar.Modifier tokens step rest) : step.Legible := by
  cases h with
  -- Each production has the numeral in its condition or in its amount.
  | explode _ _ condition => exact writable_of_condition proper.tail condition
  | penetrate _ letter condition =>
    exact writable_of_condition ((behind_letters letter).proper proper.tail) condition
  | counted spelling _ word number =>
    have small := writable_of_amount ((behind_letters word).proper proper) number
    obtain ⟨highest, rfl | rfl⟩ := Grammar.exists_of_counted spelling
    · exact small
    · exact small
  | conditional spelling _ word condition =>
    have small := writable_of_condition ((behind_letters word).proper proper) condition
    obtain ⟨variant, rfl | rfl⟩ := Grammar.exists_of_conditional spelling
    · exact small
    · exact small
  | plain spelling _ _ =>
    obtain ⟨descending, rfl⟩ := Grammar.exists_of_plain spelling
    exact trivial

/-- Modifiers of proper tokens are legible. -/
private theorem legible_of_modifiers {tokens rest : List Token} {steps : List Step}
    (proper : Proper tokens) (h : Grammar.Modifiers tokens steps rest) :
    ∀ step ∈ steps, step.Legible := by
  induction h with
  | done _ _ => exact nofun
  | more first _ ih =>
    intro step hs
    rcases List.mem_cons.mp hs with rfl | hs
    · exact legible_of_modifier proper first
    · exact ih ((behind_modifier first).proper proper) step hs

/-- The sides of dice of proper tokens are legible. -/
private theorem legible_of_dice {tokens rest : List Token} {sides : Sides} (proper : Proper tokens)
    (h : Grammar.Dice tokens sides rest) : sides.Legible := by
  cases h with
  | faces _ _ number => exact writable_of_integer proper.tail number
  | hundred _ _ _ =>
    exact Nat.lt_of_lt_of_le (by decide) (Nat.pow_le_pow_right (by decide) (by decide : 3 ≤ _))
  | fate _ => exact trivial

/-- Repeats of proper tokens can be written. -/
private theorem writable_of_repeats {tokens rest : List Token} {repeats : Option Nat}
    (proper : Proper tokens) (h : Grammar.Repeats tokens repeats rest) :
    ∀ n ∈ repeats, Writable n := by
  cases h with
  | given _ number =>
    rintro n ⟨⟩
    exact writable_of_integer proper.tail number
  | absent _ => exact nofun

/-- A roll of proper tokens is legible if its count is. -/
private theorem legible_roll {count : Expr} {sides : Sides} {steps : List Step}
    {tokens mid rest : List Token} (proper : Proper tokens) (hcount : count.Legible)
    (dice : Grammar.Dice tokens sides mid) (modifiers : Grammar.Modifiers mid steps rest) :
    (Expr.roll count sides steps).Legible := by
  rw [Expr.Legible]
  exact ⟨hcount, legible_of_dice proper dice,
    legible_of_modifiers ((behind_dice dice).proper proper) modifiers⟩

/-! ## Expressions -/

/-- The expressions that a phrase goes on with are legible. -/
def Grammar.Phrase.Legible : Phrase → Prop
  | .sum before | .product before => before.Legible
  | .arguments name before => Expr.IsName name ∧ ∀ e ∈ before, e.Legible
  | .members before => ∀ e ∈ before, e.Legible
  | _ => True

/-- What is derived from proper tokens is legible, by induction on the derivation. -/
theorem legible_of_derives {phrase : Phrase} {tokens rest : List Token} {e : Expr}
    (h : Derives phrase tokens e rest) (proper : Proper tokens) (before : phrase.Legible) :
    e.Legible := by
  -- The members of a list, one more at the end.
  have snoc : ∀ {es : List Expr} {e : Expr}, (∀ e ∈ es, e.Legible) → e.Legible →
      ∀ e' ∈ es ++ [e], e'.Legible := by
    intro es e hes he e' h
    rcases List.mem_append.mp h with h | h
    · exact hes e' h
    · rw [List.mem_singleton.mp h]
      exact he
  -- A phrase that goes on with an operator or a list is legible as far as it was read before.
  induction h with
  | single _ _ ih => exact ih proper before
  | compare first _ _ ih ih' =>
    rw [Expr.Legible]
    exact ⟨ih proper trivial, ih' ((behind_of_derives first).proper proper).tail trivial⟩
  | unsigned term _ ih ih' =>
    exact ih' ((behind_of_derives term).proper proper) (ih proper trivial)
  | positive _ term _ ih ih' =>
    exact ih' ((behind_of_derives term).proper proper.tail) (ih proper.tail trivial)
  | negative _ term _ ih ih' =>
    refine ih' ((behind_of_derives term).proper proper.tail) ?_
    rw [Phrase.Legible, Expr.Legible]
    exact ih proper.tail trivial
  | sumEnd _ => exact before
  | sumMore _ term _ ih ih' =>
    refine ih' ((behind_of_derives term).proper proper.tail) ?_
    rw [Phrase.Legible, Expr.Legible]
    exact ⟨before, ih proper.tail trivial⟩
  | term power _ ih ih' =>
    exact ih' ((behind_of_derives power).proper proper) (ih proper trivial)
  | productEnd _ => exact before
  | productMore _ power _ ih ih' =>
    refine ih' ((behind_of_derives power).proper proper.tail) ?_
    rw [Phrase.Legible, Expr.Legible]
    exact ⟨before, ih proper.tail trivial⟩
  | base _ _ ih => exact ih proper trivial
  | exponent factor _ _ ih ih' =>
    rw [Expr.Legible]
    exact ⟨ih proper trivial, ih' ((behind_of_derives factor).proper proper).tail trivial⟩
  | integer number _ =>
    rw [Expr.Legible]
    exact writable_of_integer proper number
  | integerDice number dice modifiers =>
    refine legible_roll ((behind_integer number).proper proper) ?_ dice modifiers
    rw [Expr.Legible]
    exact writable_of_integer proper number
  | dice dice modifiers =>
    refine legible_roll proper ?_ dice modifiers
    rw [Expr.Legible]
    exact Nat.one_lt_pow (by decide) (by decide)
  | parentheses _ _ _ _ ih => exact ih proper.tail trivial
  | parenthesesDice _ inner _ dice modifiers ih =>
    have behind := (behind_of_derives inner).proper proper.tail
    exact legible_roll behind.tail (ih proper.tail trivial) dice modifiers
  | emptyCall kind word _ _ =>
    rw [Expr.Legible]
    exact ⟨⟨(proper _ List.mem_cons_self).word kind, word⟩, trivial⟩
  | call kind word _ argument _ ih ih' =>
    refine ih' ((behind_of_derives argument).proper proper.tail.tail) ⟨?_, ?_⟩
    · exact ⟨(proper _ List.mem_cons_self).word kind, word⟩
    · exact List.forall_mem_singleton.mpr (ih proper.tail.tail trivial)
  | callEnd _ =>
    rw [Expr.Legible, Expr.legibleAll_iff]
    exact before
  | callMore _ next _ ih ih' =>
    refine ih' ((behind_of_derives next).proper proper.tail) ⟨before.1, ?_⟩
    exact snoc before.2 (ih proper.tail trivial)
  | emptyGroup _ _ times =>
    rw [Expr.Legible]
    exact ⟨trivial, writable_of_repeats proper.tail.tail times⟩
  | group _ member _ ih ih' =>
    refine ih' ((behind_of_derives member).proper proper.tail) ?_
    exact List.forall_mem_singleton.mpr (ih proper.tail trivial)
  | groupEnd _ times =>
    rw [Expr.Legible, Expr.legibleAll_iff]
    exact ⟨before, writable_of_repeats proper.tail times⟩
  | groupMore _ next _ ih ih' =>
    refine ih' ((behind_of_derives next).proper proper.tail) ?_
    exact snoc before (ih proper.tail trivial)

end DiceNotation
