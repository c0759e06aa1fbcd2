import DiceNotation.Proofs.Gaps
import DiceNotation.Proofs.Numeral

/-! # What derivations take

A derivation takes whole tokens and letters off the front of words, and no unknown token
(`behind_of_derives`), also where operands are missing (`behind_of_tolerates`).  So what is known
of the tokens of a text is known of what stands behind a phrase. -/

namespace DiceNotation

open DiceNotation.Expr (Sides Bound Step)
open Grammar (Phrase Derives Tolerates Letters)
open DiceNotation.Parser (comparison? additive? multiplicative?)

/-- What is left of tokens when known tokens are taken, and letters off the front of words. -/
inductive Behind : List Token → List Token → Prop where
  | refl {tokens} : Behind tokens tokens
  | take {token tokens rest} (known : token.kind ≠ .unknown) (behind : Behind tokens rest) :
      Behind (token :: tokens) rest
  | cut {token tokens letters more position rest} (kind : token.kind = .identifier)
      (text : token.text = letters ++ more) (left : more ≠ "")
      (behind : Behind (⟨.identifier, position, more⟩ :: tokens) rest) :
      Behind (token :: tokens) rest

namespace Behind

/-- A known token in front is read as well. -/
theorem cons {kind : TokenKind} {token : Token} {tokens rest : List Token}
    (behind : Behind tokens rest) (hk : token.kind = kind) (known : kind ≠ .unknown) :
    Behind (token :: tokens) rest :=
  .take (hk ▸ known) behind

/-- What is reached from tokens that are reached is reached from the start. -/
theorem trans {tokens mid rest : List Token} (h : Behind tokens mid) (h' : Behind mid rest) :
    Behind tokens rest := by
  induction h with
  | refl => exact h'
  | take known _ ih => exact .take known (ih h')
  | cut kind text left _ ih => exact .cut kind text left (ih h')

/-- No unknown token is taken. -/
theorem unknown {tokens rest : List Token} (h : Behind tokens rest) :
    ∀ token ∈ tokens, token.kind = .unknown → token ∈ rest := by
  induction h with
  | refl => exact fun _ ht _ => ht
  | take known _ ih =>
    intro t ht hk
    rcases List.mem_cons.mp ht with rfl | ht
    · exact absurd hk known
    · exact ih t ht hk
  -- What is cut off is the part of an identifier, which is a known token.
  | cut kind _ _ _ ih =>
    intro t ht hk
    rcases List.mem_cons.mp ht with rfl | ht
    · rw [kind] at hk
      cases hk
    · exact ih t (List.mem_cons_of_mem _ ht) hk

end Behind

/-- A numeral is read off the front of the tokens. -/
theorem behind_integer {tokens rest : List Token} {n : Nat} (h : Grammar.Integer tokens n rest) :
    Behind tokens rest := by
  obtain ⟨kind, -⟩ := h
  exact (Behind.refl).cons kind (by decide)

/-- The letters of a modifier are read off the front of the tokens, or cut off a word. -/
theorem behind_letters {letters : String} {tokens rest : List Token}
    (h : Letters letters tokens rest) : Behind tokens rest := by
  cases h with
  | whole kind _ => exact (Behind.refl).cons kind (by decide)
  | part kind text left => exact .cut kind text left .refl

/-- An amount is read off the front of the tokens, if there is one. -/
private theorem behind_amount {amount : Option Nat} {tokens rest : List Token}
    (h : Grammar.Amount tokens amount rest) : Behind tokens rest := by
  cases h with
  | given number => exact behind_integer number
  | absent _ => exact .refl

/-- A comparison sign is a known token. -/
private theorem known_of_comparison? {kind : TokenKind} {op : Comparison}
    (h : comparison? kind = some op) : kind ≠ .unknown := by
  rintro rfl
  cases h

/-- A condition is read off the front of the tokens, if there is one. -/
private theorem behind_condition {bound : Option Bound} {tokens rest : List Token}
    (h : Grammar.Condition tokens bound rest) : Behind tokens rest := by
  cases h with
  | given compares number => exact (behind_integer number).cons rfl (known_of_comparison? compares)
  | absent _ => exact .refl

/-- A modifier is read off the front of the tokens. -/
theorem behind_modifier {step : Step} {tokens rest : List Token}
    (h : Grammar.Modifier tokens step rest) : Behind tokens rest := by
  cases h with
  | explode kind _ condition => exact (behind_condition condition).cons kind (by decide)
  | penetrate kind letter condition =>
    exact ((behind_letters letter).trans (behind_condition condition)).cons kind (by decide)
  | counted _ _ word number => exact (behind_letters word).trans (behind_amount number)
  | conditional _ _ word condition => exact (behind_letters word).trans (behind_condition condition)
  | plain _ _ word => exact behind_letters word

/-- Any number of modifiers are read off the front of the tokens. -/
theorem behind_modifiers {steps : List Step} {tokens rest : List Token}
    (h : Grammar.Modifiers tokens steps rest) : Behind tokens rest := by
  induction h with
  | done _ _ => exact .refl
  | more first _ ih => exact (behind_modifier first).trans ih

/-- Dice are read off the front of the tokens. -/
theorem behind_dice {sides : Sides} {tokens rest : List Token}
    (h : Grammar.Dice tokens sides rest) : Behind tokens rest := by
  cases h with
  | faces kind _ number => exact (behind_integer number).cons kind (by decide)
  | hundred kind _ percent => exact ((Behind.refl).cons percent (by decide)).cons kind (by decide)
  | fate word => exact behind_letters word

/-- The repeats of a group are read off the front of the tokens, if there are any. -/
theorem behind_repeats {repeats : Option Nat} {tokens rest : List Token}
    (h : Grammar.Repeats tokens repeats rest) : Behind tokens rest := by
  cases h with
  | given kind number => exact (behind_integer number).cons kind (by decide)
  | absent _ => exact .refl

/-- What is left behind a phrase, with or without gaps, is behind its tokens. -/
theorem behind_of_tolerates {phrase : Phrase} {tokens gaps rest : List Token} {e : Expr}
    (h : Tolerates phrase tokens e gaps rest) : Behind tokens rest := by
  -- Every token that a rule reads itself is of a known kind, and what stands behind it follows by
  -- the rule's own phrases.
  induction h with
  | hole _ => exact .refl
  | single _ _ ih => exact ih
  | compare _ compares _ ih ih' => exact ih.trans (ih'.cons rfl (known_of_comparison? compares))
  | unsigned _ _ ih ih' => exact ih.trans ih'
  | positive kind _ _ ih ih' => exact (ih.trans ih').cons kind (by decide)
  | negative kind _ _ ih ih' => exact (ih.trans ih').cons kind (by decide)
  | sumEnd _ => exact .refl
  | sumMore adds _ _ ih ih' =>
    exact (ih.trans ih').cons rfl (by rintro hk; rw [hk] at adds; cases adds)
  | term _ _ ih ih' => exact ih.trans ih'
  | productEnd _ => exact .refl
  | productMore multiplies _ _ ih ih' =>
    exact (ih.trans ih').cons rfl (by rintro hk; rw [hk] at multiplies; cases multiplies)
  | base _ _ ih => exact ih
  | exponent _ kind _ ih ih' => exact ih.trans (ih'.cons kind (by decide))
  | integer number _ => exact behind_integer number
  | integerDice number dice modifiers =>
    exact (behind_integer number).trans ((behind_dice dice).trans (behind_modifiers modifiers))
  | dice dice modifiers => exact (behind_dice dice).trans (behind_modifiers modifiers)
  | parentheses kind _ closes _ ih =>
    exact (ih.trans ((Behind.refl).cons closes (by decide))).cons kind (by decide)
  | parenthesesDice kind _ closes dice modifiers ih =>
    have behind := (behind_dice dice).trans (behind_modifiers modifiers)
    exact (ih.trans (behind.cons closes (by decide))).cons kind (by decide)
  | emptyCall kind _ opens closes =>
    exact (((Behind.refl).cons closes (by decide)).cons opens (by decide)).cons kind (by decide)
  | call kind _ opens _ _ _ ih ih' =>
    exact ((ih.trans ih').cons opens (by decide)).cons kind (by decide)
  | callEnd closes => exact (Behind.refl).cons closes (by decide)
  | callMore kind _ _ ih ih' => exact (ih.trans ih').cons kind (by decide)
  | emptyGroup opens closes times =>
    exact ((behind_repeats times).cons closes (by decide)).cons opens (by decide)
  | group opens _ _ _ ih ih' => exact (ih.trans ih').cons opens (by decide)
  | groupEnd closes times => exact (behind_repeats times).cons closes (by decide)
  | groupMore kind _ _ ih ih' => exact (ih.trans ih').cons kind (by decide)

/-- What is left behind a phrase is behind its tokens. -/
theorem behind_of_derives {phrase : Phrase} {tokens rest : List Token} {e : Expr}
    (h : Derives phrase tokens e rest) : Behind tokens rest :=
  behind_of_tolerates (tolerates_of_derives h)

end DiceNotation
