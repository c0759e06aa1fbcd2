import DiceNotation.Proofs.Parsing.Step
import DiceNotation.Proofs.Printing.Scanning

/-! # The text of a dice roll is read back

Each part of a roll is derived from its text, whatever stands behind it that does not prolong
the part: no character that its last token would take, and no token that its rule would take.

* `modifier_of_text`   one modifier, in front of what may stand behind it
* `roll_of_text`       the sides and the modifiers of a roll -/

namespace DiceNotation

open DiceNotation.Expr (Sides Bound Step Writable digits)
open Grammar (Letters Ends Lacks)
open DiceNotation.Parser (comparison?)

/-- The first token of the characters is of this kind. -/
def Begins (kind : TokenKind) (rest : List Char) : Prop :=
  ∀ tokens, Scans rest tokens → ∃ token more, tokens = token :: more ∧ token.kind = kind

/-- Where the text begins with another kind of token, the phrase ends. -/
theorem Begins.ends {kind : TokenKind} {rest : List Char} {tokens : List Token}
    (h : Begins kind rest) (scans : Scans rest tokens) {begins : TokenKind → Bool}
    (hk : begins kind = false) : Ends begins tokens := by
  obtain ⟨token, more, rfl, rfl⟩ := h tokens scans
  rintro t ⟨⟩
  exact hk

/-- A text begins with the sign in front of it. -/
theorem begins_sign {piece rest : List Char} {kind : TokenKind} (sign : IsSign piece kind rest) :
    Begins kind (piece ++ rest) := by
  intro tokens scans
  obtain ⟨token, more, htokens, hk, -⟩ := scans_sign scans sign
  exact ⟨token, more, htokens, hk⟩

/-- A space in front does not change what a text begins with. -/
theorem begins_space {kind : TokenKind} {rest : List Char} (h : Begins kind rest) :
    Begins kind (' ' :: rest) :=
  fun tokens scans => h tokens (scans_space scans)

/-- A text that begins with a letter begins with a word. -/
private theorem begins_letter {c : Char} (rest : List Char) (h : c.isAlpha) :
    Begins .identifier (c :: rest) := by
  intro tokens scans
  obtain ⟨token, more, htokens, kind, -⟩ := scans_letter scans h
  exact ⟨token, more, htokens, kind⟩

/-! ## Arguments of modifiers -/

/-- The text of a condition is read back, and nothing is read where there is none. -/
private theorem condition_of_text {bound : Option Bound} {kind : TokenKind} {rest : List Char}
    {tokens : List Token} (small : ∀ b ∈ bound, Writable b.limit) (begins : Begins kind rest)
    (absent : bound = none → comparison? kind = none) (ends : ∀ c ∈ rest.head?, c.isDigit = false)
    (scans : Scans (Expr.boundText bound ++ rest) tokens) :
    ∃ more, Grammar.Condition tokens bound more ∧ Scans rest more := by
  cases bound with
  | none =>
    -- Without a bound nothing is read, and what follows is no sign of comparison.
    refine ⟨tokens, .absent (begins.ends scans ?_), scans⟩
    rw [absent rfl]
    rfl
  | some b =>
    obtain ⟨c, ds, hds, digit⟩ := digits_cons b.limit
    -- A digit follows the sign, which therefore does not become a longer one.
    have notEqual : c ≠ '=' := by
      rintro rfl
      exact absurd digit (by decide)
    have text : Expr.boundText (some b) ++ rest =
        b.op.symbol.toList ++ (digits b.limit ++ rest) := List.append_assoc ..
    rw [text] at scans
    have sign := isSign_comparison b.op (ds ++ rest) notEqual
    rw [← List.cons_append, ← hds] at sign
    -- The sign is read first, and the digits behind it as one numeral.
    obtain ⟨token, more, rfl, kind, scans⟩ := scans_sign scans sign
    obtain ⟨more, number, scans⟩ := scans_integer (small b rfl) scans ends
    exact ⟨more, .given (by rw [kind, comparison?_kind]) number, scans⟩

/-- The text of an amount is read back, and nothing is read where there is none. -/
private theorem amount_of_text {amount : Option Nat} {kind : TokenKind} {rest : List Char}
    {tokens : List Token} (small : ∀ n ∈ amount, Writable n) (begins : Begins kind rest)
    (notNumber : kind ≠ .integer) (ends : ∀ c ∈ rest.head?, c.isDigit = false)
    (scans : Scans (Expr.amountText amount ++ rest) tokens) :
    ∃ more, Grammar.Amount tokens amount more ∧ Scans rest more := by
  cases amount with
  | none => exact ⟨tokens, .absent (begins.ends scans (beq_false_of_ne notNumber)), scans⟩
  | some n =>
    obtain ⟨more, number, scans⟩ := scans_integer (small n rfl) scans ends
    exact ⟨more, .given number, scans⟩

/-! ## Modifiers -/

/-- What may stand behind a step. -/
structure StepFollows (isOpen : Bool) (kind : TokenKind) (rest : List Char) : Prop where
  begins : Begins kind rest
  notNumber : kind ≠ .integer
  condition : isOpen = true → comparison? kind = none
  word : kind = .identifier → ∃ c more, rest = c :: more ∧ c.isAlpha ∧ c ≠ 'p'
  separate : ∀ c ∈ rest.head?, c.isDigit = false ∧ c ≠ 'o'

/-- The next word does not begin with a letter if the text does not. -/
private theorem lacks_letter {kind : TokenKind} {rest : List Char} {tokens : List Token}
    {letter : Char} (begins : Begins kind rest) (scans : Scans rest tokens)
    (word : kind = .identifier → ∃ c more, rest = c :: more ∧ c.isAlpha ∧ c ≠ letter) :
    Lacks (String.ofList [letter]) tokens := by
  obtain ⟨token, more, rfl, hk⟩ := begins tokens scans
  rintro t ⟨⟩ ht
  obtain ⟨c, cs, rfl, alpha, ne⟩ := word (hk ▸ ht)
  obtain ⟨token', more', htokens, -, text⟩ := scans_letter scans alpha
  rw [(List.cons.inj htokens).1, text, String.toList_ofList, List.cons_prefix_cons]
  exact fun same => ne same.1.symm

/-- Of two letters no longer spelling begins. -/
private theorem longest_of_two {letters : String} (h : letters.length = 2) (tokens : List Token) :
    Grammar.Longest letters tokens := by
  have short : ∀ other ∈ Grammar.spellings, other.length ≤ 2 := by decide
  intro other hother longer
  have := short other hother
  omega

/-- Only `ro` is longer than `r`. -/
private theorem longest_r {rest : List Char} {tokens : List Token}
    (scans : Scans ('r' :: rest) tokens)
    (separate : ∀ c ∈ rest.head?, c ≠ 'o') : Grammar.Longest "r" tokens := by
  obtain ⟨token, more, rfl, -, text⟩ := scans_letter scans rfl
  rintro other hother longer t ⟨⟩ -
  rw [text]
  -- Of the longer spellings only one begins with the same letter.
  have shapes : ∀ other ∈ Grammar.spellings, "r".length < other.length →
      other = "ro" ∨ other.toList.head? ≠ some 'r' := by decide
  rcases shapes other hother longer with rfl | first
  · intro begins
    obtain ⟨-, begins⟩ := List.cons_prefix_cons.mp begins
    cases rest with
    | nil => exact absurd begins (by decide)
    | cons c rest =>
      -- The rest of the word would have to begin with `o`, which the layout of the text excludes.
      rw [List.takeWhile_cons] at begins
      split at begins
      · exact separate c rfl (List.cons_prefix_cons.mp begins).1.symm
      · exact absurd begins (by decide)
  · intro begins
    -- A spelling with another first letter is no prefix of a word that begins with `r`.
    obtain ⟨tail, htail⟩ := begins
    refine first ?_
    cases hl : other.toList with
    | nil =>
      rw [hl] at first
      have := congrArg List.length hl
      rw [String.length_toList, List.length_nil] at this
      omega
    | cons c cs =>
      rw [hl, List.cons_append] at htail
      rw [List.head?_cons, (List.cons.inj htail).1]

/-- A modifier with a number, from the text of its letters and number. -/
private theorem counted_of_text {letters : List Char} {make : Option Nat → Step}
    {amount : Option Nat}
    {kind : TokenKind} {rest : List Char} {tokens : List Token} (length : letters.length = 2)
    (all : ∀ c ∈ letters, c.isAlpha) (entry : (String.ofList letters, make) ∈ Grammar.counted)
    (small : ∀ n ∈ amount, Writable n) (follows : StepFollows false kind rest)
    (scans : Scans (letters ++ (Expr.amountText amount ++ rest)) tokens) :
    ∃ more, Grammar.Modifier tokens (make amount) more ∧ Scans rest more := by
  have ne : letters ≠ [] := by
    rintro rfl
    cases length
  obtain ⟨mid, word, scans⟩ := scans_letters scans ne all
  obtain ⟨more, number, scans⟩ := amount_of_text small follows.begins follows.notNumber
    (fun c hc => (follows.separate c hc).1) scans
  have longest := longest_of_two (by rw [String.length_ofList, length]) tokens
  exact ⟨more, .counted entry longest word number, scans⟩

/-- A modifier with a condition, from the text of its letters and condition. -/
private theorem conditional_of_text {letters : List Char} {make : Option Bound → Step}
    {bound : Option Bound} {kind : TokenKind} {rest : List Char} {tokens : List Token}
    (ne : letters ≠ []) (all : ∀ c ∈ letters, c.isAlpha)
    (entry : (String.ofList letters, make) ∈ Grammar.conditional)
    (longest : Grammar.Longest (String.ofList letters) tokens)
    (small : ∀ b ∈ bound, Writable b.limit) (follows : StepFollows bound.isNone kind rest)
    (scans : Scans (letters ++ (Expr.boundText bound ++ rest)) tokens) :
    ∃ more, Grammar.Modifier tokens (make bound) more ∧ Scans rest more := by
  obtain ⟨mid, word, scans⟩ := scans_letters scans ne all
  obtain ⟨more, condition, scans⟩ := condition_of_text small follows.begins
    (fun none => follows.condition (by rw [none]; rfl))
    (fun c hc => (follows.separate c hc).1) scans
  exact ⟨more, .conditional entry longest word condition, scans⟩

/-- The two letters of a plain modifier are read back. -/
private theorem plain_of_text {letters : List Char} {step : Step} {rest : List Char}
    {tokens : List Token} (length : letters.length = 2) (all : ∀ c ∈ letters, c.isAlpha)
    (entry : (String.ofList letters, step) ∈ Grammar.plain)
    (scans : Scans (letters ++ rest) tokens) :
    ∃ more, Grammar.Modifier tokens step more ∧ Scans rest more := by
  have ne : letters ≠ [] := by
    rintro rfl
    cases length
  obtain ⟨more, word, scans⟩ := scans_letters scans ne all
  have longest := longest_of_two (by rw [String.length_ofList, length]) tokens
  exact ⟨more, .plain entry longest word, scans⟩

/-- An explosion: a mark, the letter of a penetrating one, and the condition. -/
private theorem explode_of_text {penetrating : Bool} {bound : Option Bound} {kind : TokenKind}
    {rest : List Char} {tokens : List Token} (small : ∀ b ∈ bound, Writable b.limit)
    (follows : StepFollows bound.isNone kind rest)
    (scans : Scans ((Step.explode penetrating bound).text ++ rest) tokens) :
    ∃ more, Grammar.Modifier tokens (.explode penetrating bound) more ∧ Scans rest more := by
  -- The bound is read alike behind `!` and behind `!p`.
  have condition : ∀ {tokens : List Token}, Scans (Expr.boundText bound ++ rest) tokens →
      ∃ more, Grammar.Condition tokens bound more ∧ Scans rest more :=
    fun scans => condition_of_text small follows.begins
      (fun none => follows.condition (by rw [none]; rfl))
      (fun c hc => (follows.separate c hc).1) scans
  have mark : ∀ behind, IsSign ['!'] .exclamation behind := fun behind =>
    ⟨rfl, by rintro c ⟨⟩; rfl⟩
  cases penetrating with
  | true =>
    -- The letter stands between the mark and the bound.
    have text : (Step.explode true bound).text ++ rest =
        ['!'] ++ (['p'] ++ (Expr.boundText bound ++ rest)) := by simp [Step.text]
    rw [text] at scans
    obtain ⟨token, mid, rfl, kind, scans⟩ := scans_sign scans (mark _)
    obtain ⟨mid, letter, scans⟩ := scans_letters scans (List.cons_ne_nil _ _)
      (List.forall_mem_singleton.mpr rfl)
    obtain ⟨more, condition, scans⟩ := condition scans
    exact ⟨more, .penetrate kind letter condition, scans⟩
  | false =>
    have text : (Step.explode false bound).text ++ rest =
        ['!'] ++ (Expr.boundText bound ++ rest) := by simp [Step.text]
    rw [text] at scans
    obtain ⟨token, mid, rfl, kind, scans⟩ := scans_sign scans (mark _)
    -- Behind the mark comes a sign of comparison, or what follows the modifier.
    have lacks : Lacks "p" mid := by
      cases bound with
      | none => exact lacks_letter follows.begins scans follows.word
      | some b =>
        obtain ⟨more, condition, -⟩ := condition scans
        cases condition with
        | given compares _ =>
          rintro t ⟨⟩ hk
          rw [hk] at compares
          cases compares
    obtain ⟨more, condition, scans⟩ := condition scans
    exact ⟨more, .explode kind lacks condition, scans⟩

/-- The text of a modifier is read back. -/
theorem modifier_of_text {step : Step} {kind : TokenKind} {rest : List Char} {tokens : List Token}
    (small : step.Legible) (follows : StepFollows step.isOpen kind rest)
    (scans : Scans (step.text ++ rest) tokens) :
    ∃ more, Grammar.Modifier tokens step more ∧ Scans rest more := by
  -- Every spelling but that of a lone reroll consists of two letters.
  have letters : ∀ {a b : Char}, a.isAlpha → b.isAlpha → ∀ c ∈ [a, b], c.isAlpha := by
    intro a b ha hb c hc
    rcases List.mem_cons.mp hc with rfl | hc
    · exact ha
    · exact List.mem_singleton.mp hc ▸ hb
  cases step with
  | explode penetrating bound => exact explode_of_text small follows scans
  | keep highest amount =>
    cases highest <;> rw [Step.text, List.append_assoc] at scans
    · exact counted_of_text rfl (letters rfl rfl) (by simp [Grammar.counted]) small follows scans
    · exact counted_of_text rfl (letters rfl rfl) (by simp [Grammar.counted]) small follows scans
  | drop highest amount =>
    cases highest <;> rw [Step.text, List.append_assoc] at scans
    · exact counted_of_text rfl (letters rfl rfl) (by simp [Grammar.counted]) small follows scans
    · exact counted_of_text rfl (letters rfl rfl) (by simp [Grammar.counted]) small follows scans
  | critical success bound =>
    cases success <;> rw [Step.text, List.append_assoc] at scans
    · exact conditional_of_text (List.cons_ne_nil _ _) (letters rfl rfl)
        (by simp [Grammar.conditional]) (longest_of_two rfl _) small follows scans
    · exact conditional_of_text (List.cons_ne_nil _ _) (letters rfl rfl)
        (by simp [Grammar.conditional]) (longest_of_two rfl _) small follows scans
  | reroll once bound =>
    cases once <;> rw [Step.text, List.append_assoc] at scans
    · -- Behind a lone `r` neither a bound nor what follows begins with `o`.
      have separate : ∀ c ∈ (Expr.boundText bound ++ rest).head?, c ≠ 'o' := by
        intro c hc
        cases bound with
        | none => exact (follows.separate c hc).2
        | some b =>
          -- A bound begins with its sign, which is no letter.
          obtain ⟨first, behind, symbol, ne⟩ : ∃ first behind,
              b.op.symbol.toList = first :: behind ∧ first ≠ 'o' := by
            cases b.op <;> exact ⟨_, _, rfl, by decide⟩
          have text : Expr.boundText (some b) ++ rest =
              first :: (behind ++ digits b.limit ++ rest) := by
            rw [Expr.boundText, Option.map_some, Option.getD_some, Bound.text, symbol]
            rfl
          rw [text, List.head?_cons, Option.mem_some] at hc
          exact hc ▸ ne
      have longest : Grammar.Longest "r" tokens := longest_r scans separate
      exact conditional_of_text (List.cons_ne_nil _ _) (List.forall_mem_singleton.mpr rfl)
        (by simp [Grammar.conditional]) longest small follows scans
    · exact conditional_of_text (List.cons_ne_nil _ _) (letters rfl rfl)
        (by simp [Grammar.conditional]) (longest_of_two rfl _) small follows scans
  | sort descending =>
    cases descending <;> rw [Step.text] at scans
    · exact plain_of_text rfl (letters rfl rfl) (by simp [Grammar.plain]) scans
    · exact plain_of_text rfl (letters rfl rfl) (by simp [Grammar.plain]) scans

/-! ## Rolls -/

/-- What may stand behind an expression: nothing that prolongs its last token or its last
    modifier. -/
structure Follows (kind : TokenKind) (rest : List Char) : Prop where
  begins : Begins kind rest
  separate : ∀ c ∈ rest.head?, c.isDigit = false ∧ c.isAlpha = false
  closes : kind ≠ .identifier ∧ kind ≠ .integer ∧ kind ≠ .exclamation ∧ kind ≠ .ellipsis

/-- What can follow dice can follow their last modifier. -/
theorem Follows.step {kind : TokenKind} {rest : List Char} {isOpen : Bool} (h : Follows kind rest)
    (condition : isOpen = true → comparison? kind = none) : StepFollows isOpen kind rest where
  begins := h.begins
  notNumber := h.closes.2.1
  condition := condition
  word hk := absurd hk h.closes.1
  separate c hc := by
    refine ⟨(h.separate c hc).1, ?_⟩
    rintro rfl
    exact absurd (h.separate _ hc).2 (by decide)

/-- A step begins with a mark or a letter. -/
private theorem head_step (step : Step) : ∃ c behind, step.text = c :: behind ∧
    (c = '!' ∨ c.isAlpha = true ∧ c.isDigit = false ∧ c ≠ 'p' ∧ c ≠ 'o') := by
  cases step with
  | explode penetrating => cases penetrating <;> exact ⟨_, _, rfl, .inl rfl⟩
  | keep highest => cases highest <;> exact ⟨_, _, rfl, .inr (by decide)⟩
  | drop highest => cases highest <;> exact ⟨_, _, rfl, .inr (by decide)⟩
  | critical success => cases success <;> exact ⟨_, _, rfl, .inr (by decide)⟩
  | reroll once => cases once <;> exact ⟨_, _, rfl, .inr (by decide)⟩
  | sort descending => cases descending <;> exact ⟨_, _, rfl, .inr (by decide)⟩

/-- Any step may stand behind a step. -/
private theorem stepFollows_step (isOpen : Bool) (step : Step) (rest : List Char) :
    ∃ kind, StepFollows isOpen kind (step.text ++ rest) := by
  -- A modifier begins with an exclamation mark or with a letter other than `p` and `o`.
  obtain ⟨c, behind, htext, first⟩ := head_step step
  rw [htext, List.cons_append]
  rcases first with rfl | ⟨alpha, notDigit, notP, notO⟩
  · refine ⟨.exclamation, ?_, by decide, fun _ => rfl, nofun, ?_⟩
    · have mark : Begins .exclamation (['!'] ++ (behind ++ rest)) :=
        begins_sign ⟨rfl, by rintro c ⟨⟩; rfl⟩
      exact mark
    · rintro c ⟨⟩
      decide
  · refine ⟨.identifier, begins_letter _ alpha, by decide, fun _ => rfl, fun _ => ?_, ?_⟩
    · exact ⟨c, _, rfl, alpha, notP⟩
    · rintro d ⟨⟩
      exact ⟨notDigit, notO⟩

/-- The texts of modifiers are read back one by one, by induction on the modifiers. -/
private theorem modifiers_of_text {steps : List Step} {kind : TokenKind} {rest : List Char}
    {tokens : List Token} (small : ∀ step ∈ steps, step.Legible) (follows : Follows kind rest)
    (condition : steps.getLast?.any Step.isOpen = true → comparison? kind = none)
    (scans : Scans (steps.flatMap Step.text ++ rest) tokens) :
    ∃ more, Grammar.Modifiers tokens steps more ∧ Scans rest more := by
  -- The first modifier is read, and the others by the induction hypothesis from what it leaves.
  induction steps generalizing tokens with
  | nil =>
    refine ⟨tokens, .done ?_ fun letters _ => ?_, scans⟩
    · exact follows.begins.ends scans (beq_false_of_ne follows.closes.2.2.1)
    · obtain ⟨token, more, rfl, hk⟩ := follows.begins tokens scans
      rintro t ⟨⟩ ht
      exact absurd (hk.symm.trans ht) follows.closes.1
  | cons step steps ih =>
    rw [List.flatMap_cons, List.append_assoc] at scans
    -- What follows a modifier is the next one, and behind the last one what follows the roll.
    obtain ⟨kind', behind⟩ : ∃ kind', StepFollows step.isOpen kind'
        (steps.flatMap Step.text ++ rest) := by
      cases steps with
      | nil => exact ⟨kind, follows.step condition⟩
      | cons step' steps =>
        rw [List.flatMap_cons, List.append_assoc]
        exact stepFollows_step _ _ _
    obtain ⟨mid, first, scans⟩ := modifier_of_text (small step List.mem_cons_self) behind scans
    -- Only the last modifier can stand in front of a sign of comparison.
    have condition' : steps.getLast?.any Step.isOpen = true → comparison? kind = none := by
      intro last
      refine condition ?_
      cases steps with
      | nil => cases last
      | cons step' steps => rwa [List.getLast?_cons_cons]
    obtain ⟨more, others, scans⟩ :=
      ih (fun s hs => small s (List.mem_cons_of_mem _ hs)) condition' scans
    exact ⟨more, .more first others, scans⟩

/-- The sides, in front of modifiers or what may stand behind an expression. -/
private theorem dice_of_text {sides : Sides} {rest : List Char} {tokens : List Token}
    (small : sides.Legible) (separate : ∀ c ∈ rest.head?, c.isDigit = false)
    (scans : Scans (sides.text ++ rest) tokens) :
    ∃ more, Grammar.Dice tokens sides more ∧ Scans rest more := by
  cases sides with
  | fate =>
    -- The two letters of fate dice may be the beginning of a longer word, which is then cut.
    rw [Sides.text] at scans
    obtain ⟨more, word, scans⟩ := scans_letters scans (List.cons_ne_nil _ _) (by simp)
    exact ⟨more, .fate word, scans⟩
  | faces n =>
    -- The letter is a word of its own, as a digit stands behind it.
    have notLetter : ∀ c ∈ (digits n ++ rest).head?, c.isAlpha = false := by
      intro c hc
      obtain ⟨d, ds, hds, digit⟩ := digits_cons n
      rw [hds, List.cons_append, List.head?_cons, Option.mem_some] at hc
      rw [← hc, ← Bool.not_eq_true]
      intro alpha
      rw [not_isDigit_of_isAlpha alpha] at digit
      cases digit
    have alone : (digits n ++ rest).takeWhile Char.isAlpha = [] ∧
        (digits n ++ rest).dropWhile Char.isAlpha = digits n ++ rest := by
      cases hcs : digits n ++ rest with
      | nil => exact ⟨rfl, rfl⟩
      | cons c cs =>
        have := notLetter c (by rw [hcs]; rfl)
        rw [List.takeWhile_cons, List.dropWhile_cons, this]
        exact ⟨rfl, rfl⟩
    have text : (Sides.faces n).text ++ rest = ['d'] ++ (digits n ++ rest) := rfl
    rw [text] at scans
    obtain ⟨token, mid, rfl, kind, text, scans⟩ := scans_word scans (List.cons_ne_nil _ _)
      (List.forall_mem_singleton.mpr rfl)
    rw [alone.1, List.append_nil] at text
    rw [alone.2] at scans
    obtain ⟨more, number, scans⟩ := scans_integer small scans separate
    exact ⟨more, .faces kind text number, scans⟩

/-- The sides and the modifiers of a roll. -/
theorem roll_of_text {sides : Sides} {steps : List Step} {kind : TokenKind} {rest : List Char}
    {tokens : List Token} (hsides : sides.Legible) (hsteps : ∀ step ∈ steps, step.Legible)
    (follows : Follows kind rest)
    (condition : steps.getLast?.any Step.isOpen = true → comparison? kind = none)
    (scans : Scans (sides.text ++ (steps.flatMap Step.text ++ rest)) tokens) :
    ∃ mid more, Grammar.Dice tokens sides mid ∧ Grammar.Modifiers mid steps more ∧
      Scans rest more := by
  have separate : ∀ c ∈ (steps.flatMap Step.text ++ rest).head?, c.isDigit = false := by
    cases steps with
    | nil => exact fun c hc => (follows.separate c hc).1
    | cons step steps =>
      rw [List.flatMap_cons, List.append_assoc]
      obtain ⟨kind', behind⟩ := stepFollows_step false step (steps.flatMap Step.text ++ rest)
      exact fun c hc => (behind.separate c hc).1
  obtain ⟨mid, dice, scans⟩ := dice_of_text hsides separate scans
  obtain ⟨more, modifiers, scans⟩ := modifiers_of_text hsteps follows condition scans
  exact ⟨mid, more, dice, modifiers, scans⟩

end DiceNotation
