import DiceNotation.Proofs.Printing.Text

/-! # Counting parentheses

A derivation takes an opening parenthesis for each one that the text of its expression has, and
one more for each clash (`opens_of_derives`).  So the text of an expression with a clash has too
few of them, and is not accepted as the expression (`clear_of_accepts`).

The count goes through with one more parenthesis (`extra`) for an operand that is written in
parentheses where it stands, and for one that would take the comparison sign behind it. -/

namespace DiceNotation

open DiceNotation.Expr (Sides Bound Step digits)
open Grammar (Phrase Derives Ends)
open DiceNotation.Parser (comparison?)

/-- The number of opening parentheses. -/
def opens (tokens : List Token) : Nat :=
  tokens.countP fun token => token.kind == .parenthesisOpen

/-- An opening parenthesis in front is one more. -/
private theorem opens_cons (token : Token) (tokens : List Token) :
    opens (token :: tokens) =
      opens tokens + if token.kind = .parenthesisOpen then 1 else 0 := by
  rw [opens, List.countP_cons]
  simp only [beq_iff_eq]
  rfl

/-- Any other token in front is none. -/
private theorem opens_cons_of_ne {token : Token} (tokens : List Token)
    (h : token.kind ≠ .parenthesisOpen) : opens (token :: tokens) = opens tokens := by
  rw [opens_cons, if_neg h, Nat.add_zero]

/-- A token in front takes no parenthesis away. -/
private theorem opens_le_cons (token : Token) (tokens : List Token) :
    opens tokens ≤ opens (token :: tokens) := by
  rw [opens_cons]
  omega

/-- What is left behind tokens has no more opening parentheses than they have. -/
private theorem opens_le_of_behind {tokens rest : List Token} (h : Behind tokens rest) :
    opens rest ≤ opens tokens := by
  induction h with
  | refl => exact Nat.le_refl _
  | take _ _ ih => exact Nat.le_trans ih (opens_le_cons _ _)
  | @cut token tokens letters more position rest kind text left behind ih =>
    have word : opens (⟨.identifier, position, more⟩ :: tokens) = opens tokens :=
      opens_cons_of_ne tokens nofun
    rw [word] at ih
    exact Nat.le_trans ih (opens_le_cons _ _)

/-! ## Parentheses of a text -/

/-- There is no parenthesis in a run of digits. -/
private theorem count_of_isDigit {cs : List Char} (h : ∀ c ∈ cs, c.isDigit) : cs.count '(' = 0 :=
  List.count_eq_zero.mpr fun parenthesis => absurd (h _ parenthesis) (by decide)

/-- There is no parenthesis in a run of letters. -/
private theorem count_of_isAlpha {cs : List Char} (h : ∀ c ∈ cs, c.isAlpha) : cs.count '(' = 0 :=
  List.count_eq_zero.mpr fun parenthesis => absurd (h _ parenthesis) (by decide)

/-- A parenthesis is a token of its own. -/
private theorem count_lexeme {cs : List Char} {kind : TokenKind} {n : Nat}
    (h : Lexer.lexeme cs = some (kind, n)) :
    (cs.take n).count '(' = if kind = .parenthesisOpen then 1 else 0 := by
  obtain ⟨-, -, -, numeral, word⟩ := Lexer.lexeme_spec h
  -- Digits and letters are no parentheses, and every other token is spelled in one way.
  by_cases run : kind = .integer ∨ kind = .identifier
  · rcases run with rfl | rfl
    · exact count_of_isDigit (numeral rfl)
    · exact count_of_isAlpha (word rfl)
  · unfold Lexer.lexeme at h
    split at h
    · cases h; rfl
    · cases h; rfl
    · cases h; rfl
    · cases h; rfl
    · next c rest _ _ _ _ =>
      split at h
      · cases h
        exact absurd (.inl rfl) run
      split at h
      · cases h
        exact absurd (.inr rfl) run
      -- What is left are the tokens of one character.
      obtain ⟨kind', symbol, pair⟩ := Option.map_eq_some_iff.mp h
      cases pair
      unfold Lexer.symbol? at symbol
      split at symbol <;> cases symbol
      all_goals rfl
    · cases h

/-- The parentheses among the tokens are those among the characters. -/
private theorem opens_scan (skip position : Nat) (cs : List Char) :
    opens (Lexer.scan skip position cs) = (cs.drop skip).count '(' := by
  induction cs generalizing skip position with
  | nil => rw [List.drop_nil]; unfold Lexer.scan; rfl
  | cons c rest ih =>
    obtain _ | skip := skip
    · rw [Lexer.scan, List.drop_zero]
      split
      · -- Layout and unknown characters give no parenthesis; a token gives the characters that it
        -- takes.
        next layout =>
        have other : c ≠ '(' := by
          rintro rfl
          exact absurd layout (by decide)
        rw [ih, List.drop_zero, List.count_cons_of_ne other]
      · split
        · next kind n found =>
          obtain ⟨-, -, positive, -, -⟩ := Lexer.lexeme_spec found
          obtain ⟨n, rfl⟩ := Nat.exists_eq_add_of_lt positive
          have taken := count_lexeme found
          rw [opens_cons, ih, ← taken]
          have split : c :: rest = (c :: rest).take (0 + n + 1) ++ (c :: rest).drop (0 + n + 1) :=
            (List.take_append_drop _ _).symm
          rw [split, List.count_append, List.take_append_drop, Nat.add_comm]
          rfl
        · next unknown =>
          have other : c ≠ '(' := by
            rintro rfl
            have known : Lexer.lexeme ('(' :: rest) = some (.parenthesisOpen, 1) := rfl
            rw [known] at unknown
            cases unknown
          rw [opens_cons_of_ne _ (by simp), ih, List.drop_zero, List.count_cons_of_ne other]
    · rw [Lexer.scan, ih, List.drop_succ_cons]

namespace Expr

/-- One if an operand is written in parentheses. -/
def enclosed (minimum : Nat) (e : Expr) : Nat := if e.precedence < minimum then 1 else 0

mutual

/-- The number of opening parentheses in the text of an expression. -/
def parentheses : Expr → Nat
  | literal _ => 0
  | roll count _ _ => (if count.isLiteral then 0 else 1) + count.parentheses
  | negate operand => enclosed 3 operand + operand.parentheses
  | binary op left right =>
    enclosed (leftMinimum op) left + left.parentheses +
      (enclosed (rightMinimum op) right + right.parentheses)
  | compare _ left right => left.parentheses + (enclosed 2 right + right.parentheses)
  | call _ arguments => 1 + parenthesesAll arguments
  | group members _ => parenthesesAll members

/-- The number of opening parentheses in several texts. -/
def parenthesesAll : List Expr → Nat
  | [] => 0
  | e :: es => e.parentheses + parenthesesAll es

end

/-- The parentheses of several texts are those of each of them. -/
@[simp] theorem parenthesesAll_eq_sum (es : List Expr) :
    parenthesesAll es = (es.map parentheses).sum := by
  induction es with
  | nil => rfl
  | cons e es ih => rw [parenthesesAll, ih, List.map_cons, List.sum_cons]

/-- There is no parenthesis in a numeral. -/
private theorem count_digits (n : Nat) : (digits n).count '(' = 0 := by
  have isDigits := (Numeral.isDigits_toString n).2
  rw [toList_toString] at isDigits
  exact count_of_isDigit isDigits

/-- A text in parentheses has one opening parenthesis more. -/
private theorem count_parenthesized (text : List Char) :
    (parenthesized text).count '(' = 1 + text.count '(' := by
  rw [parenthesized, List.count_cons_self, List.count_append]
  simp [Nat.add_comm]

/-- An operand has one opening parenthesis more if it is enclosed. -/
private theorem count_operandText (minimum : Nat) (e : Expr) :
    (operandText minimum e.precedence e.text).count '(' =
      enclosed minimum e + e.text.count '(' := by
  rw [operandText, enclosed]
  split
  · exact count_parenthesized e.text
  · rw [Nat.zero_add]

/-- There is no parenthesis in a condition. -/
private theorem count_boundText (bound : Option Bound) : (boundText bound).count '(' = 0 := by
  cases bound with
  | none => rfl
  | some b =>
    have sign : b.op.symbol.toList.count '(' = 0 := by cases b.op <;> rfl
    have text : boundText (some b) = b.op.symbol.toList ++ digits b.limit := rfl
    rw [text, List.count_append, sign, count_digits]

/-- There is no parenthesis in an amount. -/
private theorem count_amountText (amount : Option Nat) : (amountText amount).count '(' = 0 := by
  cases amount with
  | none => rfl
  | some n => exact count_digits n

/-- There is no parenthesis in a modifier. -/
private theorem count_step (step : Step) : step.text.count '(' = 0 := by
  -- The letters of a modifier depend on its variant, so each is counted after a further split.
  cases step with
  | explode penetrating bound =>
    rw [Step.text, List.count_append, count_boundText]
    cases penetrating <;> rfl
  | keep highest amount =>
    rw [Step.text, List.count_append, count_amountText]
    cases highest <;> rfl
  | drop highest amount =>
    rw [Step.text, List.count_append, count_amountText]
    cases highest <;> rfl
  | critical success bound =>
    rw [Step.text, List.count_append, count_boundText]
    cases success <;> rfl
  | reroll once bound =>
    rw [Step.text, List.count_append, count_boundText]
    cases once <;> rfl
  | sort descending => cases descending <;> rfl

/-- There is no parenthesis in the sides of dice. -/
private theorem count_sides (sides : Sides) : sides.text.count '(' = 0 := by
  cases sides with
  | faces n =>
    rw [Sides.text, List.count_cons_of_ne (by decide)]
    exact count_digits n
  | fate => rfl

/-- There is no parenthesis in repeats. -/
private theorem count_repeatsText (repeats : Option Nat) : (repeatsText repeats).count '(' = 0 := by
  cases repeats with
  | none => rfl
  | some n =>
    rw [repeatsText, List.count_cons_of_ne (by decide), List.count_cons_of_ne (by decide),
      List.count_cons_of_ne (by decide)]
    exact count_digits n

/-- The parentheses in a list are those of its members. -/
private theorem count_listText {es : List Expr} (h : ∀ e ∈ es, e.text.count '(' = e.parentheses) :
    (listText (es.map text)).count '(' = (es.map parentheses).sum := by
  cases es with
  | nil => rfl
  | cons e es =>
    rw [List.map_cons, listText, List.count_append, h e List.mem_cons_self, List.map_cons,
      List.sum_cons]
    congr 1
    have others : ∀ e' ∈ es, e'.text.count '(' = e'.parentheses :=
      fun e' he => h e' (List.mem_cons_of_mem _ he)
    clear h
    -- The separators between the members hold no parenthesis.
    induction es with
    | nil => rfl
    | cons e' es ih =>
      have split : furtherText ((e' :: es).map text) =
          ',' :: ' ' :: (e'.text ++ furtherText (es.map text)) := by
        simp [furtherText]
      rw [split, List.count_cons_of_ne (by decide), List.count_cons_of_ne (by decide),
        List.count_append, others e' List.mem_cons_self, List.map_cons, List.sum_cons,
        ih fun e he => others e (List.mem_cons_of_mem _ he)]

/-- The names of functions have no parentheses, and those of a text are its operators' own. -/
private theorem count_text {e : Expr} (legible : e.Legible) : e.text.count '(' = e.parentheses := by
  induction e with
  | literal n =>
    rw [text, parentheses]
    exact count_digits n
  | roll count sides steps ih =>
    rw [Legible] at legible
    -- No modifier is written with parentheses.
    have modifiers : (steps.flatMap Step.text).count '(' = 0 := by
      rw [List.count_flatMap]
      exact List.sum_eq_zero fun n hn => by
        obtain ⟨step, -, rfl⟩ := List.mem_map.mp hn
        exact count_step step
    rw [text, parentheses, List.count_append, List.count_append, count_sides, modifiers,
      ← ih legible.1]
    split
    · omega
    · -- A count that is no numeral costs one pair.
      rw [count_parenthesized]
      omega
  | negate operand ih =>
    rw [Legible] at legible
    rw [text, parentheses, List.count_cons_of_ne (by decide), count_operandText, ih legible]
  | binary op left right ih ih' =>
    rw [Legible] at legible
    have sign : op.symbol.toList.count '(' = 0 := by cases op <;> rfl
    rw [text, parentheses, List.count_append, List.count_cons_of_ne (by decide),
      List.count_append, List.count_cons_of_ne (by decide), count_operandText, count_operandText,
      sign, ih legible.1, ih' legible.2, Nat.zero_add]
  | compare op left right ih ih' =>
    rw [Legible] at legible
    have sign : op.symbol.toList.count '(' = 0 := by cases op <;> rfl
    rw [text, parentheses, List.count_append, List.count_cons_of_ne (by decide),
      List.count_append, List.count_cons_of_ne (by decide), count_operandText, sign,
      ih legible.1, ih' legible.2, Nat.zero_add]
  | call name arguments ih =>
    rw [Legible, legibleAll_iff] at legible
    rw [text, parentheses, texts_eq_map, parenthesesAll_eq_sum, List.count_append,
      List.count_cons_self, List.count_append, count_of_isAlpha legible.1.1.2,
      count_listText fun e he => ih e he (legible.2 e he)]
    simp [Nat.add_comm]
  | group members repeats ih =>
    rw [Legible, legibleAll_iff] at legible
    rw [text, parentheses, texts_eq_map, parenthesesAll_eq_sum,
      List.count_cons_of_ne (by decide), List.count_append, List.count_cons_of_ne (by decide),
      count_repeatsText, count_listText fun e he => ih e he (legible.1 e he), Nat.add_zero]

end Expr

/-! ## Parentheses of a derivation -/

/-- Whether the next token is a comparison sign. -/
def signAhead (tokens : List Token) : Bool :=
  tokens.head?.any fun token => (comparison? token.kind).isSome

/-- Where no comparison sign can follow, none is ahead. -/
private theorem signAhead_of_ends {tokens : List Token}
    (h : Ends (fun kind => (comparison? kind).isSome) tokens) : signAhead tokens = false := by
  cases tokens with
  | nil => rfl
  | cons token tokens => exact h token rfl

/-- A comparison sign is ahead. -/
private theorem signAhead_of_compares {sign : Token} {tokens : List Token} {op : Comparison}
    (h : comparison? sign.kind = some op) : signAhead (sign :: tokens) = true := by
  change (comparison? sign.kind).isSome = true
  rw [h]
  rfl

/-- A step that could take a condition has no sign to take. -/
private theorem ends_of_isOpen {step : Step} {tokens rest : List Token}
    (h : Grammar.Modifier tokens step rest) (isOpen : step.isOpen = true) :
    signAhead rest = false := by
  -- A condition that was left out has no comparison sign behind it.
  have absent : ∀ {tokens : List Token} {bound : Option Bound},
      Grammar.Condition tokens bound rest → bound.isNone = true → signAhead rest = false := by
    intro tokens bound condition isNone
    cases condition with
    | given => cases isNone
    | absent next => exact signAhead_of_ends next
  cases h with
  | explode _ _ condition => exact absent condition isOpen
  | penetrate _ _ condition => exact absent condition isOpen
  -- A modifier with an amount is not open, and one with a condition only where that is absent.
  | counted spelling =>
    obtain ⟨highest, rfl | rfl⟩ := Grammar.exists_of_counted spelling
    · cases isOpen
    · cases isOpen
  | conditional spelling _ _ condition =>
    obtain ⟨variant, rfl | rfl⟩ := Grammar.exists_of_conditional spelling
    · exact absent condition isOpen
    · exact absent condition isOpen
  | plain spelling =>
    obtain ⟨descending, rfl⟩ := Grammar.exists_of_plain spelling
    cases isOpen

/-- Modifiers whose last one could take a condition have no sign ahead. -/
private theorem ends_of_last_isOpen {steps : List Step} {tokens rest : List Token}
    (h : Grammar.Modifiers tokens steps rest) (isOpen : steps.getLast?.any Step.isOpen = true) :
    signAhead rest = false := by
  induction h with
  | done => cases isOpen
  | @more tokens step mid steps rest first others ih =>
    cases others with
    | done => exact ends_of_isOpen first isOpen
    | more => exact ih (by rwa [List.getLast?_cons_cons] at isOpen)

namespace Expr

/-- One if an operand is written in parentheses, or would take the sign that stands behind it. -/
def extra (minimum : Nat) (e : Expr) (rest : List Token) : Nat :=
  if e.precedence < minimum ∨ (e.endsOpen = true ∧ signAhead rest = true) then 1 else 0

/-- The parentheses that a derivation takes for an operand. -/
def share (minimum : Nat) (e : Expr) (rest : List Token) : Nat :=
  extra minimum e rest + e.parentheses + e.clashes

/-- One more parenthesis is enough for an operand. -/
private theorem extra_le_one (minimum : Nat) (e : Expr) (rest : List Token) :
    extra minimum e rest ≤ 1 := by
  unfold extra
  split <;> omega

/-- An enclosed operand takes one more parenthesis. -/
private theorem enclosed_le_extra (minimum : Nat) (e : Expr) (rest : List Token) :
    enclosed minimum e ≤ extra minimum e rest := by
  unfold enclosed extra
  split
  · next loose => rw [if_pos (.inl loose)]
  · exact Nat.zero_le _

/-- An operand takes as many parentheses or more where tighter binding is asked for. -/
private theorem share_mono {minimum minimum' : Nat} (e : Expr) (rest : List Token)
    (h : minimum ≤ minimum') : share minimum e rest ≤ share minimum' e rest := by
  have : extra minimum e rest ≤ extra minimum' e rest := by
    unfold extra
    split
    · next needed =>
      have : e.precedence < minimum' ∨ (e.endsOpen = true ∧ signAhead rest = true) :=
        needed.imp (fun loose => by omega) id
      rw [if_pos this]
    · exact Nat.zero_le _
  unfold share
  omega

/-- What takes the sign behind an operator is its right operand. -/
private theorem extra_of_right {minimum minimum' : Nat} {e right : Expr} (rest : List Token)
    (tight : ¬e.precedence < minimum)
    (h : e.endsOpen = (decide (minimum' ≤ right.precedence) && right.endsOpen)) :
    extra minimum e rest + enclosed minimum' right = extra minimum' right rest := by
  unfold extra enclosed
  by_cases loose : right.precedence < minimum'
  · have closed : e.endsOpen = false := by
      rw [h, decide_eq_false (by omega), Bool.false_and]
    simp [tight, loose, closed]
  · rw [decide_eq_true (by omega), Bool.true_and] at h
    simp [tight, loose, h]

/-- A negation takes the parentheses of its operand. -/
private theorem share_negate (operand : Expr) (rest : List Token) :
    share 2 (negate operand) rest = share 3 operand rest := by
  have last : extra 2 (negate operand) rest + enclosed 3 operand = extra 3 operand rest :=
    extra_of_right rest (by simp [precedence]) (by rw [endsOpen])
  unfold share
  rw [parentheses, clashes]
  omega

/-- An operation takes the parentheses of its two operands. -/
private theorem share_binary (op : Operator) (left right : Expr) (rest : List Token) :
    share op.precedence (binary op left right) rest =
      enclosed (leftMinimum op) left + left.parentheses + left.clashes +
        share (rightMinimum op) right rest := by
  have last : extra op.precedence (binary op left right) rest + enclosed (rightMinimum op) right =
      extra (rightMinimum op) right rest :=
    extra_of_right rest (by simp [precedence]) (by rw [endsOpen])
  unfold share
  rw [parentheses, clashes]
  omega

/-- A left operand that has been paid for where it was read is paid for before its operator. -/
private theorem share_binary_le (op : Operator) (left right : Expr) (before rest : List Token) :
    share op.precedence (binary op left right) rest ≤
      share (leftMinimum op) left before + share (rightMinimum op) right rest := by
  have := enclosed_le_extra (leftMinimum op) left before
  rw [share_binary]
  unfold share
  omega

/-- A clash is a left operand that would take the sign of the comparison. -/
private theorem share_compare {sign : Token} {op : Comparison}
    (compares : comparison? sign.kind = some op) (left right : Expr) (mid rest : List Token) :
    share 1 (compare op left right) rest =
      share 2 left (sign :: mid) + share 2 right rest := by
  have last : extra 1 (compare op left right) rest + enclosed 2 right = extra 2 right rest :=
    extra_of_right rest (by simp [precedence]) (by rw [endsOpen])
  have first : extra 2 left (sign :: mid) =
      if left.precedence < 2 ∨ left.endsOpen = true then 1 else 0 := by
    unfold extra
    rw [signAhead_of_compares compares]
    simp only [and_true]
  unfold share
  rw [parentheses, clashes, first]
  omega

/-- A roll takes no sign that stands behind it. -/
private theorem share_roll {count : Expr} {sides : Sides} {steps : List Step}
    {tokens rest : List Token} (modifiers : Grammar.Modifiers tokens steps rest) :
    share 5 (roll count sides steps) rest =
      (if count.isLiteral then 0 else 1) + count.parentheses + count.clashes := by
  have none : extra 5 (roll count sides steps) rest = 0 := by
    unfold extra
    rw [if_neg]
    rintro (loose | ⟨isOpen, ahead⟩)
    · simp [precedence] at loose
    · rw [endsOpen] at isOpen
      rw [ends_of_last_isOpen modifiers isOpen] at ahead
      cases ahead
  unfold share
  rw [none, parentheses, clashes]
  omega

/-- A roll whose count is a number takes no parenthesis. -/
private theorem share_roll_literal {n : Nat} {sides : Sides} {steps : List Step}
    {tokens rest : List Token} (modifiers : Grammar.Modifiers tokens steps rest) :
    share 5 (roll (literal n) sides steps) rest = 0 := by
  rw [share_roll modifiers]
  rfl

/-- The parentheses and clashes in several expressions. -/
def shareAll (es : List Expr) : Nat := (es.map fun e => e.parentheses + e.clashes).sum

/-- The last expression of several adds its own. -/
private theorem shareAll_snoc (es : List Expr) (e : Expr) :
    shareAll (es ++ [e]) = shareAll es + e.parentheses + e.clashes := by
  unfold shareAll
  rw [List.map_append, List.sum_append, List.map_singleton, List.sum_singleton, Nat.add_assoc]

/-- The parentheses and clashes of several expressions are counted apart. -/
private theorem shareAll_eq (es : List Expr) :
    shareAll es = (es.map parentheses).sum + (es.map clashes).sum := by
  unfold shareAll
  exact List.sum_map_add

/-- A call takes one parenthesis, and those of its arguments. -/
private theorem share_call (name : String) (arguments : List Expr) (rest : List Token) :
    share 5 (call name arguments) rest = 1 + shareAll arguments := by
  unfold share extra
  rw [parentheses, clashes, parenthesesAll_eq_sum, clashesAll_eq_sum, shareAll_eq]
  simp [precedence, endsOpen]
  omega

/-- A group takes the parentheses of its members. -/
private theorem share_group (members : List Expr) (repeats : Option Nat) (rest : List Token) :
    share 5 (group members repeats) rest = shareAll members := by
  unfold share extra
  rw [parentheses, clashes, parenthesesAll_eq_sum, clashesAll_eq_sum, shareAll_eq]
  simp [precedence, endsOpen]

end Expr

open DiceNotation.Expr

/-- The precedence of the expressions that a phrase takes without parentheses. -/
def Grammar.Phrase.minimum : Phrase → Nat
  | .expression => 1
  | .simple | .sum _ => 2
  | .term | .product _ => 3
  | .power => 4
  | .factor | .arguments .. | .members _ => 5

/-- The parentheses that were taken for what a phrase goes on with. -/
def Grammar.Phrase.taken (tokens : List Token) : Phrase → Nat
  | .sum before => share 2 before tokens
  | .product before => share 3 before tokens
  | .arguments _ before => 1 + shareAll before
  | .members before => shareAll before
  | _ => 0

/-- The opening parentheses among the tokens of a phrase are as many as its expression needs. -/
def Pays (phrase : Phrase) (tokens : List Token) (e : Expr) (rest : List Token) : Prop :=
  opens rest + share phrase.minimum e rest ≤ opens tokens + phrase.taken tokens

/-! ## Each production pays

Each rule is paid for by the tokens that it reads itself: an opening parenthesis pays for one
operand that is written in parentheses, any other token pays for nothing. -/

namespace Pays

variable {phrase phrase' : Phrase} {token opening closing : Token}
  {tokens mid behind rest : List Token} {e first base left right : Expr} {before : List Expr}
  {sides : Sides} {steps : List Step} {n : Nat} {repeats : Option Nat} {name : String}

/-- What is taken as one kind of phrase is taken as one that binds less tightly. -/
private theorem loosen (h : Pays phrase tokens e rest) (le : phrase'.minimum ≤ phrase.minimum)
    (taken : phrase.taken tokens = phrase'.taken tokens) : Pays phrase' tokens e rest := by
  have := share_mono e rest le
  unfold Pays at *
  omega

/-- A token in front costs nothing, if no other phrase was taken before. -/
theorem cons (h : Pays phrase tokens e rest) (new : phrase.taken tokens = 0) :
    Pays phrase (token :: tokens) e rest := by
  have := opens_le_cons token tokens
  unfold Pays at *
  omega

/-- A comparison: its left operand pays for the parentheses around it. -/
private theorem compare {op : Comparison} (ih : Pays .simple tokens left (token :: mid))
    (compares : comparison? token.kind = some op) (ih' : Pays .simple mid right rest) :
    Pays .expression tokens (.compare op left right) rest := by
  have := share_compare compares left right mid rest
  have := opens_le_cons token mid
  simp only [Pays, Phrase.minimum, Phrase.taken] at ih ih' ⊢
  omega

/-- A sum without a sign in front: its first term, and what comes behind. -/
private theorem unsigned (ih : Pays .term tokens first mid) (ih' : Pays (.sum first) mid e rest) :
    Pays .simple tokens e rest := by
  have := share_mono first mid (by decide : 2 ≤ 3)
  simp only [Pays, Phrase.minimum, Phrase.taken] at ih ih' ⊢
  omega

/-- A sum whose first term is negated: it is written in parentheses where a sum is. -/
private theorem negative (ih : Pays .term tokens first mid)
    (ih' : Pays (.sum (.negate first)) mid e rest) : Pays .simple (token :: tokens) e rest := by
  have := share_negate first mid
  have := opens_le_cons token tokens
  simp only [Pays, Phrase.minimum, Phrase.taken] at ih ih' ⊢
  omega

/-- One more term of a sum: the terms before it are the left operand. -/
private theorem sumMore {op : Operator} (adds : Parser.additive? token.kind = some op)
    (ih : Pays .term tokens right mid) (ih' : Pays (.sum (.binary op left right)) mid e rest) :
    Pays (.sum left) (token :: tokens) e rest := by
  have whole := share_binary_le op left right (token :: tokens) mid
  obtain ⟨precedence, leftMinimum, rightMinimum⟩ :
      op.precedence = 2 ∧ leftMinimum op = 2 ∧ rightMinimum op = 3 := by
    cases op <;> first | exact ⟨rfl, rfl, rfl⟩ | (revert adds; cases token.kind <;> exact nofun)
  have := opens_le_cons token tokens
  rw [precedence, leftMinimum, rightMinimum] at whole
  simp only [Pays, Phrase.minimum, Phrase.taken] at ih ih' ⊢
  omega

/-- A product: its first power, and what comes behind. -/
theorem term (ih : Pays .power tokens first mid) (ih' : Pays (.product first) mid e rest) :
    Pays .term tokens e rest := by
  have := share_mono first mid (by decide : 3 ≤ 4)
  simp only [Pays, Phrase.minimum, Phrase.taken] at ih ih' ⊢
  omega

/-- One more power of a product: the powers before it are the left operand. -/
private theorem productMore {op : Operator}
    (multiplies : Parser.multiplicative? token.kind = some op)
    (ih : Pays .power tokens right mid) (ih' : Pays (.product (.binary op left right)) mid e rest) :
    Pays (.product left) (token :: tokens) e rest := by
  have whole := share_binary_le op left right (token :: tokens) mid
  obtain ⟨precedence, leftMinimum, rightMinimum⟩ :
      op.precedence = 3 ∧ leftMinimum op = 3 ∧ rightMinimum op = 4 := by
    cases op <;>
      first | exact ⟨rfl, rfl, rfl⟩ | (revert multiplies; cases token.kind <;> exact nofun)
  have := opens_le_cons token tokens
  rw [precedence, leftMinimum, rightMinimum] at whole
  simp only [Pays, Phrase.minimum, Phrase.taken] at ih ih' ⊢
  omega

/-- A power with an exponent: the base is written in parentheses unless it is a factor. -/
private theorem exponent (ih : Pays .factor tokens base (token :: mid))
    (ih' : Pays .power mid right rest) :
    Pays .power tokens (.binary .exponent base right) rest := by
  have whole : share 4 (binary .exponent base right) rest ≤
      share 5 base (token :: mid) + share 4 right rest :=
    share_binary_le .exponent base right (token :: mid) rest
  have := opens_le_cons token mid
  simp only [Pays, Phrase.minimum, Phrase.taken] at ih ih' ⊢
  omega

/-- What is written without parentheses costs nothing. -/
private theorem free (behind : Behind tokens rest) (none : share 5 e rest = 0) :
    Pays .factor tokens e rest := by
  have := opens_le_of_behind behind
  simp only [Pays, Phrase.minimum, Phrase.taken]
  omega

/-- An integer is written without parentheses. -/
private theorem integer (number : Grammar.Integer tokens n rest) :
    Pays .factor tokens (.literal n) rest := by
  refine free (behind_integer number) ?_
  unfold share extra
  simp [precedence, endsOpen, parentheses, clashes]

/-- An expression in parentheses: they pay for the one that it needs here. -/
private theorem parentheses (kind : opening.kind = .parenthesisOpen)
    (ih : Pays .expression tokens e (closing :: rest)) :
    Pays .factor (opening :: tokens) e rest := by
  have opened := opens_cons opening tokens
  have := opens_le_cons closing rest
  have := extra_le_one 5 e rest
  rw [if_pos kind] at opened
  simp only [Pays, Phrase.minimum, Phrase.taken] at ih ⊢
  unfold share at *
  omega

/-- Dice whose number is written in parentheses. -/
private theorem parenthesesDice (kind : opening.kind = .parenthesisOpen)
    (ih : Pays .expression tokens e (closing :: mid)) (dice : Grammar.Dice mid sides behind)
    (modifiers : Grammar.Modifiers behind steps rest) :
    Pays .factor (opening :: tokens) (.roll e sides steps) rest := by
  have opened := opens_cons opening tokens
  have := opens_le_of_behind ((behind_dice dice).trans (behind_modifiers modifiers))
  have := opens_le_cons closing mid
  have inner : (if e.isLiteral then 0 else 1) ≤ 1 := by split <;> omega
  have whole : share 5 (roll e sides steps) rest = _ := share_roll modifiers
  rw [if_pos kind] at opened
  simp only [Pays, Phrase.minimum, Phrase.taken] at ih ⊢
  rw [whole]
  unfold share at ih
  omega

/-- A call without arguments: its parentheses are those of its text. -/
private theorem emptyCall (kind : opening.kind = .parenthesisOpen) :
    Pays .factor (token :: opening :: closing :: rest) (.call name []) rest := by
  have opened := opens_cons opening (closing :: rest)
  have := opens_le_cons token (opening :: closing :: rest)
  have := opens_le_cons closing rest
  have whole : share 5 (call name []) rest = 1 := share_call name [] rest
  rw [if_pos kind] at opened
  simp only [Pays, Phrase.minimum, Phrase.taken]
  omega

/-- A call: its first argument, and what comes behind. -/
private theorem call (kind : opening.kind = .parenthesisOpen)
    (ih : Pays .expression tokens first mid) (ih' : Pays (.arguments name [first]) mid e rest) :
    Pays .factor (token :: opening :: tokens) e rest := by
  have opened := opens_cons opening tokens
  have := opens_le_cons token (opening :: tokens)
  have one : shareAll [first] = first.parentheses + first.clashes := Nat.add_zero _
  rw [if_pos kind] at opened
  simp only [Pays, Phrase.minimum, Phrase.taken] at ih ih' ⊢
  unfold share at ih
  omega

/-- The end of the arguments. -/
private theorem callEnd : Pays (.arguments name before) (closing :: rest)
    (.call name before) rest := by
  have := opens_le_cons closing rest
  have whole := share_call name before rest
  simp only [Pays, Phrase.minimum, Phrase.taken]
  omega

/-- One more argument. -/
private theorem callMore (ih : Pays .expression tokens right mid)
    (ih' : Pays (.arguments name (before ++ [right])) mid e rest) :
    Pays (.arguments name before) (token :: tokens) e rest := by
  have := opens_le_cons token tokens
  have more := shareAll_snoc before right
  simp only [Pays, Phrase.minimum, Phrase.taken] at ih ih' ⊢
  unfold share at ih
  omega

/-- A group without members. -/
private theorem emptyGroup (times : Grammar.Repeats tokens repeats rest) :
    Pays .factor (opening :: closing :: tokens) (.group [] repeats) rest := by
  have := opens_le_of_behind (behind_repeats times)
  have := opens_le_cons opening (closing :: tokens)
  have := opens_le_cons closing tokens
  have whole : share 5 (group [] repeats) rest = 0 := share_group [] repeats rest
  simp only [Pays, Phrase.minimum, Phrase.taken]
  omega

/-- A group: its first member, and what comes behind. -/
private theorem group (ih : Pays .expression tokens first mid)
    (ih' : Pays (.members [first]) mid e rest) : Pays .factor (opening :: tokens) e rest := by
  have := opens_le_cons opening tokens
  have one : shareAll [first] = first.parentheses + first.clashes := Nat.add_zero _
  simp only [Pays, Phrase.minimum, Phrase.taken] at ih ih' ⊢
  unfold share at ih
  omega

/-- The end of the members, and how often they are repeated. -/
private theorem groupEnd (times : Grammar.Repeats tokens repeats rest) :
    Pays (.members before) (closing :: tokens) (.group before repeats) rest := by
  have := opens_le_of_behind (behind_repeats times)
  have := opens_le_cons closing tokens
  have whole := share_group before repeats rest
  simp only [Pays, Phrase.minimum, Phrase.taken]
  omega

/-- One more member. -/
private theorem groupMore (ih : Pays .expression tokens right mid)
    (ih' : Pays (.members (before ++ [right])) mid e rest) :
    Pays (.members before) (token :: tokens) e rest := by
  have := opens_le_cons token tokens
  have more := shareAll_snoc before right
  simp only [Pays, Phrase.minimum, Phrase.taken] at ih ih' ⊢
  unfold share at ih
  omega

end Pays

/-- A derivation takes as many opening parentheses as its expression needs. -/
theorem opens_of_derives {phrase : Phrase} {tokens rest : List Token} {e : Expr}
    (h : Derives phrase tokens e rest) : Pays phrase tokens e rest := by
  induction h with
  | single _ _ ih => exact ih.loosen (by decide) rfl
  | compare _ compares _ ih ih' => exact ih.compare compares ih'
  | unsigned _ _ ih ih' => exact ih.unsigned ih'
  | positive _ _ _ ih ih' => exact (ih.unsigned ih').cons rfl
  | negative _ _ _ ih ih' => exact ih.negative ih'
  | sumEnd _ => exact Nat.le_refl _
  | sumMore adds _ _ ih ih' => exact .sumMore adds ih ih'
  | term _ _ ih ih' => exact ih.term ih'
  | productEnd _ => exact Nat.le_refl _
  | productMore multiplies _ _ ih ih' => exact .productMore multiplies ih ih'
  | base _ _ ih => exact ih.loosen (by decide) rfl
  | exponent _ _ _ ih ih' => exact ih.exponent ih'
  | integer number _ => exact .integer number
  | integerDice number dice modifiers =>
    -- A roll without parentheses is paid for by any tokens.
    have behind := (behind_integer number).trans ((behind_dice dice).trans
      (behind_modifiers modifiers))
    exact .free behind (share_roll_literal modifiers)
  | dice dice modifiers =>
    exact .free ((behind_dice dice).trans (behind_modifiers modifiers))
      (share_roll_literal modifiers)
  | parentheses kind _ _ _ ih => exact .parentheses kind ih
  | parenthesesDice kind _ _ dice modifiers ih => exact .parenthesesDice kind ih dice modifiers
  | emptyCall _ _ opens _ => exact .emptyCall opens
  | call _ _ opens _ _ ih ih' => exact .call opens ih ih'
  | callEnd _ => exact .callEnd
  | callMore _ _ _ ih ih' => exact .callMore ih ih'
  | emptyGroup _ _ times => exact .emptyGroup times
  | group _ _ _ ih ih' => exact .group ih ih'
  | groupEnd _ times => exact .groupEnd times
  | groupMore _ _ _ ih ih' => exact .groupMore ih ih'

/-- The text of an expression is not accepted as the expression if there are clashes. -/
theorem clear_of_accepts {e : Expr} (legible : e.Legible)
    (h : Grammar.Accepts (lex (String.ofList e.text)) e) : e.clashes = 0 := by
  obtain ⟨last, kind, derives⟩ := h
  have enough := opens_of_derives derives
  have available : opens (lex (String.ofList e.text)) = e.parentheses := by
    rw [lex, String.toList_ofList, opens_scan, List.drop_zero, count_text legible]
  simp only [Pays, Phrase.minimum, Phrase.taken] at enough
  unfold share at enough
  omega

end DiceNotation
