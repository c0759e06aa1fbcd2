import DiceNotation.Proofs.Printing.Text

/-! # The tokens of written pieces

`Scans cs tokens` says that `tokens` are those of the characters `cs`, at whatever position these
stand.  A text is read piece by piece: each lemma takes the tokens of a piece and what stands
behind it, and gives what the grammar sees and the tokens of the rest.

* `scans_gap`       layout is skipped
* `scans_numeral`   a run of digits is a numeral
* `scans_letters`   letters are read off a word, however it goes on
* `scans_word`      the whole word that begins with some letters -/

namespace DiceNotation

open Lexer (lexeme scan isLayout)

/-- The tokens are those of the characters, at some position. -/
def Scans (cs : List Char) (tokens : List Token) : Prop := ∃ position, tokens = scan 0 position cs

/-- The tokens of a text are scanned from its characters. -/
theorem scans_lex (text : String) : Scans text.toList (lex text) := ⟨0, rfl⟩

/-- Without characters there is only the end of the input. -/
theorem scans_nil {tokens : List Token} (h : Scans [] tokens) :
    ∃ last, tokens = [last] ∧ last.kind = .endOfInput := by
  obtain ⟨position, rfl⟩ := h
  exact ⟨_, by rw [scan], rfl⟩

/-- Layout in front is skipped. -/
private theorem scans_layout {c : Char} {cs : List Char} {tokens : List Token}
    (layout : isLayout c = true) (h : Scans (c :: cs) tokens) : Scans cs tokens := by
  obtain ⟨position, rfl⟩ := h
  exact ⟨position + 1, by rw [scan, if_pos layout]⟩

/-- A space in front is skipped. -/
theorem scans_space {cs : List Char} {tokens : List Token} (h : Scans (' ' :: cs) tokens) :
    Scans cs tokens :=
  scans_layout (by decide) h

/-- A gap between tokens: layout only. -/
def IsGap (gap : List Char) : Prop := ∀ c ∈ gap, isLayout c = true

/-- A gap in front is skipped. -/
theorem scans_gap {gap cs : List Char} {tokens : List Token} (blank : IsGap gap)
    (h : Scans (gap ++ cs) tokens) : Scans cs tokens := by
  induction gap with
  | nil => exact h
  | cons c gap ih =>
    exact ih (fun d hd => blank d (List.mem_cons_of_mem _ hd))
      (scans_layout (blank c List.mem_cons_self) h)

/-- To skip characters is to start behind them. -/
theorem scan_skip {cs : List Char} {skip position : Nat} (h : skip ≤ cs.length) :
    scan skip position cs = scan 0 (position + skip) (cs.drop skip) := by
  induction cs generalizing skip position with
  | nil =>
    rw [List.length_nil, Nat.le_zero_eq] at h
    rw [h]
    rfl
  | cons c rest ih =>
    obtain _ | skip := skip
    · rfl
    · rw [scan, ih (Nat.le_of_succ_le_succ h), List.drop_succ_cons]
      congr 1
      omega

/-- A lexeme is a token, and what stands behind it is scanned on its own. -/
private theorem scan_lexeme {piece rest : List Char} {kind : TokenKind} (position : Nat)
    (found : lexeme (piece ++ rest) = some (kind, piece.length))
    (visible : ∀ c ∈ piece.head?, isLayout c = false) :
    scan 0 position (piece ++ rest) =
      ⟨kind, position, String.ofList piece⟩ :: scan 0 (position + piece.length) rest := by
  have positive := (Lexer.lexeme_spec found).2.2.1
  obtain ⟨c, piece, rfl⟩ := List.exists_cons_of_length_pos positive
  have hidden : ¬isLayout c = true := by
    rw [visible c rfl]
    decide
  rw [List.cons_append] at found ⊢
  rw [scan, if_neg hidden, found]
  change (⟨kind, position, String.ofList ((c :: piece ++ rest).take (c :: piece).length)⟩ :
    Token) :: scan piece.length (position + 1) (piece ++ rest) = _
  rw [List.take_left, scan_skip (by simp), List.drop_left, Nat.add_assoc, List.length_cons,
    Nat.add_comm 1]

/-- A lexeme in front is the first token. -/
private theorem scans_lexeme {piece rest : List Char} {kind : TokenKind} {tokens : List Token}
    (h : Scans (piece ++ rest) tokens) (found : lexeme (piece ++ rest) = some (kind, piece.length))
    (visible : ∀ c ∈ piece.head?, isLayout c = false) :
    ∃ token more, tokens = token :: more ∧ token.kind = kind ∧
      token.text = String.ofList piece ∧ Scans rest more := by
  obtain ⟨position, rfl⟩ := h
  exact ⟨_, _, scan_lexeme position found visible, rfl, rfl, _, rfl⟩

/-! ## Numerals and words -/

/-- A digit or a letter is no part of an operator, so that the longer ones need no attention. -/
private theorem lexeme_of_isAlphanum {c : Char} {rest : List Char} (h : c.isAlphanum) :
    lexeme (c :: rest) =
      if c.isDigit then some (.integer, 1 + (rest.takeWhile Char.isDigit).length)
      else if c.isAlpha then some (.identifier, 1 + (rest.takeWhile Char.isAlpha).length)
      else (Lexer.symbol? c).map fun kind => (kind, 1) := by
  -- No operator of more than one character begins with a letter or a digit.
  have other {d : Char} {more : List Char} (same : c :: rest = d :: more)
      (operator : d.isAlphanum = false) : False := by
    rw [(List.cons.inj same).1, operator] at h
    cases h
  unfold lexeme
  split <;> rename_i same
  · exact (other same rfl).elim
  · exact (other same rfl).elim
  · exact (other same rfl).elim
  · exact (other same rfl).elim
  · obtain ⟨rfl, rfl⟩ := List.cons.inj same
    rfl
  · cases same

/-- A digit begins a run of digits. -/
theorem lexeme_digit {c : Char} {rest : List Char} (h : c.isDigit) :
    lexeme (c :: rest) = some (.integer, 1 + (rest.takeWhile Char.isDigit).length) := by
  rw [lexeme_of_isAlphanum (by simp [Char.isAlphanum, h]), if_pos h]

/-- A letter is no digit. -/
theorem not_isDigit_of_isAlpha {c : Char} (h : c.isAlpha) : c.isDigit = false := by
  have lower : ∀ {lo hi : UInt32}, lo ≤ c.val → c.val ≤ hi → 57 < lo.toNat → c.isDigit = false := by
    intro lo hi h₁ _ h₂
    rw [← Bool.not_eq_true, Numeral.isDigit_iff]
    have : lo.toNat ≤ c.toNat := h₁
    omega
  simp only [Char.isAlpha, Char.isUpper, Char.isLower, Bool.or_eq_true, Bool.and_eq_true,
    decide_eq_true_eq] at h
  rcases h with ⟨h₁, h₂⟩ | ⟨h₁, h₂⟩
  · exact lower h₁ h₂ (by decide)
  · exact lower h₁ h₂ (by decide)

/-- A letter begins a run of letters. -/
theorem lexeme_letter {c : Char} {rest : List Char} (h : c.isAlpha) :
    lexeme (c :: rest) = some (.identifier, 1 + (rest.takeWhile Char.isAlpha).length) := by
  rw [lexeme_of_isAlphanum (by simp [Char.isAlphanum, h]),
    if_neg (by rw [not_isDigit_of_isAlpha h]; decide), if_pos h]

/-- Nothing is taken behind what fits if the next character does not fit. -/
theorem takeWhile_append_of_head {p : Char → Bool} {run rest : List Char} (h : ∀ c ∈ run, p c)
    (ends : ∀ c ∈ rest.head?, p c = false) : (run ++ rest).takeWhile p = run := by
  rw [List.takeWhile_append_of_pos h]
  cases rest with
  | nil => rw [List.takeWhile_nil, List.append_nil]
  | cons c rest => rw [List.takeWhile_cons, ends c rfl]; simp

/-- A letter or a digit is no layout. -/
private theorem isLayout_of_isAlphanum {c : Char} (h : c.isAlphanum) : isLayout c = false := by
  rw [isLayout, Bool.or_eq_false_iff, Bool.or_eq_false_iff, Bool.or_eq_false_iff,
    Bool.or_eq_false_iff]
  refine ⟨⟨⟨⟨?_, ?_⟩, ?_⟩, ?_⟩, ?_⟩ <;> refine beq_false_of_ne ?_ <;> rintro rfl <;>
    exact absurd h (by decide)

/-- A digit is no layout. -/
theorem isLayout_of_isDigit {c : Char} (h : c.isDigit) : isLayout c = false :=
  isLayout_of_isAlphanum (by simp [Char.isAlphanum, h])

/-- A letter is no layout. -/
theorem isLayout_of_isAlpha {c : Char} (h : c.isAlpha) : isLayout c = false :=
  isLayout_of_isAlphanum (by simp [Char.isAlphanum, h])

/-- A natural number is written in one digit at least. -/
theorem digits_cons (n : Nat) : ∃ d ds, Expr.digits n = d :: ds ∧ d.isDigit := by
  obtain ⟨d, ds, h⟩ := List.exists_cons_of_ne_nil (Nat.toDigits_ne_nil (n := n) (b := 10))
  have all := (Numeral.isDigits_toString n).2
  rw [Expr.toList_toString, Expr.digits, h] at all
  exact ⟨d, ds, h, all d List.mem_cons_self⟩

/-- A run of digits that is not too long is a numeral, with leading zeros or not. -/
theorem scans_numeral {run rest : List Char} {tokens : List Token} (ne : run ≠ [])
    (all : ∀ c ∈ run, c.isDigit) (short : run.length ≤ Numeral.maxDigits)
    (h : Scans (run ++ rest) tokens) (ends : ∀ c ∈ rest.head?, c.isDigit = false) :
    ∃ more, Grammar.Integer tokens (Nat.ofDigitChars 10 run 0) more ∧ Scans rest more := by
  -- The value of the token is the one of the digits, as there are not too many of them.
  have value : Numeral.read (String.ofList run) = .ok (Nat.ofDigitChars 10 run 0 : Int) := by
    have isDigits : Numeral.IsDigits (String.ofList run) := by
      refine ⟨fun empty => ne ?_, by rwa [String.toList_ofList]⟩
      simpa using congrArg String.toList empty
    rw [Numeral.read_of_isDigits isDigits, String.length_ofList, if_neg (by omega),
      String.toList_ofList, Numeral.ofDigits_map_digitValue]
  obtain ⟨c, ds, rfl⟩ := List.exists_cons_of_ne_nil ne
  -- The digits are one token, since no digit follows them.
  have found : lexeme (c :: ds ++ rest) = some (.integer, (c :: ds).length) := by
    rw [List.cons_append, lexeme_digit (all c List.mem_cons_self),
      takeWhile_append_of_head (fun d hd => all d (List.mem_cons_of_mem _ hd)) ends,
      List.length_cons, Nat.add_comm]
  obtain ⟨token, more, rfl, kind, text, scans⟩ := scans_lexeme h found fun d hd =>
    isLayout_of_isDigit (all d (List.mem_of_mem_head? hd))
  exact ⟨more, .intro kind (by rw [text, value]), scans⟩

/-- The digits of a number that can be written are a numeral. -/
theorem scans_integer {n : Nat} {rest : List Char} {tokens : List Token} (small : Expr.Writable n)
    (h : Scans (Expr.digits n ++ rest) tokens) (ends : ∀ c ∈ rest.head?, c.isDigit = false) :
    ∃ more, Grammar.Integer tokens n more ∧ Scans rest more := by
  have value : Nat.ofDigitChars 10 (Expr.digits n) 0 = n := Nat.ofDigitChars_ten_toDigits
  have all : ∀ c ∈ Expr.digits n, c.isDigit := fun c hc =>
    Nat.isDigit_of_mem_toDigits (by decide) (by decide) hc
  have short : (Expr.digits n).length ≤ Numeral.maxDigits :=
    (Nat.length_toDigits_le_iff (by decide) (by decide)).mpr small
  have ne : Expr.digits n ≠ [] := Nat.toDigits_ne_nil
  have numeral := scans_numeral ne all short h ends
  rwa [value] at numeral

/-- The word that begins with some letters goes on as long as there are letters. -/
private theorem scan_word {letters : List Char} (rest : List Char) (position : Nat)
    (ne : letters ≠ []) (all : ∀ c ∈ letters, c.isAlpha) :
    scan 0 position (letters ++ rest) =
      ⟨.identifier, position, String.ofList (letters ++ rest.takeWhile Char.isAlpha)⟩ ::
        scan 0 (position + (letters ++ rest.takeWhile Char.isAlpha).length)
          (rest.dropWhile Char.isAlpha) := by
  obtain ⟨c, letters, rfl⟩ := List.exists_cons_of_ne_nil ne
  have hc := all c List.mem_cons_self
  have tail : ∀ d ∈ letters, d.isAlpha := fun d hd => all d (List.mem_cons_of_mem _ hd)
  -- The word that the lexer takes ends where the letters end.
  have split : c :: letters ++ rest =
      (c :: letters ++ rest.takeWhile Char.isAlpha) ++ rest.dropWhile Char.isAlpha := by
    rw [List.append_assoc, List.takeWhile_append_dropWhile]
  have found : lexeme (c :: letters ++ rest) =
      some (.identifier, (c :: letters ++ rest.takeWhile Char.isAlpha).length) := by
    rw [List.cons_append, lexeme_letter hc, List.takeWhile_append_of_pos tail, List.cons_append,
      List.length_cons, Nat.add_comm]
  rw [split] at found ⊢
  refine scan_lexeme position found ?_
  rintro d ⟨⟩
  exact isLayout_of_isAlpha hc

/-- Letters in front are the beginning of the first token, which takes all letters behind them. -/
theorem scans_word {letters rest : List Char} {tokens : List Token}
    (h : Scans (letters ++ rest) tokens) (ne : letters ≠ []) (all : ∀ c ∈ letters, c.isAlpha) :
    ∃ token more, tokens = token :: more ∧ token.kind = .identifier ∧
      token.text = String.ofList (letters ++ rest.takeWhile Char.isAlpha) ∧
      Scans (rest.dropWhile Char.isAlpha) more := by
  obtain ⟨position, rfl⟩ := h
  exact ⟨_, _, scan_word rest position ne all, rfl, rfl, _, rfl⟩

/-- A letter in front begins the first token, a word. -/
theorem scans_letter {c : Char} {rest : List Char} {tokens : List Token}
    (h : Scans (c :: rest) tokens) (alpha : c.isAlpha) :
    ∃ token more, tokens = token :: more ∧ token.kind = .identifier ∧
      token.text.toList = c :: rest.takeWhile Char.isAlpha := by
  rw [← List.singleton_append] at h
  obtain ⟨token, more, htokens, kind, text, -⟩ := scans_word h (List.cons_ne_nil _ _) fun d hd =>
    List.mem_singleton.mp hd ▸ alpha
  exact ⟨token, more, htokens, kind, by rw [text, String.toList_ofList, List.singleton_append]⟩

/-- Letters are read off the front of a word; what is left of it is scanned on its own. -/
theorem scans_letters {letters rest : List Char} {tokens : List Token}
    (h : Scans (letters ++ rest) tokens) (ne : letters ≠ []) (all : ∀ c ∈ letters, c.isAlpha) :
    ∃ more, Grammar.Letters (String.ofList letters) tokens more ∧ Scans rest more := by
  obtain ⟨position, rfl⟩ := h
  refine ⟨scan 0 (position + letters.length) rest, ?_, _, rfl⟩
  rw [scan_word rest position ne all]
  -- The parser takes the letters whole or cuts them off a longer word.
  cases rest with
  | nil =>
    rw [List.takeWhile_nil, List.append_nil, List.dropWhile_nil]
    exact .whole rfl rfl
  | cons c rest =>
    by_cases hc : c.isAlpha
    · -- The word goes on behind the letters.
      rw [List.takeWhile_cons_of_pos hc, List.dropWhile_cons_of_pos hc]
      have behind := scan_word rest (position + letters.length) (List.cons_ne_nil c [])
        (fun d hd => List.mem_singleton.mp hd ▸ hc)
      rw [List.singleton_append, List.singleton_append] at behind
      rw [behind, List.length_append, ← Nat.add_assoc, Nat.cast_add,
        ← String.length_ofList (l := letters)]
      refine .part rfl String.ofList_append fun empty => ?_
      simpa using congrArg String.toList empty
    · rw [List.takeWhile_cons_of_neg hc, List.append_nil, List.dropWhile_cons_of_neg hc]
      exact .whole rfl rfl

/-! ## Signs -/

/-- The characters are one token of this kind, if these characters stand behind them. -/
def IsSign (piece : List Char) (kind : TokenKind) (rest : List Char) : Prop :=
  lexeme (piece ++ rest) = some (kind, piece.length) ∧ ∀ c ∈ piece.head?, isLayout c = false

/-- A sign in front is the first token. -/
theorem scans_sign {piece rest : List Char} {kind : TokenKind} {tokens : List Token}
    (h : Scans (piece ++ rest) tokens) (sign : IsSign piece kind rest) :
    ∃ token more, tokens = token :: more ∧ token.kind = kind ∧ Scans rest more := by
  obtain ⟨token, more, htokens, kind, -, scans⟩ := scans_lexeme h sign.1 sign.2
  exact ⟨token, more, htokens, kind, scans⟩

/-- The kind of token that an operator is written as. -/
def Operator.kind : Operator → TokenKind
  | add => .plus
  | subtract => .minus
  | multiply => .asterisk
  | divide => .slash
  | modulo => .percent
  | exponent => .doubleAsterisk

/-- The kind of token that a comparison is written as. -/
def Comparison.kind : Comparison → TokenKind
  | equal => .equals
  | greater => .greater
  | greaterOrEqual => .greaterOrEqual
  | less => .less
  | lessOrEqual => .lessOrEqual

/-- The kind of a comparison sign tells the comparison. -/
theorem comparison?_kind (op : Comparison) : Parser.comparison? op.kind = some op := by
  cases op <;> rfl

/-- An operator before a space is a token of its own. -/
theorem isSign_operator (op : Operator) (rest : List Char) :
    IsSign op.symbol.toList op.kind (' ' :: rest) := by
  cases op <;> exact ⟨rfl, by simp [Operator.symbol]; decide⟩

/-- A comparison sign is a token of its own where no equals sign follows. -/
theorem isSign_comparison (op : Comparison) {c : Char} (rest : List Char) (h : c ≠ '=') :
    IsSign op.symbol.toList op.kind (c :: rest) := by
  -- Only the strict signs could be taken for the beginning of a longer one.
  have strict : ∀ {first : Char} {kind : TokenKind}, (first = '>' ∨ first = '<') →
      Lexer.symbol? first = some kind →
      lexeme (first :: c :: rest) = some (kind, 1) := by
    intro first kind hfirst symbol
    have notDigit : ¬first.isDigit := by rcases hfirst with rfl | rfl <;> decide
    have notAlpha : ¬first.isAlpha := by rcases hfirst with rfl | rfl <;> decide
    -- Every spelling of two characters is excluded by its first or by its second one.
    unfold lexeme
    split <;> rename_i heq
    · rcases hfirst with rfl | rfl <;> cases (List.cons.inj heq).1
    · exact absurd (List.cons.inj (List.cons.inj heq).2).1 h
    · exact absurd (List.cons.inj (List.cons.inj heq).2).1 h
    · rcases hfirst with rfl | rfl <;> cases (List.cons.inj heq).1
    · obtain ⟨rfl, rfl⟩ := List.cons.inj heq
      rw [if_neg notDigit, if_neg notAlpha, symbol]
      rfl
    · cases heq
  cases op with
  | greater => exact ⟨strict (.inl rfl) rfl, by simp [Comparison.symbol]; decide⟩
  | less => exact ⟨strict (.inr rfl) rfl, by simp [Comparison.symbol]; decide⟩
  | _ => exact ⟨rfl, by simp [Comparison.symbol]; decide⟩

end DiceNotation
