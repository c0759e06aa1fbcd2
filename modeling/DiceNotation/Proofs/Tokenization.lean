import DiceNotation.Proofs.Printing.Scanning

/-! # Lexing as a specification

What the tokens of a text have to be, said without the lexer: each token stands in the text and
has the shape of its kind (`Fits`), the tokens follow one another, and what they leave over is
layout (`Covers`).  There is exactly one such list of tokens, and `lex` finds it.

## Key results

- `fits_tokenAt`, `Fits.eq_tokenAt`: the token that the lexer finds is the only one that fits
- `covers_iff_scan`: from an index on, the specification and `scan` agree
- `lex_unique`: the tokens of a text are its only lexing, with one diagnostic for each unknown
  token -/

namespace DiceNotation

open Lexer (lexeme scan isLayout symbol?)

namespace Lexing

/-! ## The specification -/

/-- The operators and punctuation marks and their kinds. -/
def operators : List (String × TokenKind) :=
  [("**", .doubleAsterisk), (">=", .greaterOrEqual), ("<=", .lessOrEqual), ("...", .ellipsis),
    ("+", .plus), ("-", .minus), ("*", .asterisk), ("/", .slash), ("%", .percent),
    ("=", .equals), (">", .greater), ("<", .less), ("(", .parenthesisOpen),
    (")", .parenthesisClose), ("\x7b", .braceOpen), ("\x7d", .braceClose), (",", .comma),
    ("!", .exclamation)]

/-- The characters that stand between tokens: space, tab, line feed, carriage return, form feed. -/
def blanks : List Char := [' ', '\t', '\n', '\r', '\x0c']

/-- The `n` characters from index `i` on are a longest run of characters that `p` holds of, to
    the left as well as to the right. -/
structure MaximalRun (p : Char → Bool) (cs : List Char) (i n : Nat) : Prop where
  inside : ∀ c ∈ (cs.drop i).take n, p c = true
  left : ∀ j c, j + 1 = i → cs[j]? = some c → p c = false
  right : ∀ c, cs[i + n]? = some c → p c = false

/-- An operator stands at the beginning of the characters, and no longer one does. -/
structure LongestOperator (cs : List Char) (o : String × TokenKind) : Prop where
  mem : o ∈ operators
  present : o.1.toList <+: cs
  longest : ∀ longer ∈ operators, o.1.length < longer.1.length → ¬longer.1.toList <+: cs

/-- A token that is not `unknown` starts at the beginning of the characters. -/
def Starts (cs : List Char) : Prop :=
  (∃ c ∈ cs.head?, c.isDigit = true ∨ c.isAlpha = true) ∨ ∃ o ∈ operators, o.1.toList <+: cs

/-- What stands at index `i` as a token of a kind. -/
inductive Shape (cs : List Char) (i : Nat) : TokenKind → String → Prop
  | integer {text : String} (run : MaximalRun Char.isDigit cs i text.length) :
      Shape cs i .integer text
  | identifier {text : String} (run : MaximalRun Char.isAlpha cs i text.length) :
      Shape cs i .identifier text
  | operator {text : String} {kind : TokenKind}
      (longest : LongestOperator (cs.drop i) (text, kind)) : Shape cs i kind text
  | unknown {text : String} (single : text.length = 1) (nothing : ¬Starts (cs.drop i)) :
      Shape cs i .unknown text

/-- The token stands at index `i`. -/
structure Fits (cs : List Char) (token : Token) (i : Nat) : Prop where
  position : token.position = i
  nonempty : token.text ≠ ""
  slice : (cs.drop i).take token.length = token.text.toList
  shape : Shape cs i token.kind token.text

/-- The character at index `i` belongs to the token. -/
def Holds (token : Token) (i : Nat) : Prop :=
  token.position ≤ i ∧ (i : Int) < token.position + token.length

/-- From index `start` on the tokens cut the text into pieces: they do not overlap, and exactly
    the layout belongs to none of them. -/
structure Covers (cs : List Char) (start : Nat) (tokens : List Token) : Prop where
  fits : ∀ token ∈ tokens, ∃ i, start ≤ i ∧ Fits cs token i
  ordered : tokens.Pairwise fun a b : Token => a.position + a.length ≤ b.position
  layout : ∀ i c, start ≤ i → cs[i]? = some c →
    (c ∈ blanks ↔ ¬∃ token ∈ tokens, Holds token i)

end Lexing

/-- The tokens are a lossless cut of the text into longest tokens, with the end of the input
    behind them. -/
def IsLexing (text : String) (tokens : List Token) : Prop :=
  ∃ body, tokens = body ++ [Token.endAt text.length] ∧ Lexing.Covers text.toList 0 body

namespace Lexing

/-- Layout is the listed blanks. -/
theorem isLayout_iff {c : Char} : isLayout c = true ↔ c ∈ blanks := by
  simp [isLayout, blanks, or_assoc]

/-! ## Operators -/

/-- A longer operator stands before its beginnings in the table. -/
private theorem operators_pairwise :
    operators.Pairwise fun a b => ¬a.1.toList <+: b.1.toList := by
  simp [operators, List.cons_prefix_cons]

/-- An operator is a proper beginning of another one or has its own spelling. -/
private theorem operators_prefix : ∀ a ∈ operators, ∀ b ∈ operators,
    a.1.toList <+: b.1.toList → a = b ∨ a.1.length < b.1.length := by
  decide

/-- The characters of operators are neither layout nor digits nor letters. -/
theorem operators_visible : ∀ o ∈ operators, ∀ c ∈ o.1.toList,
    isLayout c = false ∧ c.isDigit = false ∧ c.isAlpha = false := by
  simp [operators, isLayout, Char.isDigit, Char.isAlpha, Char.isUpper, Char.isLower]

/-- Operators are not empty, and their tokens are known. -/
private theorem operators_kind : ∀ o ∈ operators, o.1 ≠ "" ∧ o.2 ≠ .unknown := by
  decide

/-- The first operator of the table that fits. -/
def operator? (cs : List Char) : Option (String × TokenKind) :=
  operators.find? fun o => o.1.toList.isPrefixOf cs

/-- The table has longer operators first, so the one that is found is a longest one. -/
theorem longest_of_operator? {cs : List Char} {o : String × TokenKind}
    (found : operator? cs = some o) : LongestOperator cs o := by
  obtain ⟨fits, before, behind, split, earlier⟩ := List.find?_eq_some_iff_append.mp found
  have fits := List.isPrefixOf_iff_prefix.mp fits
  refine ⟨List.mem_of_find?_eq_some found, fits, fun longer hlonger lt fits' => ?_⟩
  rw [split] at hlonger
  rcases List.mem_append.mp hlonger with hlonger | hlonger
  · -- What stands earlier in the table does not fit.
    have := earlier longer hlonger
    rw [List.isPrefixOf_iff_prefix.mpr fits'] at this
    exact absurd this (by decide)
  rcases List.mem_cons.mp hlonger with rfl | hlonger
  · omega
  · -- What stands later would have this one as its beginning.
    have shorter : o.1.toList <+: longer.1.toList := by
      refine List.prefix_of_prefix_length_le fits fits' ?_
      rw [String.length_toList, String.length_toList]
      omega
    have := operators_pairwise
    rw [split, List.pairwise_append, List.pairwise_cons] at this
    exact this.2.1.1 longer hlonger shorter

/-- Two longest operators at one place are the same. -/
private theorem LongestOperator.unique {cs : List Char} {a b : String × TokenKind}
    (ha : LongestOperator cs a) (hb : LongestOperator cs b) : a = b := by
  have notLonger : ¬a.1.length < b.1.length := fun lt => ha.longest b hb.mem lt hb.present
  have notShorter : ¬b.1.length < a.1.length := fun lt => hb.longest a ha.mem lt ha.present
  have same : a.1.length = b.1.length := by omega
  have inside : a.1.toList <+: b.1.toList := by
    refine List.prefix_of_prefix_length_le ha.present hb.present ?_
    rw [String.length_toList, String.length_toList, same]
  rcases operators_prefix a ha.mem b hb.mem inside with equal | lt
  · exact equal
  · omega

/-- The longest operator is the one that is found. -/
theorem operator?_of_longest {cs : List Char} {o : String × TokenKind}
    (longest : LongestOperator cs o) : operator? cs = some o := by
  cases found : operator? cs with
  | none =>
    have := List.find?_eq_none.mp found o longest.mem
    exact absurd (List.isPrefixOf_iff_prefix.mpr longest.present) this
  | some other => rw [(longest_of_operator? found).unique longest]

/-- If none of the longer operators fits, the first character decides. -/
private theorem operator?_symbol {c : Char} {rest : List Char}
    (short : ∀ o ∈ operators.take 4, ¬o.1.toList <+: c :: rest) :
    (operator? (c :: rest)).map (fun o => (o.2, o.1.length)) =
      (symbol? c).map fun kind => (kind, 1) := by
  -- The long operators come first in the table, and none of them is here.
  have split : operator? (c :: rest) =
      (operators.drop 4).find? fun o => o.1.toList.isPrefixOf (c :: rest) := by
    have none : (operators.take 4).find? (fun o => o.1.toList.isPrefixOf (c :: rest)) = none := by
      rw [List.find?_eq_none]
      intro o ho
      rw [List.isPrefixOf_iff_prefix]
      exact short o ho
    rw [operator?, ← List.take_append_drop 4 operators, List.find?_append, none, Option.none_or]
    rfl
  rw [split]
  unfold symbol?
  split
  case h_15 =>
    -- The character is none of the short operators.
    simp only [operators, List.drop_succ_cons, List.drop_zero, Option.map_none,
      Option.map_eq_none_iff, List.find?_eq_none, List.isPrefixOf_iff_prefix, List.mem_cons,
      List.not_mem_nil, or_false, forall_eq_or_imp, forall_eq, String.reduceToList,
      List.cons_prefix_cons, List.nil_prefix, and_true]
    grind
  all_goals rfl

/-- Where neither a digit nor a letter stands, the lexeme is the longest operator. -/
theorem lexeme_operator {c : Char} {rest : List Char} (notDigit : c.isDigit = false)
    (notAlpha : c.isAlpha = false) :
    lexeme (c :: rest) = (operator? (c :: rest)).map fun o => (o.2, o.1.length) := by
  -- The four long operators have branches of their own.
  unfold lexeme
  split
  · next heq =>
    obtain ⟨rfl, rfl⟩ := List.cons.inj heq
    rfl
  · next heq =>
    obtain ⟨rfl, rfl⟩ := List.cons.inj heq
    rfl
  · next heq =>
    obtain ⟨rfl, rfl⟩ := List.cons.inj heq
    rfl
  · next heq =>
    simp only [List.cons.injEq] at heq
    obtain ⟨rfl, rfl⟩ := heq
    rfl
  · next stars greater less dots heq =>
    obtain ⟨rfl, rfl⟩ := List.cons.inj heq
    have short : ∀ o ∈ operators.take 4, ¬o.1.toList <+: c :: rest := by
      simp only [operators, List.take_succ_cons, List.take_zero, List.forall_mem_cons]
      refine ⟨?_, ?_, ?_, ?_, nofun⟩ <;> rintro ⟨tail, h⟩ <;> cases h
      · exact stars tail rfl rfl
      · exact greater tail rfl rfl
      · exact less tail rfl rfl
      · exact dots tail rfl rfl
    -- One character is left to tell what it is.
    rw [notDigit, notAlpha, operator?_symbol short]
    rfl
  · next heq => cases heq

/-! ## The token at an index -/

section

variable {cs rest : List Char} {c : Char} {i n : Nat}

/-- A longest run is what `takeWhile` takes. -/
private theorem MaximalRun.length_eq {p : Char → Bool} (run : MaximalRun p cs i n)
    (split : cs.drop i = c :: rest) (positive : 0 < n) (le : n ≤ (cs.drop i).length) :
    p c = true ∧ n = 1 + (rest.takeWhile p).length := by
  -- The first character is looked at on its own, as the lexer does.
  obtain ⟨n, rfl⟩ := Nat.exists_eq_succ_of_ne_zero (Nat.ne_of_gt positive)
  have inside := run.inside
  rw [split] at inside le
  rw [List.take_succ_cons] at inside
  have behind : ∀ d ∈ (rest.drop n).head?, p d = false := by
    intro d hd
    refine run.right d ?_
    have : cs[i + (n + 1)]? = (cs.drop i)[n + 1]? := by rw [List.getElem?_drop]
    rw [this, split, List.getElem?_cons_succ, ← List.head?_drop]
    exact hd
  have taken := takeWhile_append_of_head
    (fun d hd => inside d (List.mem_cons_of_mem _ hd)) behind
  rw [List.take_append_drop] at taken
  refine ⟨inside c List.mem_cons_self, ?_⟩
  rw [taken, List.length_take, Nat.min_eq_left (Nat.le_of_succ_le_succ le), Nat.add_comm]

/-- A run that nothing precedes and that is taken as far as possible is maximal. -/
private theorem maximalRun_takeWhile {p : Char → Bool} (split : cs.drop i = c :: rest)
    (hc : p c = true) (left : ∀ j d, j + 1 = i → cs[j]? = some d → p d = false) :
    MaximalRun p cs i (1 + (rest.takeWhile p).length) where
  inside d hd := by
    rw [split] at hd
    exact Lexer.mem_take_succ_takeWhile hc hd
  left := left
  right d hd := by
    rw [← List.getElem?_drop, split, Nat.add_comm 1, List.getElem?_cons_succ] at hd
    nth_rewrite 1 [← List.takeWhile_append_dropWhile (p := p) (l := rest)] at hd
    rw [List.getElem?_append_right (Nat.le_refl _), Nat.sub_self, ← List.head?_eq_getElem?] at hd
    have := List.head?_dropWhile_not p rest
    rw [hd] at this
    exact this

/-- The token that the lexer finds at an index. -/
def tokenAt (cs : List Char) (i : Nat) : Token :=
  match lexeme (cs.drop i) with
  | some (kind, n) => ⟨kind, i, String.ofList ((cs.drop i).take n)⟩
  | none => ⟨.unknown, i, String.ofList ((cs.drop i).take 1)⟩

/-- A lexeme is taken as the text of its token. -/
private theorem tokenAt_some {kind : TokenKind} (found : lexeme (cs.drop i) = some (kind, n)) :
    tokenAt cs i = ⟨kind, i, String.ofList ((cs.drop i).take n)⟩ := by
  rw [tokenAt, found]

/-- Where there is no lexeme one character is taken as an unknown token. -/
private theorem tokenAt_none (found : lexeme (cs.drop i) = none) :
    tokenAt cs i = ⟨.unknown, i, String.ofList ((cs.drop i).take 1)⟩ := by
  rw [tokenAt, found]

/-- No run of digits and none of letters goes across the index. -/
def Cut (cs : List Char) (i : Nat) : Prop :=
  ∀ j c d, j + 1 = i → cs[j]? = some c → cs[i]? = some d →
    (d.isDigit = true → c.isDigit = false) ∧ (d.isAlpha = true → c.isAlpha = false)

/-- The head of what stands from an index on is the character at the index. -/
private theorem getElem?_of_drop (split : cs.drop i = c :: rest) : cs[i]? = some c := by
  rw [← List.head?_drop, split, List.head?_cons]

/-- A piece of the text is a token if it has the shape of one. -/
private theorem fits_take {kind : TokenKind} (positive : 0 < n) (le : n ≤ (cs.drop i).length)
    (shape : ∀ text : String, text.toList = (cs.drop i).take n → text.length = n →
      Shape cs i kind text) :
    Fits cs ⟨kind, i, String.ofList ((cs.drop i).take n)⟩ i := by
  have length : (String.ofList ((cs.drop i).take n)).length = n := by
    rw [String.length_ofList, List.length_take, Nat.min_eq_left le]
  refine ⟨rfl, ?_, ?_, shape _ String.toList_ofList length⟩
  · intro empty
    have : (String.ofList ((cs.drop i).take n)).length = 0 := congrArg String.length empty
    omega
  · rw [Token.length, length, String.toList_ofList]

/-- A token starts exactly where there is a lexeme. -/
private theorem starts_iff (split : cs.drop i = c :: rest) :
    Starts (cs.drop i) ↔ lexeme (cs.drop i) ≠ none := by
  rw [split]
  by_cases digit : c.isDigit = true
  · rw [lexeme_digit digit]
    simp [Starts, digit]
  by_cases alpha : c.isAlpha = true
  · rw [lexeme_letter alpha]
    simp [Starts, alpha]
  · rw [lexeme_operator (eq_false_of_ne_true digit) (eq_false_of_ne_true alpha), Ne,
      Option.map_eq_none_iff, operator?, List.find?_eq_none]
    simp [Starts, digit, alpha]

/-- A lexeme is not longer than the text. -/
theorem length_le_of_lexeme {kind : TokenKind} (found : lexeme (c :: rest) = some (kind, n)) :
    n ≤ 1 + rest.length := by
  -- A numeral or a word is a run at the front of the text, and so is an operator.
  by_cases digit : c.isDigit = true
  · rw [lexeme_digit digit] at found
    cases found
    exact Nat.add_le_add_left (List.takeWhile_prefix _).length_le 1
  by_cases alpha : c.isAlpha = true
  · rw [lexeme_letter alpha] at found
    cases found
    exact Nat.add_le_add_left (List.takeWhile_prefix _).length_le 1
  · rw [lexeme_operator (eq_false_of_ne_true digit) (eq_false_of_ne_true alpha)] at found
    obtain ⟨o, first, pair⟩ := Option.map_eq_some_iff.mp found
    cases pair
    have := (longest_of_operator? first).present.length_le
    rwa [String.length_toList, List.length_cons, Nat.add_comm] at this

/-- The token found at an index fits there. -/
theorem fits_tokenAt (split : cs.drop i = c :: rest) (cut : Cut cs i) :
    Fits cs (tokenAt cs i) i := by
  have here := getElem?_of_drop split
  have room : 1 + rest.length = (cs.drop i).length := by rw [split, List.length_cons, Nat.add_comm]
  -- A token begins with a digit, a letter or an operator, or it is an unknown character.
  by_cases digit : c.isDigit = true
  · -- The run is maximal to the left as well, because the text is cut here.
    have run := maximalRun_takeWhile split digit fun j d hj hd => (cut j d c hj hd here).1 digit
    have le := length_le_of_lexeme (show lexeme (c :: rest) = _ from lexeme_digit digit)
    rw [tokenAt_some (by rw [split, lexeme_digit digit])]
    exact fits_take (by omega) (by omega) fun text _ length => .integer (length ▸ run)
  by_cases alpha : c.isAlpha = true
  · have run := maximalRun_takeWhile split alpha fun j d hj hd => (cut j d c hj hd here).2 alpha
    have le := length_le_of_lexeme (show lexeme (c :: rest) = _ from lexeme_letter alpha)
    rw [tokenAt_some (by rw [split, lexeme_letter alpha])]
    exact fits_take (by omega) (by omega) fun text _ length => .identifier (length ▸ run)
  have found : lexeme (c :: rest) = _ :=
    lexeme_operator (eq_false_of_ne_true digit) (eq_false_of_ne_true alpha)
  rw [← split] at found
  cases first : operator? (cs.drop i) with
  | none =>
    rw [first, Option.map_none] at found
    -- If there is no operator, then nothing starts here at all.
    have nothing : ¬Starts (cs.drop i) := fun starts => (starts_iff split).mp starts found
    rw [tokenAt_none found]
    exact fits_take (by decide) (by omega) fun text _ single => .unknown single nothing
  | some o =>
    have longest := longest_of_operator? first
    have inside := longest.present.length_le
    have nonempty := (operators_kind o longest.mem).1
    rw [String.length_toList] at inside
    rw [first, Option.map_some] at found
    rw [tokenAt_some found]
    refine fits_take ?_ inside fun text slice _ => ?_
    · exact Nat.pos_of_ne_zero fun zero => nonempty (String.length_eq_zero_iff.mp zero)
    · have same : text = o.1 := by
        rw [← String.toList_inj, slice, ← String.length_toList]
        exact (List.prefix_iff_eq_take.mp longest.present).symm
      rw [same]
      exact .operator longest

/-- A token that fits at an index is the one found there. -/
theorem Fits.eq_tokenAt {token : Token} (fits : Fits cs token i) : token = tokenAt cs i := by
  obtain ⟨kind, position, text⟩ := token
  obtain ⟨position, nonempty, slice, shape⟩ := fits
  dsimp only [Token.length] at position nonempty slice shape
  have positive : 0 < text.length :=
    Nat.pos_of_ne_zero fun zero => nonempty (String.length_eq_zero_iff.mp zero)
  have le : text.length ≤ (cs.drop i).length := by
    have := congrArg List.length slice
    rw [List.length_take, String.length_toList] at this
    omega
  -- The text of the token is the slice of its length.
  have spelled : text = String.ofList ((cs.drop i).take text.length) := by
    rw [slice, String.ofList_toList]
  obtain ⟨c, rest, split⟩ := List.exists_cons_of_length_pos (Nat.lt_of_lt_of_le positive le)
  subst position
  -- In each case the shape says which lexeme there is.
  cases shape with
  | integer run =>
    obtain ⟨digit, length⟩ := run.length_eq split positive le
    have found : lexeme (cs.drop i) = some (.integer, text.length) := by
      rw [split, lexeme_digit digit, length]
    rw [tokenAt_some found, ← spelled]
  | identifier run =>
    obtain ⟨alpha, length⟩ := run.length_eq split positive le
    have found : lexeme (cs.drop i) = some (.identifier, text.length) := by
      rw [split, lexeme_letter alpha, length]
    rw [tokenAt_some found, ← spelled]
  | operator longest =>
    have first : c ∈ text.toList := by
      obtain ⟨n, hn⟩ := Nat.exists_eq_succ_of_ne_zero (Nat.ne_of_gt positive)
      rw [← slice, split, hn, List.take_succ_cons]
      exact List.mem_cons_self
    -- An operator is neither layout nor a digit nor a letter.
    have visible := operators_visible _ longest.mem c first
    have found : lexeme (cs.drop i) = some (kind, text.length) := by
      rw [split, lexeme_operator visible.2.1 visible.2.2, ← split, operator?_of_longest longest]
      rfl
    rw [tokenAt_some found, ← spelled]
  | unknown single nothing =>
    have found : lexeme (cs.drop i) = none := by
      by_contra some
      exact nothing ((starts_iff split).mpr some)
    rw [tokenAt_none found, ← single, ← spelled]

/-! ## What a token leaves -/

variable {token : Token}

/-- A token is not empty. -/
theorem Fits.positive (fits : Fits cs token i) : 0 < token.length :=
  Nat.pos_of_ne_zero fun zero => fits.nonempty (String.length_eq_zero_iff.mp zero)

/-- A token ends within the text. -/
theorem Fits.end_le (fits : Fits cs token i) : i + token.length ≤ cs.length := by
  have positive := fits.positive
  have slice := congrArg List.length fits.slice
  rw [List.length_take, List.length_drop, String.length_toList, ← Token.length] at slice
  omega

/-- A token holds the indices from its first to its last character. -/
private theorem Fits.holds_iff (fits : Fits cs token i) (j : Nat) :
    Holds token j ↔ i ≤ j ∧ j < i + token.length := by
  rw [Holds, fits.position]
  omega

/-- What a token holds is a character of its text. -/
private theorem Fits.mem_text (fits : Fits cs token i) {j : Nat} (hc : cs[j]? = some c)
    (lower : i ≤ j) (upper : j < i + token.length) : c ∈ token.text.toList := by
  have : (cs.drop i)[j - i]? = some c := by
    rw [List.getElem?_drop, Nat.add_sub_cancel' lower, hc]
  rw [← fits.slice]
  refine List.mem_of_getElem? (i := j - i) ?_
  rw [List.getElem?_take, if_pos (by omega), this]

/-- What a token holds is no layout, unless it starts with layout. -/
private theorem Fits.visible (fits : Fits cs token i) (split : cs.drop i = c :: rest)
    (first : isLayout c = false) : ∀ d ∈ token.text.toList, isLayout d = false := by
  intro d hd
  obtain ⟨kind, position, text⟩ := token
  have slice := fits.slice
  cases fits.shape with
  | integer run =>
    rw [← slice] at hd
    exact isLayout_of_isDigit (run.inside d hd)
  | identifier run =>
    rw [← slice] at hd
    exact isLayout_of_isAlpha (run.inside d hd)
  | operator longest => exact (operators_visible _ longest.mem d hd).1
  -- An unknown token has its first character only.
  | unknown single =>
    rw [Token.length, single, split, List.take_succ_cons, List.take_zero] at slice
    rw [← slice, List.mem_singleton] at hd
    rw [hd, first]

/-- Nothing goes across the beginning of the text. -/
theorem cut_zero : Cut cs 0 := fun _ _ _ h => absurd h (Nat.succ_ne_zero _)

/-- No run goes across the end of a blank. -/
private theorem cut_layout (hc : cs[i]? = some c) (layout : isLayout c = true) : Cut cs
    (i + 1) := by
  intro j d e hj hd _
  obtain rfl : j = i := Nat.succ.inj hj
  obtain rfl : c = d := Option.some.inj (hc.symm.trans hd)
  constructor
  · intro _
    -- Layout is neither a digit nor a letter, so no run goes through it.
    by_contra digit
    rw [isLayout_of_isDigit (eq_true_of_ne_false digit)] at layout
    cases layout
  · intro _
    by_contra alpha
    rw [isLayout_of_isAlpha (eq_true_of_ne_false alpha)] at layout
    cases layout

/-- No run goes across the end of a token. -/
private theorem Fits.cut (fits : Fits cs token i) : Cut cs (i + token.length) := by
  intro j c d hj hc hd
  have positive := fits.positive
  have last : c ∈ token.text.toList := fits.mem_text hc (by omega) (by omega)
  obtain ⟨kind, position, text⟩ := token
  have slice := fits.slice
  cases fits.shape with
  -- A maximal run ends where its characters do.
  | integer run =>
    have digit := run.inside c (slice ▸ last)
    have notDigit := run.right d hd
    refine ⟨fun digit' => absurd (notDigit.symm.trans digit') (by decide), fun _ => ?_⟩
    by_contra alpha
    rw [not_isDigit_of_isAlpha (eq_true_of_ne_false alpha)] at digit
    cases digit
  | identifier run =>
    have alpha := run.inside c (slice ▸ last)
    have notAlpha := run.right d hd
    exact ⟨fun _ => not_isDigit_of_isAlpha alpha,
      fun alpha' => absurd (notAlpha.symm.trans alpha') (by decide)⟩
  | operator longest =>
    obtain ⟨-, notDigit, notAlpha⟩ := operators_visible _ longest.mem c last
    exact ⟨fun _ => notDigit, fun _ => notAlpha⟩
  | unknown single nothing =>
    -- A digit or a letter would start a token.
    have first : (cs.drop i).head? = some c := by
      rw [Token.length, single] at hj
      rw [List.head?_drop, ← Nat.succ.inj hj, hc]
    constructor
    · intro _
      by_contra digit
      exact nothing (.inl ⟨c, first, .inl (eq_true_of_ne_false digit)⟩)
    · intro _
      by_contra alpha
      exact nothing (.inl ⟨c, first, .inr (eq_true_of_ne_false alpha)⟩)

/-! ## Cutting a text piece by piece -/

/-- At the end of the text only the empty list covers what is left. -/
private theorem covers_end {tokens : List Token} (done : cs.length ≤ i) :
    Covers cs i tokens ↔ tokens = [] := by
  constructor
  · intro covers
    rw [List.eq_nil_iff_forall_not_mem]
    intro token mem
    -- A token has a character, and there is none left.
    obtain ⟨j, le, fits⟩ := covers.fits token mem
    have positive := fits.positive
    have inside := fits.end_le
    omega
  · rintro rfl
    refine ⟨nofun, .nil, fun j c le hc => ?_⟩
    have := (List.getElem?_eq_some_iff.mp hc).1
    omega

/-- Layout is stepped over. -/
private theorem covers_layout {tokens : List Token} (hc : cs[i]? = some c)
    (hidden : isLayout c = true) : Covers cs i tokens ↔ Covers cs (i + 1) tokens := by
  constructor
  · intro covers
    refine ⟨fun token mem => ?_, covers.ordered, fun j d le => covers.layout j d (by omega)⟩
    obtain ⟨j, le, fits⟩ := covers.fits token mem
    refine ⟨j, ?_, fits⟩
    -- A token at the layout would hold it.
    have free : ¬∃ token ∈ tokens, Holds token i :=
      (covers.layout i c (Nat.le_refl i) hc).mp (isLayout_iff.mp hidden)
    have positive := fits.positive
    by_contra lt
    exact free ⟨token, mem, (fits.holds_iff i).mpr (by omega)⟩
  · intro covers
    refine ⟨fun token mem => ?_, covers.ordered, fun j d le hd => ?_⟩
    · obtain ⟨j, le, fits⟩ := covers.fits token mem
      exact ⟨j, by omega, fits⟩
    · rcases Nat.eq_or_lt_of_le le with rfl | lt
      · -- Read the other way, the layout itself must not be held by a later token.
        obtain rfl : c = d := Option.some.inj (hc.symm.trans hd)
        refine iff_of_true (isLayout_iff.mp hidden) ?_
        rintro ⟨token, mem, holds⟩
        obtain ⟨j, le, fits⟩ := covers.fits token mem
        have := (fits.holds_iff _).mp holds
        omega
      · exact covers.layout j d lt hd

/-- A character that is not layout belongs to the first token, which starts with it. -/
private theorem Covers.head {tokens : List Token} (covers : Covers cs i tokens)
    (split : cs.drop i = c :: rest) (visible : isLayout c = false) :
    ∃ token more, tokens = token :: more ∧ Fits cs token i := by
  have here := getElem?_of_drop split
  -- A visible character is held by a token, and none begins before it.
  have held : ∃ token ∈ tokens, Holds token i := by
    by_contra free
    rw [isLayout_iff.mpr ((covers.layout i c (Nat.le_refl i) here).mpr free)] at visible
    cases visible
  obtain ⟨token, mem, holds⟩ := held
  obtain ⟨j, le, fits⟩ := covers.fits token mem
  have := (fits.holds_iff i).mp holds
  obtain rfl : j = i := by omega
  obtain _ | ⟨first, more⟩ := tokens
  · cases mem
  rcases List.mem_cons.mp mem with rfl | later
  · exact ⟨_, _, rfl, fits⟩
  · -- The first token would end before the index it starts behind.
    obtain ⟨k, le', fits'⟩ := covers.fits first List.mem_cons_self
    have apart := (List.pairwise_cons.mp covers.ordered).1 token later
    have positive := fits'.positive
    rw [fits.position, fits'.position] at apart
    omega

/-- A token is cut off, and what stands behind it is cut on its own. -/
private theorem covers_token {tokens : List Token} (split : cs.drop i = c :: rest)
    (visible : isLayout c = false) (cut : Cut cs i) :
    Covers cs i tokens ↔
      ∃ more, tokens = tokenAt cs i :: more ∧ Covers cs (i + (tokenAt cs i).length) more := by
  have fits := fits_tokenAt split cut
  have positive := fits.positive
  constructor
  · intro covers
    -- Whatever covers the text begins with the one token that fits here.
    obtain ⟨token, more, rfl, fits'⟩ := covers.head split visible
    obtain rfl := fits'.eq_tokenAt
    obtain ⟨apart, ordered⟩ := List.pairwise_cons.mp covers.ordered
    refine ⟨more, rfl, fun token mem => ?_, ordered, fun j d le hd => ?_⟩
    · obtain ⟨j, -, fits'⟩ := covers.fits token (List.mem_cons_of_mem _ mem)
      have := apart token mem
      rw [fits.position, fits'.position] at this
      exact ⟨j, by omega, fits'⟩
    · -- Behind the first token, only the others can hold an index.
      have beyond : ¬Holds (tokenAt cs i) j := fun holds => by
        have := (fits.holds_iff j).mp holds
        omega
      rw [covers.layout j d (by omega) hd, List.exists_mem_cons_iff, or_iff_right beyond]
  · rintro ⟨more, rfl, covers⟩
    refine ⟨?_, ?_, fun j d le hd => ?_⟩
    · rw [List.forall_mem_cons]
      refine ⟨⟨i, Nat.le_refl i, fits⟩, fun token mem => ?_⟩
      obtain ⟨j, le, fits'⟩ := covers.fits token mem
      exact ⟨j, by omega, fits'⟩
    · refine List.pairwise_cons.mpr ⟨fun token mem => ?_, covers.ordered⟩
      obtain ⟨j, le, fits'⟩ := covers.fits token mem
      rw [fits.position, fits'.position]
      omega
    · rw [List.exists_mem_cons_iff]
      by_cases lt : j < i + (tokenAt cs i).length
      · -- Inside the first token all characters are visible; behind it the others cover the text.
        have holds : Holds (tokenAt cs i) j := (fits.holds_iff j).mpr ⟨le, lt⟩
        have := fits.visible split visible d (fits.mem_text hd le lt)
        rw [← isLayout_iff]
        simp [holds, this]
      · have beyond : ¬Holds (tokenAt cs i) j := fun holds => lt ((fits.holds_iff j).mp holds).2
        rw [or_iff_right beyond]
        exact covers.layout j d (by omega) hd

/-- The lexer cuts off the token at an index. -/
private theorem scan_token (split : cs.drop i = c :: rest) (visible : isLayout c = false) :
    scan 0 i (cs.drop i) =
      tokenAt cs i :: scan 0 (i + (tokenAt cs i).length) (cs.drop (i + (tokenAt cs i).length)) := by
  have hidden : ¬isLayout c = true := by simp [visible]
  -- The scan drops one character at a time, the token as many as it has.
  have behind (n : Nat) : cs.drop (i + (n + 1)) = rest.drop n := by
    rw [← List.drop_drop, split, List.drop_succ_cons]
  rw [split, scan, if_neg hidden, ← split]
  -- An unknown character is a token of length one; otherwise the lexer skips what the token takes.
  cases found : lexeme (cs.drop i) with
  | none =>
    have length : (tokenAt cs i).length = 0 + 1 := by
      rw [tokenAt_none found, Token.length, String.length_ofList, split]
      rfl
    rw [length, behind, List.drop_zero, tokenAt_none found, split]
    rfl
  | some pair =>
    obtain ⟨kind, n⟩ := pair
    have positive := (Lexer.lexeme_spec found).2.2.1
    obtain ⟨n, rfl⟩ := Nat.exists_eq_succ_of_ne_zero (Nat.ne_of_gt positive)
    have le : n ≤ rest.length := by
      rw [split] at found
      have := length_le_of_lexeme found
      omega
    have length : (tokenAt cs i).length = n + 1 := by
      rw [tokenAt_some found, Token.length, String.length_ofList, List.length_take, split,
        List.length_cons]
      omega
    rw [length, behind, tokenAt_some found, split]
    change _ :: scan n (i + 1) rest = _
    rw [scan_skip le, Nat.add_assoc, Nat.add_comm 1]

/-- The tokens of a text end with its end. -/
theorem scan_ends (cs : List Char) (skip position : Nat) :
    ∃ body, scan skip position cs = body ++ [Token.endAt (position + cs.length : Nat)] := by
  -- The characters that are skipped still move the position on.
  induction cs generalizing skip position with
  | nil => exact ⟨[], by rw [scan]; rfl⟩
  | cons c rest ih =>
    -- In each case the rest of the text is scanned, with or without a token before it.
    have step (skip : Nat) : ∃ body, scan skip (position + 1) rest =
        body ++ [Token.endAt (position + (c :: rest).length : Nat)] := by
      obtain ⟨body, hbody⟩ := ih skip (position + 1)
      exact ⟨body, by rw [hbody, List.length_cons, Nat.add_assoc, Nat.add_comm 1]⟩
    cases skip with
    | succ skip => exact step skip
    | zero =>
      rw [scan]
      split
      · exact step 0
      split
      · next kind n _ =>
        obtain ⟨body, hbody⟩ := step (n - 1)
        exact ⟨_ :: body, by rw [hbody, List.cons_append]⟩
      · obtain ⟨body, hbody⟩ := step 0
        exact ⟨_ :: body, by rw [hbody, List.cons_append]⟩

/-- From an index on, the tokens that the lexer finds are the only ones that cover the text. -/
theorem covers_iff_scan {tokens : List Token} (cut : Cut cs i) (le : i ≤ cs.length) :
    Covers cs i tokens ↔ scan 0 i (cs.drop i) = tokens ++ [Token.endAt cs.length] := by
  -- The induction is on the number of characters that are left.
  induction n : cs.length - i using Nat.strong_induction_on generalizing i tokens with
  | _ n ih =>
    cases split : cs.drop i with
    | nil =>
      have done : i = cs.length := Nat.le_antisymm le (List.drop_eq_nil_iff.mp split)
      rw [covers_end (Nat.le_of_eq done.symm), scan, done]
      constructor
      · rintro rfl
        rfl
      · intro h
        exact List.append_left_eq_self.mp (h.symm : tokens ++ _ = [_])
    | cons c rest =>
      have here := getElem?_of_drop split
      have lt : i < cs.length := (List.getElem?_eq_some_iff.mp here).1
      have behind : cs.drop (i + 1) = rest := by rw [← List.drop_drop, split]; rfl
      by_cases hidden : isLayout c = true
      · rw [covers_layout here hidden, scan, if_pos hidden, ← behind]
        exact ih _ (by omega) (cut_layout here hidden) lt rfl
      · have visible := eq_false_of_ne_true hidden
        have fits := fits_tokenAt split cut
        have positive := fits.positive
        have behind_iff (more : List Token) : Covers cs (i + (tokenAt cs i).length) more ↔ _ :=
          ih _ (by omega) fits.cut fits.end_le rfl
        rw [covers_token split visible cut, ← split, scan_token split visible]
        constructor
        · rintro ⟨more, rfl, covers⟩
          rw [(behind_iff more).mp covers, List.cons_append]
        · intro h
          obtain _ | ⟨token, more⟩ := tokens
          · -- A token that fits is not the end of the input.
            exact absurd (congrArg Token.text (List.cons.inj h).1) fits.nonempty
          · rw [List.cons_append, List.cons.injEq] at h
            obtain ⟨rfl, h⟩ := h
            exact ⟨more, rfl, (behind_iff more).mpr h⟩

end

/-! ## Unknown characters -/

/-- The diagnostic is the one of a character that starts no token. -/
structure Reports (token : Token) (d : Diagnostic) : Prop where
  code : d.code = "E-LEX-UNKNOWN-CHAR"
  position : d.position = token.position
  cause : ∃ c, token.text.toList = [c] ∧ d.cause = .unknownCharacter c

/-- An unknown token is one character. -/
private theorem Fits.single_of_unknown {cs : List Char} {token : Token} {i : Nat}
    (fits : Fits cs token i) (unknown : token.kind = .unknown) : ∃ c, token.text.toList = [c] := by
  have shape := fits.shape
  rw [unknown] at shape
  cases shape with
  | operator longest => exact absurd rfl (operators_kind _ longest.mem).2
  | unknown single =>
    rw [← String.length_toList] at single
    exact List.length_eq_one_iff.mp single

/-- There is one diagnostic for each unknown token, in the same order. -/
private theorem reports_filter {tokens : List Token}
    (single : ∀ token ∈ tokens, token.kind = .unknown → ∃ c, token.text.toList = [c]) :
    List.Forall₂ Reports (tokens.filter fun token => token.kind = .unknown)
      (lexDiagnostics tokens) := by
  -- Each unknown token gives one diagnostic, and no other token gives any.
  induction tokens with
  | nil => exact .nil
  | cons token tokens ih =>
    obtain ⟨first, later⟩ := List.forall_mem_cons.mp single
    rw [lexDiagnostics, List.filterMap_cons, ← lexDiagnostics]
    by_cases unknown : token.kind = .unknown
    · obtain ⟨c, hc⟩ := first unknown
      have found : Lexer.diagnostic? token = some ⟨.unknownCharacter c, token.position⟩ := by
        rw [Lexer.diagnostic?, if_pos unknown, hc]
        rfl
      rw [List.filter_cons_of_pos (by simpa using unknown), found]
      exact .cons ⟨rfl, rfl, c, hc, rfl⟩ (ih later)
    · rw [List.filter_cons_of_neg (by simpa using unknown), Lexer.diagnostic?, if_neg unknown]
      exact ih later

end Lexing

open Lexing in
/-- The tokens of a text are its only lossless cut into longest tokens, and the lexer reports
    each character that starts no token, in order. -/
theorem lex_unique (text : String) :
    (∀ tokens, IsLexing text tokens ↔ tokens = lex text) ∧
      List.Forall₂ Reports ((lex text).filter fun token => token.kind = .unknown)
        (lexDiagnostics (lex text)) := by
  -- The tokens that cover the text from its beginning are those that are scanned.
  have covers_iff (body : List Token) :
      Covers text.toList 0 body ↔ lex text = body ++ [Token.endAt text.length] := by
    have whole : Covers text.toList 0 body ↔ _ :=
      covers_iff_scan cut_zero (Nat.zero_le text.toList.length)
    rwa [List.drop_zero, String.length_toList] at whole
  have lexing_iff (tokens : List Token) : IsLexing text tokens ↔ tokens = lex text := by
    constructor
    · rintro ⟨body, rfl, covers⟩
      exact ((covers_iff body).mp covers).symm
    · rintro rfl
      -- What is scanned ends with the token for the end of the input.
      obtain ⟨body, ends⟩ := scan_ends text.toList 0 0
      rw [Nat.zero_add, String.length_toList] at ends
      exact ⟨body, ends, (covers_iff body).mpr ends⟩
  refine ⟨lexing_iff, reports_filter fun token mem unknown => ?_⟩
  obtain ⟨body, split, covers⟩ := (lexing_iff _).mpr rfl
  rw [split, List.mem_append, List.mem_singleton] at mem
  rcases mem with mem | rfl
  · obtain ⟨i, -, fits⟩ := covers.fits token mem
    exact fits.single_of_unknown unknown
  · cases unknown

end DiceNotation
