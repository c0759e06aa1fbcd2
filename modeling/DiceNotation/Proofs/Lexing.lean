import DiceNotation.Proofs.Parsing.Step

/-! # The tokens of a text

* `lexeme_spec`    what is known of the token at the start of a text
* `regular_lex`    the tokens of a text are regular
* `lexDiagnostics_eq_nil_iff`   nothing is diagnosed iff no token is unknown
* `lex_restart`    behind an unknown character, lexing the rest anew finds the same tokens -/

namespace DiceNotation

namespace Lexer

/-- A symbol is neither the end of the input nor unknown, and no numeral. -/
private theorem symbol?_spec {c : Char} {kind : TokenKind} (h : symbol? c = some kind) :
    kind ≠ .endOfInput ∧ kind ≠ .unknown ∧ kind ≠ .integer := by
  unfold symbol? at h
  split at h <;> cases h <;> decide

/-- A word of ASCII letters. -/
def IsWord (text : String) : Prop := text ≠ "" ∧ ∀ c ∈ text.toList, c.isAlpha

/-- A symbol is no word. -/
private theorem symbol?_ne_identifier {c : Char} {kind : TokenKind} (h : symbol? c = some kind) :
    kind ≠ .identifier := by
  unfold symbol? at h
  split at h <;> cases h <;> decide

/-- What is taken by `takeWhile` behind a first character that fits as well. -/
theorem mem_take_succ_takeWhile {p : Char → Bool} {c d : Char} {rest : List Char} (hc : p c)
    (hd : d ∈ (c :: rest).take (1 + (rest.takeWhile p).length)) : p d := by
  rw [Nat.add_comm, List.take_succ_cons] at hd
  rcases List.mem_cons.mp hd with rfl | hd
  · exact hc
  · rw [← List.prefix_iff_eq_take.mp (List.takeWhile_prefix _)] at hd
    exact List.mem_takeWhile_imp hd

/-- A lexeme is neither the end of the input nor unknown, and not empty; a numeral is a run of
    digits and a word one of letters. -/
theorem lexeme_spec {cs : List Char} {kind : TokenKind} {n : Nat} (h : lexeme cs = some (kind, n)) :
    kind ≠ .endOfInput ∧ kind ≠ .unknown ∧ 0 < n ∧
      (kind = .integer → ∀ c ∈ cs.take n, c.isDigit) ∧
      (kind = .identifier → ∀ c ∈ cs.take n, c.isAlpha) := by
  -- The first four cases are the operators of two characters, which come before all others.
  unfold lexeme at h
  split at h
  · cases h
    exact ⟨by decide, by decide, by decide, nofun, nofun⟩
  · cases h
    exact ⟨by decide, by decide, by decide, nofun, nofun⟩
  · cases h
    exact ⟨by decide, by decide, by decide, nofun, nofun⟩
  · cases h
    exact ⟨by decide, by decide, by decide, nofun, nofun⟩
  · -- One character decides: digits and letters go on in a run, and a symbol stands for itself.
    next c rest _ _ _ _ =>
    split at h
    · next digit =>
      cases h
      exact ⟨by decide, by decide, by omega, fun _ _ => mem_take_succ_takeWhile digit, nofun⟩
    · split at h
      · next alpha =>
        cases h
        exact ⟨by decide, by decide, by omega, nofun, fun _ _ => mem_take_succ_takeWhile alpha⟩
      · obtain ⟨found, hfound, hpair⟩ := Option.map_eq_some_iff.mp h
        cases hpair
        obtain ⟨notEnd, known, notInteger⟩ := symbol?_spec hfound
        have notWord := symbol?_ne_identifier hfound
        exact ⟨notEnd, known, by decide, fun hk => absurd hk notInteger,
          fun hk => absurd hk notWord⟩
  · cases h

/-- The text of a lexeme is not empty. -/
private theorem ofList_take_ne_empty {c : Char} {rest : List Char} {n : Nat} (h : 0 < n) :
    String.ofList ((c :: rest).take n) ≠ "" := by
  obtain ⟨n, rfl⟩ := Nat.exists_eq_succ_of_ne_zero (Nat.ne_of_gt h)
  exact fun empty => by simpa using congrArg String.toList empty

/-- A token in front of regular tokens. -/
private theorem regular_cons {token : Token} {tokens : List Token} (h : Regular tokens)
    (ne : token.kind ≠ .endOfInput)
    (numeral : token.kind = .integer → Numeral.IsDigits token.text) :
    Regular (token :: tokens) := by
  obtain ⟨before, last, hsplit, hlast, hbefore⟩ := h.ends
  refine ⟨⟨token :: before, last, by rw [hsplit]; rfl, hlast, ?_⟩, ?_⟩
  · rintro t ht
    rcases List.mem_cons.mp ht with rfl | ht
    · exact ne
    · exact hbefore t ht
  · rintro t ht
    rcases List.mem_cons.mp ht with rfl | ht
    · exact numeral
    · exact h.numerals t ht

/-- The tokens of a scan are regular, wherever it starts. -/
private theorem regular_scan (cs : List Char) (skip position : Nat) : Regular
    (scan skip position cs) := by
  induction cs generalizing skip position with
  | nil =>
    rw [scan]
    exact ⟨⟨[], _, rfl, rfl, nofun⟩, by simp⟩
  | cons c rest ih =>
    -- While characters of the last token are skipped, no token begins.
    obtain _ | skip := skip
    · rw [scan]
      split
      · exact ih 0 _
      · split
        · next kind n found =>
          obtain ⟨notEnd, -, positive, numeral, -⟩ := lexeme_spec found
          refine regular_cons (ih _ _) notEnd fun hk => ⟨ofList_take_ne_empty positive, ?_⟩
          rw [String.toList_ofList]
          exact numeral hk
        · exact regular_cons (ih _ _) (by simp) (by simp)
    · exact ih skip _

/-- What a token of a text is: the end of the input, a lexeme, or a character that begins none. -/
inductive Scanned : Token → Prop where
  | endOfInput (position : Int) : Scanned ⟨.endOfInput, position, ""⟩
  | lexeme {c : Char} {rest : List Char} {kind : TokenKind} {n : Nat} (position : Int)
      (found : lexeme (c :: rest) = some (kind, n)) :
      Scanned ⟨kind, position, String.ofList ((c :: rest).take n)⟩
  | unknown (position : Int) (c : Char) : Scanned ⟨.unknown, position, String.ofList [c]⟩

/-- Each token of a scan is the end of the input, a lexeme, or an unknown character. -/
private theorem scanned_of_mem_scan {cs : List Char} {skip position : Nat} {token : Token}
    (h : token ∈ scan skip position cs) : Scanned token := by
  induction cs generalizing skip position with
  | nil =>
    rw [scan, List.mem_singleton] at h
    exact h ▸ .endOfInput _
  | cons c rest ih =>
    obtain _ | skip := skip
    · rw [scan] at h
      split at h
      · exact ih h
      · -- A token begins with `c`; all others come from the characters behind it.
        split at h
        · next kind n found =>
          rcases List.mem_cons.mp h with rfl | h
          · exact .lexeme _ found
          · exact ih h
        · rcases List.mem_cons.mp h with rfl | h
          · exact .unknown _ c
          · exact ih h
    · exact ih h

/-- The words of a text are runs of letters. -/
theorem isWord_of_mem_scan {cs : List Char} {skip position : Nat} {token : Token}
    (h : token ∈ scan skip position cs) (hk : token.kind = .identifier) : IsWord token.text := by
  cases scanned_of_mem_scan h with
  | endOfInput | unknown => cases hk
  | lexeme _ found =>
    obtain ⟨-, -, positive, -, letters⟩ := lexeme_spec found
    refine ⟨ofList_take_ne_empty positive, ?_⟩
    rw [String.toList_ofList]
    exact letters hk

end Lexer

/-! ## The tokens of a whole text -/

/-- The tokens of a text end with the end of the input, and their numerals are runs of digits. -/
theorem regular_lex (text : String) : Regular (lex text) := Lexer.regular_scan _ _ _

/-- An unknown token has a character. -/
private theorem unknown_nonempty {token : Token} {cs : List Char} {skip position : Nat}
    (h : token ∈ Lexer.scan skip position cs) (hk : token.kind = .unknown) :
    token.text.toList ≠ [] := by
  cases Lexer.scanned_of_mem_scan h with
  | endOfInput => cases hk
  | lexeme _ found => exact absurd hk (Lexer.lexeme_spec found).2.1
  | unknown => simp

/-- Lexing diagnoses nothing if and only if no token is unknown. -/
theorem lexDiagnostics_eq_nil_iff (text : String) :
    lexDiagnostics (lex text) = [] ↔ ∀ token ∈ lex text, token.kind ≠ .unknown := by
  rw [lexDiagnostics, List.filterMap_eq_nil_iff]
  constructor
  · intro h token ht hk
    have := h token ht
    rw [Lexer.diagnostic?, if_pos hk, Option.map_eq_none_iff, List.head?_eq_none_iff] at this
    exact unknown_nonempty ht hk this
  · intro h token ht
    rw [Lexer.diagnostic?, if_neg (h token ht)]

/-! ## Starting anew behind an unknown character -/

/-- The token as it stands so many characters further on. -/
def Token.shift (distance : Nat) (token : Token) : Token :=
  { token with position := token.position + distance }

namespace Lexer

/-- Where a text begins changes the positions of its tokens, and nothing else. -/
private theorem scan_shift (cs : List Char) (skip position distance : Nat) :
    scan skip (position + distance) cs = (scan skip position cs).map (Token.shift distance) := by
  induction cs generalizing skip position with
  | nil => simp [scan, Token.shift]
  | cons c rest ih =>
    have next := Nat.add_right_comm position distance 1
    obtain _ | skip := skip
    · rw [scan, scan, next]
      split
      · exact ih 0 _
      · split <;> rw [ih, List.map_cons, Token.shift, Int.natCast_add]
    · rw [scan, scan, next]
      exact ih skip _

/-- Behind an unknown token the scan begins anew, with the character that comes next. -/
private theorem scan_of_unknown {cs : List Char} {skip position : Nat} {before after : List Token}
    {token : Token} (split : scan skip position cs = before ++ token :: after)
    (unknown : token.kind = .unknown) :
    ∃ n c, cs[n]? = some c ∧ token = ⟨.unknown, (position + n : Nat), String.ofList [c]⟩ ∧
      after = scan 0 (position + n + 1) (cs.drop (n + 1)) := by
  induction cs generalizing skip position before with
  | nil =>
    -- The end of the input is known.
    have only : token ∈ scan skip position [] := by simp [split]
    rw [scan, List.mem_singleton] at only
    rw [only] at unknown
    cases unknown
  | cons c rest ih =>
    -- A token that is found behind `c` is one character further on.
    have later {skip : Nat} {before : List Token}
        (split : scan skip (position + 1) rest = before ++ token :: after) :
        ∃ n d, (c :: rest)[n]? = some d ∧
          token = ⟨.unknown, (position + n : Nat), String.ofList [d]⟩ ∧
          after = scan 0 (position + n + 1) ((c :: rest).drop (n + 1)) := by
      obtain ⟨n, d, here, same, rest⟩ := ih split
      have further : position + 1 + n = position + (n + 1) := by omega
      rw [further] at same rest
      exact ⟨n + 1, d, here, same, rest⟩
    obtain _ | skip := skip
    · rw [scan] at split
      split at split
      · exact later split
      · split at split
        · next kind n found =>
          obtain _ | ⟨first, before⟩ := before
          · obtain ⟨rfl, -⟩ := List.cons.inj split
            exact absurd unknown (lexeme_spec found).2.1
          · exact later (List.cons.inj split).2
        · obtain _ | ⟨first, before⟩ := before
          · obtain ⟨rfl, rfl⟩ := List.cons.inj split
            exact ⟨0, c, rfl, rfl, rfl⟩
          · exact later (List.cons.inj split).2
    · exact later split

end Lexer

/-- Lexing can start anew behind each unknown character: the tokens behind it are those of the rest
    of the text, with their positions counted from the start of the whole. -/
theorem lex_restart {text : String} {before after : List Token} {token : Token}
    (split : lex text = before ++ token :: after) (unknown : token.kind = .unknown) :
    ∃ (n : Nat) (c : Char), text.toList[n]? = some c ∧ token = ⟨.unknown, n, String.ofList [c]⟩ ∧
      after = (lex (String.ofList (text.toList.drop (n + 1)))).map (Token.shift (n + 1)) := by
  obtain ⟨n, c, here, same, rest⟩ := Lexer.scan_of_unknown split unknown
  rw [Nat.zero_add] at same rest
  refine ⟨n, c, here, same, ?_⟩
  rw [rest, lex, String.toList_ofList, ← Lexer.scan_shift, Nat.zero_add]

/-- The tokens of `1`, an unknown character and `2`. -/
example : lex "1?2" = [⟨.integer, 0, "1"⟩, ⟨.unknown, 1, "?"⟩] ++
    (lex "2").map (Token.shift 2) := by decide +kernel

end DiceNotation
