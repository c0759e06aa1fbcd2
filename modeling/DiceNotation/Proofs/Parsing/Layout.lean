import DiceNotation.Proofs.Parsing.Bisimulation
import DiceNotation.Proofs.Tokenization

/-! # Layout means nothing

Layout between tokens decides where they stand and nothing else.  The lexer finds the same tokens
where layout is inserted between them (`scan_spaced`), and the parser does not look at positions:
from tokens of the same kinds and texts it reads the same tree and diagnoses the same, at other
positions (`isBisimulation_displaced`).

* `Lexing.Spaced`    characters with layout inserted
* `Displaced`        states that differ in positions only
* `parse_layout`     texts with layout inserted, and tokens at other positions -/

namespace DiceNotation

open ParserState
open Lexer (lexeme scan isLayout)

/-! ## Inserting layout -/

namespace Lexing

/-- A token begins before the index and goes on there. -/
def GoesOn (token : Token) (i : Nat) : Prop :=
  token.position < i ∧ (i : Int) < token.position + token.length

instance (token : Token) (i : Nat) : Decidable (GoesOn token i) :=
  inferInstanceAs (Decidable (_ ∧ _))

/-- The characters from index `i` on, with layout inserted in some of the places where no token goes
    on. -/
inductive Spaced (tokens : List Token) : (i : Nat) → List Char → List Char → Prop where
  | nil (i : Nat) : Spaced tokens i [] []
  | keep {i : Nat} (c : Char) {cs cs' : List Char} (h : Spaced tokens (i + 1) cs cs') :
      Spaced tokens i (c :: cs) (c :: cs')
  | insert {i : Nat} {c : Char} {cs cs' : List Char} (blank : c ∈ blanks)
      (apart : ∀ token ∈ tokens, ¬GoesOn token i) (h : Spaced tokens i cs cs') :
      Spaced tokens i cs (c :: cs')

/-- A token reaches from before index `i` to the `n` characters behind it, or further. -/
def Reaches (tokens : List Token) (i n : Nat) : Prop :=
  ∃ token ∈ tokens, token.position < i ∧ (i + n : Nat) ≤ token.position + token.length

variable {tokens : List Token} {i n : Nat} {c : Char} {cs cs' word : List Char}

/-- Where a token reaches to, nothing is inserted. -/
private theorem Reaches.eq_zero (reaches : Reaches tokens i n)
    (apart : ∀ token ∈ tokens, ¬GoesOn token i) : n = 0 := by
  obtain ⟨token, mem, starts, ends⟩ := reaches
  by_contra positive
  exact apart token mem ⟨starts, by omega⟩

/-- What reaches over several characters reaches over all of them but the first. -/
theorem Reaches.step (reaches : Reaches tokens i (n + 1)) : Reaches tokens (i + 1) n := by
  obtain ⟨token, mem, starts, ends⟩ := reaches
  exact ⟨token, mem, by omega, by omega⟩

namespace Spaced

/-- Where a token reaches, both texts have the same characters. -/
private theorem take_eq (h : Spaced tokens i cs cs') (reaches : Reaches tokens i n) :
    cs'.take n = cs.take n := by
  induction h generalizing n with
  | nil => rfl
  | keep c _ ih =>
    cases n with
    | zero => rfl
    | succ n => rw [List.take_succ_cons, List.take_succ_cons, ih reaches.step]
  | insert _ apart _ _ =>
    obtain rfl := reaches.eq_zero apart
    rfl

/-- A word without layout that stands at the beginning stood there before. -/
private theorem starts (h : Spaced tokens i cs cs') (visible : ∀ c ∈ word, isLayout c = false)
    (begins : word <+: cs') : word <+: cs := by
  -- A word without layout cannot begin with a blank that was inserted.
  induction h generalizing word with
  | nil => exact begins
  | @keep i c cs cs' _ ih =>
    cases word with
    | nil => exact List.nil_prefix
    | cons d word =>
      obtain ⟨same, rest⟩ := List.cons_prefix_cons.mp begins
      refine List.cons_prefix_cons.mpr ⟨same, ih ?_ rest⟩
      exact fun e he => visible e (List.mem_cons_of_mem _ he)
  | insert blank _ _ _ =>
    cases word with
    | nil => exact List.nil_prefix
    | cons d word =>
      obtain ⟨rfl, -⟩ := List.cons_prefix_cons.mp begins
      have hidden := visible d List.mem_cons_self
      rw [isLayout_iff.mpr blank] at hidden
      cases hidden

/-- A run of characters is as long as before, if a token reaches as far. -/
private theorem takeWhile_eq {p : Char → Bool} (h : Spaced tokens i cs cs')
    (visible : ∀ c, p c = true → isLayout c = false)
    (reaches : Reaches tokens i (cs.takeWhile p).length) : cs'.takeWhile p = cs.takeWhile p := by
  have run {word cs : List Char} (starts : word <+: cs) (all : ∀ c ∈ word, p c = true) :
      word <+: cs.takeWhile p := by
    obtain ⟨rest, rfl⟩ := starts
    rw [List.takeWhile_append_of_pos all]
    exact List.prefix_append ..
  have all (cs : List Char) : ∀ c ∈ cs.takeWhile p, p c = true :=
    fun c hc => List.mem_takeWhile_imp hc
  -- Each run is at the front of the other one, so the two are equal.
  have shorter : cs'.takeWhile p <+: cs.takeWhile p :=
    run (h.starts (fun c hc => visible c (all _ c hc)) (List.takeWhile_prefix p)) (all _)
  have longer : cs.takeWhile p <+: cs'.takeWhile p := by
    refine run ?_ (all _)
    rw [List.prefix_iff_eq_take, h.take_eq reaches, ← List.prefix_iff_eq_take]
    exact List.takeWhile_prefix p
  exact shorter.eq_of_length_le longer.length_le

/-- Both texts have the same operator, if no gap is inside it. -/
private theorem operator?_eq (h : Spaced tokens (i + 1) cs cs')
    (reaches : ∀ o ∈ operator? (c :: cs), Reaches tokens (i + 1) (o.1.length - 1)) :
    operator? (c :: cs') = operator? (c :: cs) := by
  have old {o : String × TokenKind} (mem : o ∈ operators) (starts : o.1.toList <+: c :: cs') :
      o.1.toList <+: c :: cs :=
    (Spaced.keep c h).starts (fun d hd => (operators_visible o mem d hd).1) starts
  cases found : operator? (c :: cs) with
  -- Layout between characters only separates operators and makes no new ones.
  | none =>
    rw [operator?, List.find?_eq_none] at found ⊢
    intro o mem starts
    have begins := old mem (List.isPrefixOf_iff_prefix.mp starts)
    exact found o mem (List.isPrefixOf_iff_prefix.mpr begins)
  | some o =>
    have longest := longest_of_operator? found
    refine operator?_of_longest ⟨longest.mem, ?_, fun longer mem lt starts => ?_⟩
    · -- The operator is a token, and nothing is inserted into it.
      have present := longest.present
      have inside := reaches o found
      rw [← String.length_toList] at inside
      cases spelled : o.1.toList with
      | nil => exact List.nil_prefix
      | cons d word =>
        rw [spelled] at present inside
        obtain ⟨rfl, rest⟩ := List.cons_prefix_cons.mp present
        have same : cs'.take word.length = cs.take word.length := h.take_eq inside
        rw [List.cons_prefix_cons, List.prefix_iff_eq_take, same]
        exact ⟨rfl, List.prefix_iff_eq_take.mp rest⟩
    · exact longest.longest longer mem lt (old mem starts)

/-- The lexer takes the same token, if one reaches as far. -/
private theorem lexeme_eq (h : Spaced tokens (i + 1) cs cs')
    (reaches : ∀ kind n, lexeme (c :: cs) = some (kind, n) → Reaches tokens (i + 1) (n - 1)) :
    lexeme (c :: cs') = lexeme (c :: cs) := by
  -- A run of digits or of letters is not interrupted, because its characters belong to one token.
  by_cases digit : c.isDigit = true
  · rw [lexeme_digit digit] at reaches ⊢
    have reaches := reaches _ _ rfl
    rw [Nat.add_sub_cancel_left] at reaches
    rw [lexeme_digit digit, h.takeWhile_eq (fun _ => isLayout_of_isDigit) reaches]
  by_cases alpha : c.isAlpha = true
  · rw [lexeme_letter alpha] at reaches ⊢
    have reaches := reaches _ _ rfl
    rw [Nat.add_sub_cancel_left] at reaches
    rw [lexeme_letter alpha, h.takeWhile_eq (fun _ => isLayout_of_isAlpha) reaches]
  · have operator (cs : List Char) : lexeme (c :: cs) = _ :=
      lexeme_operator (eq_false_of_ne_true digit) (eq_false_of_ne_true alpha)
    rw [operator] at reaches ⊢
    rw [operator, h.operator?_eq]
    intro o found
    rw [found] at reaches
    exact reaches _ _ rfl

end Spaced

end Lexing

/-! ## Tokens that differ in their positions -/

namespace Token

/-- What a token is, wherever it stands. -/
def content (token : Token) : TokenKind × String := (token.kind, token.text)

/-- Tokens have the same content if they have the same kind and the same text. -/
private theorem content_eq {a b : Token} :
    a.content = b.content ↔ a.kind = b.kind ∧ a.text = b.text :=
  Prod.mk.injEq .. ▸ Iff.rfl

end Token

namespace Lexing

/-- From characters with layout inserted the lexer reads the same tokens. -/
theorem scan_spaced {tokens : List Token} {i : Nat} {cs cs' : List Char}
    (h : Spaced tokens i cs cs') {skip : Nat} (position : Nat)
    (inside : skip = 0 ∨ Reaches tokens i skip) (known : scan skip i cs ⊆ tokens) :
    (scan skip position cs').map Token.content = (scan skip i cs).map Token.content := by
  -- By induction on how layout is inserted.  While the lexer skips the rest of a token, that token
  -- goes on, so that both texts have the same characters to skip.
  induction h generalizing skip position with
  | nil i => simp [scan, Token.content]
  | @keep i c cs cs' h ih =>
    cases skip with
    | succ skip =>
      have inside := inside.resolve_left (Nat.succ_ne_zero _)
      exact ih (position + 1) (.inr inside.step) known
    | zero =>
      by_cases layout : isLayout c = true
      · rw [scan, if_pos layout] at known ⊢
        rw [scan, if_pos layout]
        exact ih (position + 1) (.inl rfl) known
      · rw [scan, if_neg layout] at known ⊢
        rw [scan, if_neg layout]
        -- The token that is found reaches as far as it is long.
        have reaches (kind : TokenKind) (n : Nat) (found : lexeme (c :: cs) = some (kind, n)) :
            Reaches tokens (i + 1) (n - 1) := by
          rw [found] at known
          have positive := (Lexer.lexeme_spec found).2.2.1
          have long := length_le_of_lexeme found
          refine ⟨_, (List.cons_subset.mp known).1, by dsimp only; omega, ?_⟩
          simp only [Token.length, String.length_ofList, List.length_take, List.length_cons]
          omega
        rw [h.lexeme_eq reaches]
        cases found : lexeme (c :: cs) with
        | none =>
          rw [found] at known
          rw [List.map_cons, List.map_cons, ih _ (.inl rfl) (List.cons_subset.mp known).2]
          rfl
        | some pair =>
          obtain ⟨kind, n⟩ := pair
          obtain ⟨n, rfl⟩ := Nat.exists_eq_add_one.mpr (Lexer.lexeme_spec found).2.2.1
          have inside : Reaches tokens (i + 1) n := reaches kind _ found
          have text : (c :: cs').take (n + 1) = (c :: cs).take (n + 1) := by
            rw [List.take_succ_cons, List.take_succ_cons, h.take_eq inside]
          rw [found] at known
          have behind := ih (position + 1) (.inr inside) (List.cons_subset.mp known).2
          simp only [List.map_cons, Nat.add_sub_cancel, text, behind, Token.content]
  | insert blank apart _ ih =>
    -- Nothing is skipped here, and the lexer steps over the layout.
    have none : skip = 0 := inside.elim id fun reaches => reaches.eq_zero apart
    subst none
    rw [scan, if_pos (isLayout_iff.mpr blank)]
    exact ih (position + 1) (.inl rfl) known

end Lexing

/-! ## The parser -/

/-- A cause, wherever the token that was found stands. -/
def DiagnosticCause.content : DiagnosticCause → DiagnosticCause
  | .unexpectedToken found expected => .unexpectedToken { found with position := 0 } expected
  | .trailingInput found => .trailingInput { found with position := 0 }
  | cause => cause

/-- What a diagnostic says, wherever it points. -/
def Diagnostic.content (d : Diagnostic) : DiagnosticCause := d.cause.content

/-- The code of a diagnostic depends on what it says. -/
private theorem Diagnostic.code_eq (d : Diagnostic) : d.code = Diagnostic.code ⟨d.content, 0⟩ := by
  obtain ⟨cause, position⟩ := d
  cases cause <;> rfl

/-- Diagnostics with the same content have the same codes. -/
private theorem Diagnostic.codes_eq {ds ds' : List Diagnostic}
    (h : ds'.map Diagnostic.content = ds.map Diagnostic.content) :
    ds'.map Diagnostic.code = ds.map Diagnostic.code := by
  have spec (ds : List Diagnostic) : ds.map Diagnostic.code =
      (ds.map Diagnostic.content).map fun content => Diagnostic.code ⟨content, 0⟩ := by
    rw [List.map_map]
    exact List.map_congr_left fun d _ => d.code_eq
  rw [spec, spec, h]

/-- States that differ in positions only. -/
structure Displaced (s s' : ParserState) : Prop where
  next : s'.next.content = s.next.content
  later : s'.stream.later.map Token.content = s.stream.later.map Token.content
  diagnostics : s'.diagnostics.map Diagnostic.content = s.diagnostics.map Diagnostic.content

/-- How much there is to read does not depend on positions. -/
private theorem weightOf_eq {tokens tokens' : List Token}
    (h : tokens'.map Token.content = tokens.map Token.content) :
    TokenStream.weightOf tokens' = TokenStream.weightOf tokens := by
  induction tokens generalizing tokens' with
  | nil => rw [List.map_eq_nil_iff.mp h]
  | cons token tokens ih =>
    obtain ⟨token', tokens', rfl⟩ := List.exists_cons_of_ne_nil (l := tokens')
      (by rintro rfl; cases h)
    rw [List.map_cons, List.map_cons, List.cons.injEq] at h
    have same : token'.length = token.length := by
      rw [Token.length, Token.length, (Token.content_eq.mp h.1).2]
    rw [TokenStream.weightOf_cons, TokenStream.weightOf_cons, same, ih h.2]

namespace Displaced

variable {s s' : ParserState}

/-- The next tokens are of the same kind. -/
private theorem kind (h : Displaced s s') : s'.next.kind = s.next.kind :=
    (Token.content_eq.mp h.next).1

/-- The next tokens have the same text. -/
theorem text (h : Displaced s s') : s'.next.text = s.next.text := (Token.content_eq.mp h.next).2

/-- States stay displaced when both are read on. -/
theorem advance (h : Displaced s s') : Displaced s.advance s'.advance := by
  by_cases atEnd : s.next.kind = .endOfInput
  · rw [advance_of_endOfInput atEnd, advance_of_endOfInput (h.kind.trans atEnd)]
    exact h
  · have atEnd' : s'.next.kind ≠ .endOfInput := by
      rw [h.kind]
      exact atEnd
    have hlater := h.later
    obtain ⟨⟨read, next, later⟩, diagnostics⟩ := s
    obtain ⟨⟨read', next', later'⟩, diagnostics'⟩ := s'
    simp only [ParserState.advance, TokenStream.advance, if_neg atEnd, if_neg atEnd']
    -- Both streams have as many tokens left, so both move on or neither does.
    cases later with
    | nil =>
      obtain rfl := List.map_eq_nil_iff.mp hlater
      exact h
    | cons first later =>
      obtain ⟨first', later', rfl⟩ := List.exists_cons_of_ne_nil (l := later')
        (by rintro rfl; cases hlater)
      exact ⟨(List.cons.inj hlater).1, (List.cons.inj hlater).2, h.diagnostics⟩

/-- States stay displaced when both read as many characters of a word. -/
theorem advanceBy (h : Displaced s s') (kind : s.next.kind = .identifier) {n : Nat}
    (positive : 0 < n) : Displaced (s.advanceBy n) (s'.advanceBy n) := by
  have length : s'.next.length = s.next.length := by
    rw [Token.length, Token.length, h.text]
  -- The words are equally long, so both are cut or neither is.
  rcases advanceBy_cases kind positive with ⟨ge, whole⟩ | ⟨lt, cut⟩
  · rcases advanceBy_cases (h.kind.trans kind) positive with ⟨-, whole'⟩ | ⟨lt', -⟩
    · rw [whole, whole']
      exact h.advance
    · omega
  · rcases advanceBy_cases (h.kind.trans kind) positive with ⟨ge', -⟩ | ⟨-, cut'⟩
    · omega
    · rw [cut, cut']
      refine ⟨Token.content_eq.mpr ⟨h.kind, ?_⟩, h.later, h.diagnostics⟩
      show String.ofList (s'.next.text.toList.drop n) = String.ofList (s.next.text.toList.drop n)
      rw [h.text]

/-- States stay displaced when both record the same, at whatever positions. -/
theorem record (h : Displaced s s') {cause cause' : DiagnosticCause} {position position' : Int}
    (same : cause'.content = cause.content) :
    Displaced (s.record cause position) (s'.record cause' position') := by
  refine ⟨h.next, h.later, ?_⟩
  show (s'.diagnostics ++ [_]).map _ = (s.diagnostics ++ [_]).map _
  rw [List.map_append, List.map_append, h.diagnostics]
  exact congrArg (fun content => _ ++ [content]) same

end Displaced

/-- The parser does not look at positions. -/
theorem isBisimulation_displaced : IsBisimulation Displaced where
  kind h := h.kind
  text h := h.text
  weight h := by
    apply weightOf_eq
    rw [TokenStream.upcoming, TokenStream.upcoming, List.map_cons, List.map_cons, h.next, h.later]
  advance h := h.advance
  cut h kind _ positive := h.advanceBy kind positive
  missing h expected := h.record (by simp [DiagnosticCause.content, h.kind, h.text])
  unknownDice h _ := h.advance.record (by rw [h.text])

/-! ## Whole inputs -/

/-- What the parser comes to from a state on. -/
def ParserState.outcome (s : ParserState) : Except Numeral.ReadError ParseResult :=
  match Parser.whole.run s with
  | .ok result _ => .ok result
  | .error e _ => .error e

/-- The same tree was read, and the same was diagnosed at whatever positions; or reading failed with
    the same error. -/
def ReadAlike : Except Numeral.ReadError ParseResult → Except Numeral.ReadError ParseResult → Prop
  | .ok result, .ok result' =>
    result'.root = result.root ∧
      result'.diagnostics.map Diagnostic.content = result.diagnostics.map Diagnostic.content ∧
        result'.diagnostics.map Diagnostic.code = result.diagnostics.map Diagnostic.code
  | .error e, .error e' => e' = e
  | _, _ => False

/-- Displaced states close with the same diagnostics, but for positions. -/
private theorem Displaced.closing {s s' : ParserState} (h : Displaced s s') :
    s'.closing.map Diagnostic.content = s.closing.map Diagnostic.content := by
  unfold ParserState.closing
  rw [h.kind]
  split
  · rfl
  · simp [Diagnostic.content, DiagnosticCause.content, h.kind, h.text]

/-- Displaced states have been read alike. -/
private theorem Displaced.readAlike {s s' : ParserState} (h : Displaced s s') :
    ReadAlike s.outcome s'.outcome := by
  have inStep := respects_expression isBisimulation_displaced s s' h
  unfold ParserState.outcome
  rw [run_whole, run_whole]
  unfold Matches at inStep
  split at inStep
  · next root t root' t' run run' =>
    obtain ⟨rfl, -, related⟩ := inStep
    -- Positions are all that the two lists of diagnostics may differ in.
    have same : (t'.diagnostics ++ t'.closing).map Diagnostic.content =
        (t.diagnostics ++ t.closing).map Diagnostic.content := by
      rw [List.map_append, List.map_append, related.diagnostics, related.closing]
    rw [run, run']
    exact ⟨rfl, same, Diagnostic.codes_eq same⟩
  · next e t e' t' run run' =>
    rw [run, run']
    exact inStep
  · exact inStep.elim

/-- Tokens that differ in positions only still do so with the end of the input behind them. -/
private theorem content_withEnd {tokens tokens' : List Token}
    (h : tokens'.map Token.content = tokens.map Token.content) :
    (TokenStream.withEnd tokens').map Token.content =
      (TokenStream.withEnd tokens).map Token.content := by
  -- Whether an end is added depends on the kind of the last token only.
  have last : tokens'.getLast?.map Token.content = tokens.getLast?.map Token.content := by
    rw [← List.getLast?_map, h, List.getLast?_map]
  unfold TokenStream.withEnd
  cases ends : tokens.getLast? with
  | none =>
    rw [ends, Option.map_none, Option.map_eq_none_iff] at last
    rw [last]
  | some token =>
    rw [ends] at last
    obtain ⟨token', ends', same⟩ := Option.map_eq_some_iff.mp last
    rw [ends']
    dsimp only
    rw [(Token.content_eq.mp same).1]
    split
    · exact h
    · rw [List.map_append, List.map_append, h]
      rfl

/-- Tokens of the same kinds and texts are read from states that differ in positions only. -/
private theorem displaced_ofTokens {tokens tokens' : List Token} {ds ds' : List Diagnostic}
    (h : tokens'.map Token.content = tokens.map Token.content)
    (diagnostics : ds'.map Diagnostic.content = ds.map Diagnostic.content) :
    Displaced ⟨.ofTokens tokens, ds⟩ ⟨.ofTokens tokens', ds'⟩ := by
  have ended := content_withEnd h
  unfold TokenStream.ofTokens
  -- The end of the input is added on both sides or on neither.
  cases first : TokenStream.withEnd tokens with
  | nil =>
    rw [first, List.map_nil, List.map_eq_nil_iff] at ended
    rw [ended]
    exact ⟨rfl, rfl, diagnostics⟩
  | cons next later =>
    rw [first] at ended
    obtain ⟨next', later', first'⟩ := List.exists_cons_of_ne_nil (l := TokenStream.withEnd tokens')
      (by intro empty; rw [empty] at ended; cases ended)
    rw [first', List.map_cons, List.map_cons, List.cons.injEq] at ended
    rw [first']
    exact ⟨ended.1, ended.2, diagnostics⟩

/-- Tokens that differ in positions only have the same diagnostics, but for positions. -/
private theorem content_lexDiagnostics {tokens tokens' : List Token}
    (h : tokens'.map Token.content = tokens.map Token.content) :
    (lexDiagnostics tokens').map Diagnostic.content =
      (lexDiagnostics tokens).map Diagnostic.content := by
  have single {token token' : Token} (h : token'.content = token.content) :
      (Lexer.diagnostic? token').map Diagnostic.content =
        (Lexer.diagnostic? token).map Diagnostic.content := by
    obtain ⟨kind, text⟩ := Token.content_eq.mp h
    unfold Lexer.diagnostic?
    rw [kind, text]
    split
    · rw [Option.map_map, Option.map_map]
      rfl
    · rfl
  -- Each diagnostic says what its token says.
  have spec (tokens : List Token) : (lexDiagnostics tokens).map Diagnostic.content =
      (tokens.map Token.content).filterMap fun content =>
        (Lexer.diagnostic? ⟨content.1, 0, content.2⟩).map Diagnostic.content := by
    rw [lexDiagnostics, List.map_filterMap, List.filterMap_map]
    exact List.filterMap_congr fun token _ => single rfl
  rw [spec, spec, h]

/-- Layout was inserted before, behind and between the tokens of a text. -/
def IsRespaced (text text' : String) : Prop :=
  Lexing.Spaced (lex text) 0 text.toList text'.toList

/-- Layout never changes meaning: with layout inserted between its tokens a text has the same
    tokens, and the same is read and diagnosed.  The parser does not look at the positions of tokens
    at all. -/
theorem parse_layout :
    (∀ text text', IsRespaced text text' →
      (lex text').map Token.content = (lex text).map Token.content ∧
        ReadAlike (parse text) (parse text')) ∧
    ∀ tokens tokens' : List Token, tokens'.map Token.content = tokens.map Token.content →
      ReadAlike (ParserState.ofTokens tokens).outcome (ParserState.ofTokens tokens').outcome := by
  refine ⟨fun text text' respaced => ?_, fun tokens tokens' same => ?_⟩
  · have same := Lexing.scan_spaced respaced 0 (.inl rfl) (List.Subset.refl _)
    refine ⟨same, ?_⟩
    exact (displaced_ofTokens same (content_lexDiagnostics same)).readAlike
  · exact (displaced_ofTokens same rfl).readAlike

/-- A roll with two modifiers in one word and an operand that is missing; and tokens that stand in
    the wrong places. -/
theorem parse_layout_spread :
    ((lex " d6 khdl\t+\n").map Token.content = (lex "d6khdl+").map Token.content ∧
      ReadAlike (parse "d6khdl+") (parse " d6 khdl\t+\n")) ∧
    ReadAlike (ParserState.ofTokens [⟨.identifier, 0, "d"⟩, ⟨.comma, 1, ","⟩]).outcome
      (ParserState.ofTokens [⟨.identifier, 9, "d"⟩, ⟨.comma, -3, ","⟩]).outcome := by
  refine ⟨parse_layout.1 _ _ ?_, parse_layout.2 _ _ rfl⟩
  show Lexing.Spaced _ 0 ['d', '6', 'k', 'h', 'd', 'l', '+']
    [' ', 'd', '6', ' ', 'k', 'h', 'd', 'l', '\t', '+', '\n']
  refine .insert (by decide) (by decide) (.keep _ (.keep _ (.insert (by decide) (by decide) ?_)))
  refine .keep _ (.keep _ (.keep _ (.keep _ (.insert (by decide) (by decide) (.keep _ ?_)))))
  exact .insert (by decide) (by decide) (.nil _)

end DiceNotation
