import DiceNotation.Proofs.Grammar
import DiceNotation.Proofs.Numeral

/-! # What a parser step does

`s.Leads t` collects what holds between the state before and the state after any parser step
that ends well: the tokens still to be read stay regular and get no heavier, no diagnostic is
lost, and no numeral with too many digits has been read.  `Reads s p post` says of a step `p` in
state `s` that it ends so, in a state and with a result as `post` says, or else stops at a
numeral with too many digits.

* `Reads.bind`       steps one after the other
* `reads_integer`    a numeral is read, or its place is diagnosed
* `Accepted.bind`    steps without a diagnostic, one after the other -/

namespace DiceNotation

namespace Token

/-- A numeral with more digits than can be read. -/
def IsOversized (token : Token) : Prop :=
  token.kind = .integer ∧ Numeral.maxDigits < token.text.length

/-- Only numerals have too many digits. -/
theorem not_isOversized {token : Token} {kind : TokenKind} (h : token.kind = kind)
    (ne : kind ≠ .integer) : ¬token.IsOversized :=
  fun big => ne (h ▸ big.1)

end Token

namespace TokenStream

/-- The weight of a list of tokens: each counts for its length and one more. -/
def weightOf (tokens : List Token) : Nat :=
  tokens.foldr (fun token rest => token.length + 1 + rest) 0

/-- How much there is to read depends on the tokens to come. -/
theorem weight_eq (s : TokenStream) : s.weight = weightOf s.upcoming := rfl

@[simp] theorem weightOf_nil : weightOf [] = 0 := rfl

/-- A token counts for its length and one more. -/
@[simp] theorem weightOf_cons (token : Token) (tokens : List Token) :
    weightOf (token :: tokens) = token.length + 1 + weightOf tokens := rfl

/-- There is always something to read, if only the end of the input. -/
theorem weight_pos (s : TokenStream) : 0 < s.weight := by
  rw [weight_eq, upcoming, weightOf_cons]
  omega

end TokenStream

/-- Tokens as the lexer makes them: the last one and only that is the end of the input, and
    numerals are runs of digits. -/
structure Regular (tokens : List Token) : Prop where
  ends : ∃ before last, tokens = before ++ [last] ∧ last.kind = .endOfInput ∧
    ∀ token ∈ before, token.kind ≠ .endOfInput
  numerals : ∀ token ∈ tokens, token.kind = .integer → Numeral.IsDigits token.text

namespace Regular

variable {token : Token} {tokens : List Token}

/-- Behind a token that is not the end, regular tokens stay regular. -/
theorem tail (h : Regular (token :: tokens)) (ne : token.kind ≠ .endOfInput) : Regular tokens := by
  obtain ⟨before, last, hsplit, hlast, hbefore⟩ := h.ends
  obtain _ | ⟨first, before⟩ := before
  · rw [List.nil_append, List.cons.injEq] at hsplit
    exact absurd (hsplit.1 ▸ hlast) ne
  · rw [List.cons_append, List.cons.injEq] at hsplit
    refine ⟨⟨before, last, hsplit.2, hlast, fun t ht => ?_⟩, fun t ht => ?_⟩
    · exact hbefore t (List.mem_cons_of_mem _ ht)
    · exact h.numerals t (List.mem_cons_of_mem _ ht)

/-- Another word in the place of the first token. -/
theorem replace (h : Regular (token :: tokens)) (ne : token.kind ≠ .endOfInput) {word : Token}
    (hw : word.kind = .identifier) : Regular (word :: tokens) := by
  have rest := h.tail ne
  obtain ⟨before, last, hsplit, hlast, hbefore⟩ := rest.ends
  refine ⟨⟨word :: before, last, by rw [hsplit]; rfl, hlast, fun t ht => ?_⟩, fun t ht hk => ?_⟩
  · rcases List.mem_cons.mp ht with rfl | ht
    · rw [hw]
      decide
    · exact hbefore t ht
  · rcases List.mem_cons.mp ht with rfl | ht
    · rw [hw] at hk
      cases hk
    · exact rest.numerals t ht hk

/-- Regular tokens are not none. -/
theorem ne_nil (h : Regular tokens) : tokens ≠ [] := by
  obtain ⟨before, last, hsplit, -⟩ := h.ends
  rw [hsplit]
  exact List.append_ne_nil_of_right_ne_nil _ (List.cons_ne_nil _ _)

/-- Behind the end of the input there is nothing. -/
theorem eq_singleton (h : Regular (token :: tokens)) (hk : token.kind = .endOfInput) :
    tokens = [] := by
  obtain ⟨before, last, hsplit, -, hbefore⟩ := h.ends
  obtain _ | ⟨first, before⟩ := before
  · exact (List.cons.inj hsplit).2
  · rw [List.cons_append, List.cons.injEq] at hsplit
    exact absurd (hsplit.1 ▸ hk) (hbefore first List.mem_cons_self)

end Regular

namespace ParserState

/-- Nothing has been found wrong so far. -/
def Clean (s : ParserState) : Prop := s.diagnostics = []

/-- The tokens still to be read. -/
abbrev upcoming (s : ParserState) : List Token := s.stream.upcoming

/-- The next token. -/
abbrev next (s : ParserState) : Token := s.stream.next

/-- The state after stepping over the next token. -/
def advance (s : ParserState) : ParserState := { s with stream := s.stream.advance }

/-- The state after stepping over the first characters of the next token. -/
def advanceBy (s : ParserState) (n : Nat) : ParserState :=
  { s with stream := ((s.stream.split? n).getD s.stream).advance }

/-- The state after a diagnostic. -/
def record (s : ParserState) (cause : DiagnosticCause) (position : Int) : ParserState :=
  { s with diagnostics := s.diagnostics ++ [⟨cause, position⟩] }

/-- The tokens to come are the next one and the later ones. -/
theorem upcoming_eq (s : ParserState) : s.upcoming = s.next :: s.stream.later := rfl

/-- What holds between the states before and after a step that ends well. -/
structure Leads (s t : ParserState) : Prop where
  regular : Regular t.upcoming
  weight : t.stream.weight ≤ s.stream.weight
  diagnostics : s.diagnostics <+: t.diagnostics
  read : ∃ taken, t.stream.read = taken ++ s.stream.read ∧ ∀ token ∈ taken, ¬token.IsOversized
  kept : ∀ token ∈ t.upcoming, token.kind = .integer → token ∈ s.upcoming

/-- What holds between the states before and after a step that fails. -/
structure Fails (s t : ParserState) (e : Numeral.ReadError) : Prop where
  error : e = .tooManyDigits
  token : ∃ token ∈ s.upcoming, token.IsOversized ∧ token ∈ t.stream.read

variable {s t u : ParserState}

namespace Leads

/-- A state leads to itself. -/
theorem refl (h : Regular s.upcoming) : s.Leads s where
  regular := h
  weight := Nat.le_refl _
  diagnostics := List.prefix_rfl
  read := ⟨[], rfl, by simp⟩
  kept := fun _ h _ => h

/-- What leads to a state leads to where that one leads. -/
theorem trans (hst : s.Leads t) (htu : t.Leads u) : s.Leads u where
  regular := htu.regular
  weight := Nat.le_trans htu.weight hst.weight
  diagnostics := hst.diagnostics.trans htu.diagnostics
  read := by
    obtain ⟨first, hfirst, small⟩ := hst.read
    obtain ⟨second, hsecond, small'⟩ := htu.read
    refine ⟨second ++ first, by rw [hsecond, hfirst, List.append_assoc], fun token ht => ?_⟩
    rcases List.mem_append.mp ht with ht | ht
    · exact small' token ht
    · exact small token ht
  kept := fun token ht hk => hst.kept token (htu.kept token ht hk) hk

/-- What leads to a state fails where that one fails. -/
theorem fails {e : Numeral.ReadError} (hst : s.Leads t) (htu : t.Fails u e) : s.Fails u e where
  error := htu.error
  token := by
    obtain ⟨token, ht, big, hr⟩ := htu.token
    exact ⟨token, hst.kept token ht big.1, big, hr⟩

/-- If nothing is wrong in the end, nothing was wrong before. -/
theorem clean (hst : s.Leads t) (ht : t.Clean) : s.Clean :=
  List.prefix_nil.mp (ht ▸ hst.diagnostics)

end Leads

/-! ## Primitive steps -/

/-- Reading takes the next token from those to come. -/
theorem upcoming_advance (h : Regular s.upcoming) (ne : s.next.kind ≠ .endOfInput) :
    s.upcoming = s.next :: s.advance.upcoming ∧
      s.advance.stream.read = s.next :: s.stream.read := by
  obtain ⟨⟨read, token, later⟩, diagnostics⟩ := s
  cases later with
  | nil => exact absurd rfl (h.tail ne).ne_nil
  | cons first later =>
    simp only [advance, TokenStream.advance, TokenStream.upcoming]
    rw [if_neg ne]
    exact ⟨rfl, rfl⟩

/-- At the end of the input, reading changes nothing. -/
theorem advance_of_endOfInput (h : s.next.kind = .endOfInput) : s.advance = s := by
  rw [advance, TokenStream.advance_of_endOfInput h]

/-- Before the end of the input, reading on leaves less to be read. -/
theorem weight_advance_lt (h : Regular s.upcoming) (ne : s.next.kind ≠ .endOfInput) :
    s.advance.stream.weight < s.stream.weight := by
  have hu := (upcoming_advance h ne).1
  rw [TokenStream.weight_eq, TokenStream.weight_eq]
  change TokenStream.weightOf s.advance.upcoming < TokenStream.weightOf s.upcoming
  rw [hu, TokenStream.weightOf_cons]
  omega

/-- A state leads to the one behind the next token. -/
theorem leads_advance (h : Regular s.upcoming) (small : ¬s.next.IsOversized) :
    s.Leads s.advance := by
  by_cases ne : s.next.kind = .endOfInput
  · rw [advance_of_endOfInput ne]
    exact .refl h
  · obtain ⟨hu, hr⟩ := upcoming_advance h ne
    exact {
      regular := (hu ▸ h).tail ne
      weight := Nat.le_of_lt (weight_advance_lt h ne)
      diagnostics := List.prefix_rfl
      read := ⟨[s.next], hr, by simpa using small⟩
      kept := fun token ht _ => by rw [hu]; exact List.mem_cons_of_mem _ ht }

/-- A state leads to the one with a diagnostic more. -/
theorem leads_record (h : Regular s.upcoming) (cause : DiagnosticCause) (position : Int) :
    s.Leads (s.record cause position) where
  regular := h
  weight := Nat.le_refl _
  diagnostics := List.prefix_append ..
  read := ⟨[], rfl, by simp⟩
  kept := fun _ h _ => h

/-- Behind a diagnostic something has been found wrong. -/
theorem not_clean_record (cause : DiagnosticCause) (position : Int) :
    ¬(s.record cause position).Clean := by
  simp [Clean, record]

/-! ## What comes next -/

/-- A phrase ends if the next token does not continue it. -/
theorem ends_iff {begins : TokenKind → Bool} :
    Grammar.Ends begins s.upcoming ↔ begins s.next.kind = false := by
  constructor
  · exact fun h => h s.next rfl
  · rintro h token ⟨⟩
    exact h

/-- A phrase ends if the next token is not of the one kind that continues it. -/
theorem ends_beq_iff {kind : TokenKind} :
    Grammar.Ends (· == kind) s.upcoming ↔ s.next.kind ≠ kind := by
  rw [ends_iff]
  exact beq_eq_false_iff_ne

/-! ## Letters at the beginning of a word -/

/-- A token starts with letters if they are a prefix of its text. -/
theorem startsWith_iff (token : Token) (letters : String) :
    Parser.startsWith token letters = true ↔ letters.toList <+: token.text.toList := by
  rw [Parser.startsWith, List.isPrefixOf_iff_prefix]

/-- Letters are lacking if the next token is no word that starts with them. -/
theorem lacks_iff {letters : String} :
    Grammar.Lacks letters s.upcoming ↔
      ¬(s.next.kind = .identifier ∧ Parser.startsWith s.next letters) := by
  rw [startsWith_iff, not_and]
  constructor
  · exact fun h => h s.next rfl
  · rintro h token ⟨⟩
    exact h

/-- The tokens left behind letters are determined. -/
theorem letters_unique {letters : String} {tokens rest rest' : List Token}
    (h : Grammar.Letters letters tokens rest) (h' : Grammar.Letters letters tokens rest') :
    rest = rest' := by
  -- A word is either the letters themselves or longer than they are, never both.
  have longer : ∀ {word more : String}, word = letters ++ more → more ≠ "" → word ≠ letters := by
    rintro word more rfl ne same
    refine ne (String.toList_eq_nil_iff.mp ?_)
    have := congrArg String.toList same
    rwa [String.toList_append, List.append_right_eq_self] at this
  cases h with
  | whole kind text =>
    cases h' with
    | whole => rfl
    | part _ text' left => exact absurd text (longer text' left)
  | part kind text left =>
    cases h' with
    | whole _ text' => exact absurd text' (longer text left)
    | part _ text' _ =>
      -- Both rests follow the same letters in the same word.
      have same := congrArg String.toList (text.symm.trans text')
      rw [String.toList_append, String.toList_append, List.append_cancel_left_eq,
        String.toList_inj] at same
      rw [same]

/-- Letters of the grammar are at the beginning of the next token, which is a word. -/
theorem letters_next {letters : String} {rest : List Token}
    (h : Grammar.Letters letters s.upcoming rest) :
    s.next.kind = .identifier ∧ letters.toList <+: s.next.text.toList := by
  generalize htokens : s.upcoming = tokens at h
  cases h with
  | whole kind text =>
    have hnext : s.next = _ := (List.cons.inj htokens).1
    rw [hnext]
    exact ⟨kind, text ▸ List.prefix_rfl⟩
  | part kind text _ =>
    have hnext : s.next = _ := (List.cons.inj htokens).1
    rw [hnext]
    exact ⟨kind, by rw [text, String.toList_append]; exact List.prefix_append ..⟩

/-- The first characters of a word are the whole word, or it is cut behind them. -/
theorem advanceBy_cases (kind : s.next.kind = .identifier) {n : Nat} (positive : 0 < n) :
    s.next.length ≤ n ∧ s.advanceBy n = s.advance ∨ n < s.next.length ∧ s.advanceBy n =
      ⟨⟨(s.next.splitAt n).1 :: s.stream.read, (s.next.splitAt n).2, s.stream.later⟩,
        s.diagnostics⟩ := by
  -- The stream is cut only strictly inside a token.
  by_cases lt : n < s.stream.next.length
  · have notEnd : (s.next.splitAt n).1.kind ≠ .endOfInput := by
      show s.next.kind ≠ .endOfInput
      rw [kind]
      decide
    right
    refine ⟨lt, ?_⟩
    rw [advanceBy, TokenStream.split?_of_lt (by omega), Option.getD_some, TokenStream.advance,
      Int.toNat_natCast, if_neg notEnd]
  · left
    refine ⟨Nat.not_lt.mp lt, ?_⟩
    rw [advanceBy, TokenStream.split?_eq_none_iff.mpr (by omega), Option.getD_none, advance]

/-- Stepping over the first letters of a word cuts a longer word. -/
theorem letters_advanceBy (letters : String) (h : Regular s.upcoming)
    (kind : s.next.kind = .identifier) (pre : letters.toList <+: s.next.text.toList)
    (ne : letters ≠ "") :
    Grammar.Letters letters s.upcoming (s.advanceBy letters.length).upcoming ∧
      s.Leads (s.advanceBy letters.length) ∧
      (s.advanceBy letters.length).stream.weight < s.stream.weight := by
  have notEnd : s.next.kind ≠ .endOfInput := by rw [kind]; decide
  have small (token : Token) (word : token.kind = .identifier) : ¬token.IsOversized :=
    Token.not_isOversized word (by decide)
  obtain ⟨more, hmore⟩ := pre
  have positive : 0 < letters.length := by
    rw [← String.length_toList]
    exact List.length_pos_iff.mpr fun e => ne (String.toList_eq_nil_iff.mp e)
  have hlength : s.next.length = letters.length + more.length := by
    rw [Token.length, ← String.length_toList, ← hmore, List.length_append, String.length_toList]
  rcases advanceBy_cases kind positive with ⟨le, uncut⟩ | ⟨lt, cut⟩
  · -- The letters are the whole word, which is stepped over.
    have whole : s.next.text = letters := by
      rw [List.eq_nil_of_length_eq_zero (by omega : more.length = 0), List.append_nil] at hmore
      exact (String.toList_inj.mp hmore).symm
    rw [uncut]
    refine ⟨?_, leads_advance h (small _ kind), weight_advance_lt h notEnd⟩
    rw [(upcoming_advance h notEnd).1]
    exact .whole kind whole
  · -- The word goes on behind the letters.
    have left : more ≠ [] := List.ne_nil_of_length_pos (by omega)
    let rest : Token := ⟨.identifier, s.next.position + letters.length, String.ofList more⟩
    let head : Token := ⟨.identifier, s.next.position, letters⟩
    -- The word is split into the letters and what is left of it.
    have parts : s.next.splitAt letters.length = (head, rest) := by
      simp only [Token.splitAt, ← hmore, kind, head, rest]
      rw [← String.length_toList, List.take_left, List.drop_left, String.ofList_toList]
    rw [parts] at cut
    rw [cut]
    refine ⟨.part kind ?_ ?_, ?_, ?_⟩
    · rw [← String.toList_inj, String.toList_append, String.toList_ofList]
      exact hmore.symm
    · exact fun e => left (by rw [← String.toList_ofList (l := more), e]; rfl)
    · exact {
        regular := h.replace notEnd rfl
        weight := by
          simp only [TokenStream.weight_eq, TokenStream.upcoming, TokenStream.weightOf_cons, rest]
          rw [hlength, Token.length, String.length_ofList]
          omega
        diagnostics := List.prefix_rfl
        read := ⟨[head], rfl, by simpa using small head rfl⟩
        kept := fun token ht hk => by
          rcases List.mem_cons.mp ht with rfl | ht
          · cases hk
          · exact List.mem_cons_of_mem _ ht }
    · simp only [TokenStream.weight_eq, TokenStream.upcoming, TokenStream.weightOf_cons, rest]
      rw [hlength, Token.length, String.length_ofList]
      omega

/-- A token of the expected kind is stepped over; another one is diagnosed and left. -/
theorem run_expect (s : ParserState) (kind : TokenKind) :
    (Parser.expect kind).run s =
      if s.next.kind = kind then .ok (some s.next) s.advance
      else .ok none (s.record (.unexpectedToken s.next kind) s.next.position) := by
  simp only [Parser.expect]
  change ((if s.next.kind = kind then _ else _ : ParseM (Option Token))).run s = _
  split <;> rfl

end ParserState

open ParserState

/-! ## Steps and their results -/

variable {α β : Type} {s : ParserState}

/-- The step ends well, in a state and with a result as `post` says, or fails at a numeral with
    too many digits. -/
def Reads (s : ParserState) (p : ParseM α) (post : α → ParserState → Prop) : Prop :=
  match p.run s with
  | .ok a t => s.Leads t ∧ post a t
  | .error e t => s.Fails t e

namespace Reads

variable {p : ParseM α} {f : α → ParseM β} {post : β → ParserState → Prop}

/-- Less can be said of the result. -/
theorem mono {post' : β → ParserState → Prop} {p : ParseM β} (hp : Reads s p post)
    (h : ∀ b t, s.Leads t → post b t → post' b t) : Reads s p post' := by
  unfold Reads at *
  split at hp
  · exact ⟨hp.1, h _ _ hp.1 hp.2⟩
  · exact hp

/-- Giving a value reads nothing. -/
theorem pure {b : β} (h : Regular s.upcoming) (hb : post b s) : Reads s (Pure.pure b) post :=
  ⟨.refl h, hb⟩

/-- Go on from a later state. -/
theorem after {t : ParserState} {p : ParseM β} (hst : s.Leads t) (hp : Reads t p post) :
    match p.run t with
    | .ok b u => s.Leads u ∧ post b u
    | .error e u => s.Fails u e := by
  unfold Reads at hp
  split at hp
  · exact ⟨hst.trans hp.1, hp.2⟩
  · exact hst.fails hp

/-- Two steps one after the other. -/
theorem bind {mid : α → ParserState → Prop} (hp : Reads s p mid)
    (hf : ∀ a t, s.Leads t → mid a t → Reads t (f a) post) : Reads s (p >>= f) post := by
  unfold Reads at hp ⊢
  rw [EStateM.run_bind]
  split at hp
  · next a t hrun =>
    simp only [hrun]
    exact after hp.1 (hf a t hp.1 hp.2)
  · next e t hrun =>
    simp only [hrun]
    exact hp

/-- Looking at the next token reads nothing. -/
theorem peek {f : Token → ParseM β} (hf : Reads s (f s.next) post) :
    Reads s (Parser.peek >>= f) post := hf

/-- Looking at the kind of the next token reads nothing. -/
theorem nextKind {f : TokenKind → ParseM β} (hf : Reads s (f s.next.kind) post) :
    Reads s (Parser.nextKind >>= f) post := hf

/-- Asking how much there is to read reads nothing. -/
theorem weight {f : Nat → ParseM β} (hf : Reads s (f s.stream.weight) post) :
    Reads s (Parser.weight >>= f) post := hf

/-- Looking at the state reads nothing. -/
theorem get {f : ParserState → ParseM β} (hf : Reads s (f s) post) :
    Reads s (MonadState.get >>= f) post := hf

/-- Reading takes the next token, if it does not have too many digits. -/
theorem advance {f : Unit → ParseM β} (h : Regular s.upcoming) (small : ¬s.next.IsOversized)
    (hf : Reads s.advance (f ()) post) : Reads s (Parser.advance >>= f) post := by
  have := after (leads_advance h small) hf
  exact this

/-- A diagnostic is recorded where the state is. -/
theorem record {f : Unit → ParseM β} {cause : DiagnosticCause} {position : Int}
    (h : Regular s.upcoming) (hf : Reads (s.record cause position) (f ()) post) :
    Reads s (Parser.record cause position >>= f) post := by
  have := after (leads_record h cause position) hf
  exact this

/-- Reading takes the first characters of the next token. -/
theorem advanceBy {n : Nat} {f : Unit → ParseM β} (leads : s.Leads (s.advanceBy n))
    (hf : Reads (s.advanceBy n) (f ()) post) : Reads s (Parser.advanceBy n >>= f) post := by
  have := after leads hf
  exact this

/-- Read a token that is not a numeral, or diagnose its absence. -/
theorem expect {kind : TokenKind} {f : Option Token → ParseM β} (h : Regular s.upcoming)
    (notNumeral : kind ≠ .integer)
    (found : s.next.kind = kind → Reads s.advance (f (some s.next)) post)
    (missing : ∀ t, s.Leads t → ¬t.Clean → Reads t (f none) post) :
    Reads s (Parser.expect kind >>= f) post := by
  unfold Reads
  rw [EStateM.run_bind, run_expect]
  by_cases hk : s.next.kind = kind
  · rw [if_pos hk]
    exact after (leads_advance h fun big => notNumeral (hk ▸ big.1)) (found hk)
  · have leads := leads_record h (.unexpectedToken s.next kind) s.next.position
    rw [if_neg hk]
    exact after leads (missing _ leads (not_clean_record _ _))

end Reads

/-! ## Numerals -/

/-- A numeral among regular tokens is a natural number, unless it has too many digits. -/
theorem read_of_regular {token : Token} {tokens : List Token} (h : Regular (token :: tokens))
    (kind : token.kind = .integer) :
    if Numeral.maxDigits < token.text.length then Numeral.read token.text = .error .tooManyDigits
    else ∃ n : Nat, Numeral.read token.text = .ok n := by
  have digits := h.numerals token (by simp) kind
  rw [Numeral.read_of_isDigits digits]
  split
  · rfl
  · exact ⟨_, rfl⟩

/-- A numeral is read, or its place is diagnosed and zero stands in for it. -/
theorem reads_integer (h : Regular s.upcoming) :
    Reads s Parser.integer fun n t =>
      ∃ k : Nat, n = k ∧ (t.Clean → Grammar.Integer s.upcoming k t.upcoming) := by
  unfold Reads
  rw [Parser.integer, EStateM.run_bind, run_expect]
  by_cases kind : s.next.kind = .integer
  · have notEnd : s.next.kind ≠ .endOfInput := by rw [kind]; decide
    obtain ⟨hu, hr⟩ := upcoming_advance h notEnd
    have value := read_of_regular h kind
    rw [if_pos kind]
    simp only [Parser.numeral]
    -- A numeral that is too long stops the parser, at a token that is still ahead.
    split at value
    · next big =>
      rw [value]
      exact ⟨rfl, s.next, List.mem_cons_self, ⟨kind, big⟩, by rw [hr]; exact List.mem_cons_self⟩
    · next small =>
      obtain ⟨n, hn⟩ := value
      rw [hn]
      refine ⟨leads_advance h fun big => small big.2, n, rfl, fun _ => ?_⟩
      rw [hu]
      exact .intro kind hn
  · rw [if_neg kind]
    -- Another token leaves a diagnostic, so there is nothing to be derived.
    refine ⟨leads_record h _ _, 0, rfl, fun clean => ?_⟩
    exact absurd clean (not_clean_record _ _)

/-- What is read as a literal is a numeral of the grammar. -/
theorem reads_literal (h : Regular s.upcoming) :
    Reads s Parser.literal fun node t =>
      ∃ k : Nat, node = .integer k ∧ (t.Clean → Grammar.Integer s.upcoming k t.upcoming) := by
  refine (reads_integer h).bind fun n t leads found => ?_
  obtain ⟨k, hk, derives⟩ := found
  exact .pure leads.regular ⟨k, by rw [hk], derives⟩

end DiceNotation
