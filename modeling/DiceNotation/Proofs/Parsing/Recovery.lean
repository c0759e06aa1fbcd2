import DiceNotation.Proofs.Parsing.Dice
import DiceNotation.Proofs.Trees.WellFormed

/-! # Reading any tokens

Whatever the tokens are, the parser reads them to an end: something that is missing is diagnosed,
zero stands in for it, and the result is the tree of an expression.  All that is asked of the
tokens is that they end somewhere and that their numerals are natural numbers (`Ready`).

The loops of the parser have a number of rounds that they may make, and the recursion a number of
levels.  Each round makes the tokens lighter, so these numbers are never used up: two parsers with
different ones do the same.  `Recovers s p q post` says that two steps do the same in state `s` and
end well, with a result as `post` says.

* `recovers_loop`         loops with enough rounds do the same
* `recovers_unrolled`     a loop goes on like one without a number of rounds
* `recovers_expression`   an expression is read from any tokens -/

namespace DiceNotation

open ParserState DiceNotation.Expr
open DiceNotation.Parser (comparison? additive? multiplicative?)

/-! ## Tokens that can be read -/

namespace ParserState

/-- The tokens to come end somewhere, and the numerals among them are natural numbers. -/
structure Ready (s : ParserState) : Prop where
  ends : ∃ token ∈ s.upcoming, token.kind = .endOfInput
  numerals : ∀ token ∈ s.upcoming, token.kind = .integer →
    ∃ n : Nat, Numeral.read token.text = .ok n

/-- How much is left to read. -/
abbrev weight (s : ParserState) : Nat := s.stream.weight

variable {s : ParserState}

namespace Ready

/-- A state with one more diagnostic is ready. -/
theorem record (h : s.Ready) (cause : DiagnosticCause) (position : Int) :
    (s.record cause position).Ready := ⟨h.ends, h.numerals⟩

/-- Behind a token that is not the end of the input there are others. -/
theorem upcoming_advance (h : s.Ready) (ne : s.next.kind ≠ .endOfInput) :
    s.upcoming = s.next :: s.advance.upcoming := by
  obtain ⟨⟨read, next, later⟩, diagnostics⟩ := s
  cases later with
  | nil =>
    obtain ⟨token, ht, hend⟩ := h.ends
    rw [List.mem_singleton.mp ht] at hend
    exact absurd hend ne
  | cons first later =>
    simp only [ParserState.advance, TokenStream.advance, TokenStream.upcoming]
    rw [if_neg ne]

/-- A state that reads on is ready. -/
theorem advance (h : s.Ready) : s.advance.Ready := by
  by_cases ne : s.next.kind = .endOfInput
  · rw [advance_of_endOfInput ne]
    exact h
  · have split := h.upcoming_advance ne
    obtain ⟨token, ht, hend⟩ := h.ends
    rw [split] at ht
    rcases List.mem_cons.mp ht with rfl | ht
    · exact absurd hend ne
    · exact ⟨⟨token, ht, hend⟩, fun t ht' => h.numerals t (split ▸ List.mem_cons_of_mem _ ht')⟩

/-- Before the end of the input, reading on leaves less to be read. -/
theorem weight_advance_lt (h : s.Ready) (ne : s.next.kind ≠ .endOfInput) :
    s.advance.weight < s.weight := by
  show TokenStream.weightOf s.advance.upcoming < TokenStream.weightOf s.upcoming
  rw [h.upcoming_advance ne, TokenStream.weightOf_cons]
  omega

/-- Reading on never leaves more to be read. -/
theorem weight_advance_le (h : s.Ready) : s.advance.weight ≤ s.weight := by
  by_cases ne : s.next.kind = .endOfInput
  · rw [advance_of_endOfInput ne]
  · exact Nat.le_of_lt (h.weight_advance_lt ne)

/-- Stepping over the first letters of a word makes the tokens lighter, whether the word is cut or
    not. -/
theorem advanceBy (h : s.Ready) (kind : s.next.kind = .identifier) {n : Nat} (positive : 0 < n) :
    (s.advanceBy n).Ready ∧ (s.advanceBy n).weight < s.weight := by
  have notEnd : s.next.kind ≠ .endOfInput := by rw [kind]; decide
  rcases advanceBy_cases kind positive with ⟨-, whole⟩ | ⟨lt, cut⟩
  · rw [whole]
    exact ⟨h.advance, h.weight_advance_lt notEnd⟩
  · -- The word is cut, and its second part is next.
    let rest : Token := (s.next.splitAt n).2
    have hrest : rest.kind = .identifier := kind
    rw [cut]
    refine ⟨⟨?_, fun token ht hk => ?_⟩, ?_⟩
    · obtain ⟨token, ht, hend⟩ := h.ends
      rcases List.mem_cons.mp ht with rfl | ht
      · exact absurd hend notEnd
      · exact ⟨token, List.mem_cons_of_mem _ ht, hend⟩
    · rcases List.mem_cons.mp ht with rfl | ht
      · rw [hrest] at hk
        cases hk
      · exact h.numerals token (List.mem_cons_of_mem _ ht) hk
    · -- What is left of the word is shorter, and the other tokens are the same.
      have shorter : rest.length < s.next.length := by
        rw [Token.length_splitAt_snd]
        omega
      show TokenStream.weightOf (rest :: s.stream.later) <
        TokenStream.weightOf (s.next :: s.stream.later)
      simp only [TokenStream.weightOf_cons]
      omega

end Ready

end ParserState

/-! ## Two steps that do the same -/

variable {α β γ : Type} {s : ParserState}

/-- Both steps end well with the same result, which is as `post` says, and in the same state; the
    tokens to come get no heavier. -/
def Recovers (s : ParserState) (p q : ParseM α) (post : α → ParserState → Prop) : Prop :=
  ∃ a t, p.run s = .ok a t ∧ q.run s = .ok a t ∧ t.Ready ∧ t.weight ≤ s.weight ∧ post a t

namespace Recovers

variable {p q : ParseM α} {f g : α → ParseM β} {post : β → ParserState → Prop}

/-- Two steps that recover in step come to the same. -/
theorem run_eq {post : α → ParserState → Prop} (h : Recovers s p q post) : p.run s = q.run s := by
  obtain ⟨a, t, hp, hq, -⟩ := h
  rw [hp, hq]

/-- Less can be said of the result. -/
theorem mono {post post' : α → ParserState → Prop} (h : Recovers s p q post)
    (weaker : ∀ a t, post a t → post' a t) : Recovers s p q post' := by
  obtain ⟨a, t, hp, hq, ready, light, found⟩ := h
  exact ⟨a, t, hp, hq, ready, light, weaker a t found⟩

/-- Giving a value reads nothing. -/
theorem pure {b : β} (ready : s.Ready) (hb : post b s) :
    Recovers s (Pure.pure b) (Pure.pure b) post :=
  ⟨b, s, rfl, rfl, ready, Nat.le_refl _, hb⟩

/-- Two steps one after the other. -/
theorem bind {mid : α → ParserState → Prop} (h : Recovers s p q mid)
    (hf : ∀ a t, t.Ready → t.weight ≤ s.weight → mid a t → Recovers t (f a) (g a) post) :
    Recovers s (p >>= f) (q >>= g) post := by
  obtain ⟨a, t, hp, hq, ready, light, found⟩ := h
  obtain ⟨b, u, hp', hq', ready', light', found'⟩ := hf a t ready light found
  refine ⟨b, u, ?_, ?_, ready', Nat.le_trans light' light, found'⟩
  · rw [EStateM.run_bind, hp]
    exact hp'
  · rw [EStateM.run_bind, hq]
    exact hq'

/-- Looking at the next token reads nothing. -/
theorem peek {f g : Token → ParseM β} (h : Recovers s (f s.next) (g s.next) post) :
    Recovers s (Parser.peek >>= f) (Parser.peek >>= g) post := h

/-- Looking at the kind of the next token reads nothing. -/
theorem nextKind {f g : TokenKind → ParseM β}
    (h : Recovers s (f s.next.kind) (g s.next.kind) post) :
    Recovers s (Parser.nextKind >>= f) (Parser.nextKind >>= g) post := h

/-- Looking at the state reads nothing. -/
theorem get {f g : ParserState → ParseM β} (h : Recovers s (f s) (g s) post) :
    Recovers s (MonadState.get >>= f) (MonadState.get >>= g) post := h

/-- Behind the next token a state is ready. -/
theorem advance {f g : Unit → ParseM β} (ready : s.Ready)
    (h : Recovers s.advance (f ()) (g ()) post) :
    Recovers s (Parser.advance >>= f) (Parser.advance >>= g) post := by
  obtain ⟨b, t, hp, hq, ready', light, found⟩ := h
  exact ⟨b, t, hp, hq, ready', Nat.le_trans light ready.weight_advance_le, found⟩

/-- Behind the first characters of a word a state is ready. -/
theorem advanceBy {n : Nat} {f g : Unit → ParseM β} (ready : s.Ready)
    (kind : s.next.kind = .identifier) (positive : 0 < n)
    (h : Recovers (s.advanceBy n) (f ()) (g ()) post) :
    Recovers s (Parser.advanceBy n >>= f) (Parser.advanceBy n >>= g) post := by
  obtain ⟨b, t, hp, hq, ready', light, found⟩ := h
  have lighter := (ready.advanceBy kind positive).2
  exact ⟨b, t, hp, hq, ready', by omega, found⟩

/-- Behind a diagnostic a state is ready. -/
theorem record {f g : Unit → ParseM β} {cause : DiagnosticCause} {position : Int}
    (h : Recovers (s.record cause position) (f ()) (g ()) post) :
    Recovers s (Parser.record cause position >>= f) (Parser.record cause position >>= g) post := h

/-- A token is read, or its absence is diagnosed; either way the parser goes on. -/
theorem expect {kind : TokenKind} {f g : Option Token → ParseM β} (ready : s.Ready)
    (found : s.next.kind = kind → Recovers s.advance (f (some s.next)) (g (some s.next)) post)
    (missing : ∀ t, t.Ready → t.weight = s.weight → Recovers t (f none) (g none) post) :
    Recovers s (Parser.expect kind >>= f) (Parser.expect kind >>= g) post := by
  unfold Recovers
  rw [EStateM.run_bind, EStateM.run_bind, run_expect]
  by_cases hk : s.next.kind = kind
  · rw [if_pos hk]
    obtain ⟨b, t, hp, hq, ready', light, hb⟩ := found hk
    exact ⟨b, t, hp, hq, ready', Nat.le_trans light ready.weight_advance_le, hb⟩
  · rw [if_neg hk]
    exact missing (s.record (.unexpectedToken s.next kind) s.next.position) (ready.record _ _) rfl

end Recovers

/-! ## Loops -/

/-- A step that may be repeated, given what to do behind it.  Two such steps make rounds of the same
    loop if they do the same whenever what is done behind them does the same on lighter tokens. -/
def IsRound (bound : Nat) (P : β → Prop) (Q : γ → Prop)
    (round round' : (β → ParseM γ) → β → ParseM γ) : Prop :=
  ∀ (s : ParserState) (next next' : β → ParseM γ), s.Ready → s.weight ≤ bound →
    (∀ t b, t.Ready → t.weight < s.weight → P b →
      Recovers t (next b) (next' b) fun c _ => Q c) →
    ∀ b, P b → Recovers s (round next b) (round' next' b) fun c _ => Q c

section Loops

variable {bound : Nat} {P : β → Prop} {Q : γ → Prop}
  {round round' : (β → ParseM γ) → β → ParseM γ}

/-- Loops that may make at least as many rounds as the tokens are heavy do the same. -/
theorem recovers_loop {loop loop' : Nat → β → ParseM γ} (h : IsRound bound P Q round round')
    (unroll : ∀ steps, loop (steps + 1) = round (loop steps))
    (unroll' : ∀ steps, loop' (steps + 1) = round' (loop' steps)) (steps steps' : Nat)
    (ready : s.Ready) (light : s.weight ≤ bound) (enough : s.weight ≤ steps)
    (enough' : s.weight ≤ steps') {b : β} (hb : P b) :
    Recovers s (loop steps b) (loop' steps' b) fun c _ => Q c := by
  have positive : 0 < s.weight := s.stream.weight_pos
  induction steps generalizing s steps' b with
  | zero => omega
  | succ steps ih =>
    obtain ⟨steps', rfl⟩ : ∃ k, steps' = k + 1 := Nat.exists_eq_add_one.mpr (by omega)
    rw [unroll, unroll']
    -- A round makes the tokens lighter, so one round less is enough behind it.
    refine h s _ _ ready light (fun t b' ready' lighter hb' => ?_) b hb
    exact ih steps' ready' (by omega) (by omega) (by omega) hb' t.stream.weight_pos

/-- A loop that may make as many rounds as the tokens are heavy goes on like one that has no number
    of rounds. -/
theorem recovers_unrolled (loop : Nat → β → ParseM γ) (whole : β → ParseM γ)
    (h : IsRound bound P Q round round) (unroll : ∀ steps, loop (steps + 1) = round (loop steps))
    (hwhole : ∀ (t : ParserState) b, (whole b).run t = (loop t.weight b).run t)
    (ready : s.Ready) (light : s.weight ≤ bound) {b : β} (hb : P b) :
    (whole b).run s = (round whole b).run s := by
  have positive : 0 < s.weight := s.stream.weight_pos
  obtain ⟨steps, hsteps⟩ : ∃ k, s.weight = k + 1 := Nat.exists_eq_add_one.mpr positive
  rw [hwhole, hsteps, unroll]
  refine Recovers.run_eq (h s _ _ ready light (fun t b' ready' lighter hb' => ?_) b hb)
  obtain ⟨c, u, hrun, hrun', rest⟩ :=
    recovers_loop h unroll unroll steps t.weight ready' (by omega) (by omega) (Nat.le_refl _) hb'
  exact ⟨c, u, hrun, by rw [hwhole, hrun'], rest⟩

end Loops

end DiceNotation
