import DiceNotation.Proofs.Parsing.Bisimulation
import DiceNotation.Proofs.Tokenization

/-! # Where diagnostics point

The lexer's diagnostics come first, from left to right, and the parser's follow, again from left to
right: the parser never records a position that lies before one that it has recorded.  Each position
is that of a token, or a place inside a word where the parser has cut it.

The invariant of the parser's state is `Tracked`.  Its tokens are those of the text, where some
words are cut into parts, and no diagnostic points behind the next token.

* `Tracked.cut`         a word is cut
* `isBisimulation_tracked`   every step of the parser keeps the invariant
* `parse_diagnostics`   the diagnostics of a text -/

namespace DiceNotation

open ParserState
open Lexer (scan)
open Lexing (Covers covers_iff_scan cut_zero scan_ends)

/-! ## Tokens and their parts -/

namespace Token

/-- The first token ends where the second one begins, or before. -/
def Precedes (a b : Token) : Prop := a.position + a.length ≤ b.position

/-- The token is a part of a word, and its position is the place where it stands in the word. -/
structure IsPartOf (part word : Token) : Prop where
  isWord : word.kind = .identifier
  kind : part.kind = .identifier
  nonempty : 0 < part.length
  slice : ∃ start : Nat, part.position = word.position + start ∧
    part.text.toList <+: word.text.toList.drop start

variable {part word token : Token} {n : Nat}

/-- A word that is not empty is a part of itself. -/
private theorem isPartOf_self (kind : word.kind = .identifier) (nonempty : 0 < word.length) :
    word.IsPartOf word :=
  ⟨kind, kind, nonempty, 0, by simp, by simp⟩

/-- The first part of a part is a part. -/
private theorem IsPartOf.fst (h : part.IsPartOf word) (positive : 0 < n) (lt : n < part.length) :
    (part.splitAt n).1.IsPartOf word where
  isWord := h.isWord
  kind := h.kind
  nonempty := by
    rw [length_splitAt_fst (Nat.le_of_lt lt)]
    exact positive
  slice := by
    obtain ⟨start, position, slice⟩ := h.slice
    refine ⟨start, position, ?_⟩
    rw [splitAt, String.toList_ofList]
    exact (List.take_prefix n _).trans slice

/-- The second part of a part is a part. -/
private theorem IsPartOf.snd (h : part.IsPartOf word) (lt : n < part.length) :
    (part.splitAt n).2.IsPartOf word where
  isWord := h.isWord
  kind := h.kind
  nonempty := by
    rw [length_splitAt_snd]
    omega
  slice := by
    obtain ⟨start, position, behind, slice⟩ := h.slice
    -- The second part begins as far behind the first one as that is long.
    refine ⟨start + n, ?_, behind, ?_⟩
    · simp only [splitAt, position]
      omega
    · have le : n ≤ part.text.toList.length := by
        rw [String.length_toList]
        exact Nat.le_of_lt lt
      rw [splitAt, String.toList_ofList, ← List.drop_drop, ← slice,
        List.drop_append_of_le_length le]

/-- A part lies within its word. -/
private theorem IsPartOf.end_le (h : part.IsPartOf word) :
    word.position ≤ part.position ∧
      part.position + part.length ≤ word.position + word.length := by
  obtain ⟨start, position, slice⟩ := h.slice
  have short := slice.length_le
  rw [List.length_drop, String.length_toList, String.length_toList] at short
  have nonempty := h.nonempty
  simp only [length] at nonempty ⊢
  omega

/-- Cutting a token leaves the tokens in order. -/
private theorem pairwise_cut {before behind : List Token} (le : n ≤ token.length)
    (h : (before ++ token :: behind).Pairwise Precedes) :
    (before ++ (token.splitAt n).1 :: (token.splitAt n).2 :: behind).Pairwise Precedes := by
  obtain ⟨hbefore, htoken, across⟩ := List.pairwise_append.mp h
  obtain ⟨first, hbehind⟩ := List.pairwise_cons.mp htoken
  -- Both parts lie within the token, so that what ends before it or begins behind it still does.
  have starts : (token.splitAt n).1.position = token.position := rfl
  have goesOn : (token.splitAt n).2.position = token.position + n := rfl
  have parts : Precedes (token.splitAt n).1 (token.splitAt n).2 := by
    rw [Precedes, length_splitAt_fst le, starts, goesOn]
  have later (other : Token) (h : token.Precedes other) : (token.splitAt n).2.Precedes other := by
    rw [Precedes, length_splitAt_snd, goesOn]
    rw [Precedes] at h
    omega
  have earlier (other : Token) (h : other.Precedes token) : other.Precedes (token.splitAt n).2 := by
    rw [Precedes, goesOn]
    rw [Precedes] at h
    omega
  refine List.pairwise_append.mpr ⟨hbefore, ?_, ?_⟩
  · refine List.pairwise_cons.mpr ⟨?_, List.pairwise_cons.mpr ⟨?_, hbehind⟩⟩
    · refine List.forall_mem_cons.mpr ⟨parts, fun other hother => ?_⟩
      have := first other hother
      rw [Precedes] at this ⊢
      rw [length_splitAt_fst le, starts]
      omega
    · exact fun other hother => later other (first other hother)
  · intro other hother
    have := across other hother token List.mem_cons_self
    refine List.forall_mem_cons.mpr ⟨this, List.forall_mem_cons.mpr ⟨earlier other this, ?_⟩⟩
    exact fun last hlast => across other hother last (List.mem_cons_of_mem _ hlast)

end Token

/-! ## The tokens of a text -/

/-- The tokens of a text cover it and end behind it. -/
private theorem covers_lex (text : String) :
    ∃ body, lex text = body ++ [Token.endAt text.length] ∧ Covers text.toList 0 body := by
  obtain ⟨body, ends⟩ := scan_ends text.toList 0 0
  rw [Nat.zero_add, String.length_toList] at ends
  have whole : Covers text.toList 0 body ↔ _ :=
    covers_iff_scan cut_zero (Nat.zero_le text.toList.length)
  rw [List.drop_zero, String.length_toList] at whole
  exact ⟨body, ends, whole.mpr ends⟩

/-- A token stands in the text, and a word is not empty. -/
private theorem bounds_of_mem_lex {text : String} {token : Token} (h : token ∈ lex text) :
    0 ≤ token.position ∧ token.position + token.length ≤ text.length ∧
      (token.kind ≠ .endOfInput → 0 < token.length) := by
  obtain ⟨body, split, covers⟩ := covers_lex text
  rw [split, List.mem_append, List.mem_singleton] at h
  rcases h with h | rfl
  · obtain ⟨i, -, fits⟩ := covers.fits token h
    have := fits.end_le
    rw [String.length_toList] at this
    rw [fits.position]
    exact ⟨by omega, by omega, fun _ => fits.positive⟩
  · exact ⟨Int.natCast_nonneg _, Int.le_refl _, fun h => absurd rfl h⟩

/-- The tokens of a text come one behind the other. -/
private theorem pairwise_lex (text : String) : (lex text).Pairwise Token.Precedes := by
  obtain ⟨body, split, covers⟩ := covers_lex text
  rw [split]
  refine List.pairwise_append.mpr ⟨covers.ordered, List.pairwise_singleton .., ?_⟩
  intro token h
  refine List.forall_mem_singleton.mpr ?_
  obtain ⟨-, le, -⟩ := bounds_of_mem_lex (split ▸ List.mem_append_left _ h : token ∈ lex text)
  exact le

/-- No two tokens begin at the same place. -/
theorem positions_lex (text : String) : (lex text).Pairwise fun a b => a.position < b.position := by
  obtain ⟨body, split, covers⟩ := covers_lex text
  rw [split]
  -- Tokens are not empty and do not overlap, and the end of the input is behind them all.
  refine List.pairwise_append.mpr ⟨?_, List.pairwise_singleton .., fun token mem => ?_⟩
  · refine covers.ordered.imp_of_mem fun {token _} mem _ precedes => ?_
    obtain ⟨i, -, fits⟩ := covers.fits token mem
    have := fits.positive
    omega
  · obtain ⟨i, -, fits⟩ := covers.fits token mem
    have bound := fits.end_le
    have := fits.positive
    rw [String.length_toList] at bound
    refine List.forall_mem_singleton.mpr ?_
    rw [fits.position]
    exact Int.ofNat_lt.mpr (by omega)

/-- The end of the input stands behind the whole text. -/
private theorem eq_endAt_of_mem_lex {text : String} {token : Token} (h : token ∈ lex text)
    (atEnd : token.kind = .endOfInput) : token = .endAt text.length := by
  obtain ⟨body, split, -⟩ := covers_lex text
  obtain ⟨before, last, split', -, inner⟩ := (regular_lex text).ends
  have same := List.append_inj' (split.symm.trans split') rfl
  rw [split, List.mem_append, List.mem_singleton] at h
  rcases h with h | rfl
  · exact absurd atEnd (inner token (same.1 ▸ h))
  · rfl

/-! ## Tokens in the course of parsing -/

/-- The diagnostic says that something follows the expression. -/
def Diagnostic.IsTrailing (d : Diagnostic) : Prop := ∃ token, d.cause = .trailingInput token

/-- Trailing input is told by its code. -/
private theorem Diagnostic.isTrailing_iff {d : Diagnostic} :
    d.IsTrailing ↔ d.code = "E-PARSE-TRAILING-INPUT" := by
  obtain ⟨cause, position⟩ := d
  cases cause <;> simp [IsTrailing, code]

/-- The token is one of the text or a part of one of its words; before a part that does not begin
    the word, another part ends. -/
def Placed (text : String) (tokens : List Token) (token : Token) : Prop :=
  token ∈ lex text ∨ ∃ word ∈ lex text, token.IsPartOf word ∧
    (token.position = word.position ∨
      ∃ left ∈ tokens, left.IsPartOf word ∧ left.position + left.length = token.position)

namespace Placed

variable {text : String} {tokens tokens' : List Token} {token : Token}

/-- Where the same words have parts that end at the same places, the same tokens are placed. -/
theorem mono (h : Placed text tokens token)
    (keep : ∀ left ∈ tokens, ∃ left' ∈ tokens', (∀ word, left.IsPartOf word → left'.IsPartOf word) ∧
      left'.position + left'.length = left.position + left.length) : Placed text tokens' token := by
  rcases h with whole | ⟨word, hword, part, first | ⟨left, hleft, isPart, ends⟩⟩
  · exact .inl whole
  · exact .inr ⟨word, hword, part, .inl first⟩
  · obtain ⟨left', hleft', still, same⟩ := keep left hleft
    exact .inr ⟨word, hword, part, .inr ⟨left', hleft', still word isPart, same.trans ends⟩⟩

/-- A word of the text is a part of itself. -/
private theorem isPart (h : Placed text tokens token) (kind : token.kind = .identifier) :
    ∃ word ∈ lex text, token.IsPartOf word ∧
      (token.position = word.position ∨
        ∃ left ∈ tokens, left.IsPartOf word ∧ left.position + left.length = token.position) := by
  rcases h with whole | part
  · have nonempty := (bounds_of_mem_lex whole).2.2 (by rw [kind]; decide)
    exact ⟨token, whole, Token.isPartOf_self kind nonempty, .inl rfl⟩
  · exact part

/-- A token that has its place lies within the text. -/
private theorem bounds (h : Placed text tokens token) :
    0 ≤ token.position ∧ token.position ≤ text.length := by
  rcases h with whole | ⟨word, hword, part, -⟩
  · obtain ⟨low, high, -⟩ := bounds_of_mem_lex whole
    exact ⟨low, by omega⟩
  · obtain ⟨low, high, -⟩ := bounds_of_mem_lex hword
    have := part.end_le
    exact ⟨by omega, by omega⟩

end Placed

/-- What the parser has recorded: from left to right, and not behind the next token. -/
structure Reported (s : ParserState) (found : List Diagnostic) : Prop where
  ordered : found.Pairwise fun d d' => d.position ≤ d'.position
  reached : ∀ d ∈ found, d.position ≤ s.next.position
  placed : ∀ d ∈ found, ∃ token ∈ s.stream.tokens, token.position = d.position
  parser : ∀ d ∈ found, d.phase = .parser ∧ ¬d.IsTrailing

/-- The state of the parser in the course of reading a text. -/
structure Tracked (text : String) (s : ParserState) : Prop where
  ordered : s.stream.tokens.Pairwise Token.Precedes
  placed : ∀ token ∈ s.stream.tokens, Placed text s.stream.tokens token
  reported : ∃ found, s.diagnostics = lexDiagnostics (lex text) ++ found ∧ Reported s found

variable {text : String} {s t : ParserState}

/-- All tokens are those that were read, the next one and the later ones. -/
private theorem tokens_eq (s : ParserState) :
    s.stream.tokens = s.stream.read.reverse ++ s.next :: s.stream.later := rfl

/-- The next token is among the tokens. -/
private theorem next_mem_tokens (s : ParserState) : s.next ∈ s.stream.tokens :=
  List.mem_append_right _ List.mem_cons_self

/-- Stepping over a token does not lead back. -/
private theorem position_le_advance (h : s.stream.tokens.Pairwise Token.Precedes) :
    s.next.position ≤ s.advance.next.position := by
  rcases advance_cases s with same | ⟨first, later, behind, ahead⟩
  · rw [same]
  · rw [tokens_eq, behind] at h
    obtain ⟨-, h, -⟩ := List.pairwise_append.mp h
    have : s.next.Precedes first := (List.pairwise_cons.mp h).1 first List.mem_cons_self
    rw [Token.Precedes] at this
    rw [ahead]
    show s.next.position ≤ first.position
    omega

namespace Tracked

/-- A state stays tracked when it reads on. -/
theorem advance (h : Tracked text s) : Tracked text s.advance := by
  have same : s.advance.stream.tokens = s.stream.tokens := TokenStream.tokens_advance _
  obtain ⟨found, split, reported⟩ := h.reported
  have forward := position_le_advance h.ordered
  refine ⟨by rw [same]; exact h.ordered, by rw [same]; exact h.placed, found, split, ?_⟩
  refine ⟨reported.ordered, fun d hd => ?_, by rw [same]; exact reported.placed, reported.parser⟩
  exact Int.le_trans (reported.reached d hd) forward

/-- Cutting the next word, and stepping over its first part. -/
theorem cut (h : Tracked text s) (kind : s.next.kind = .identifier) {n : Nat} (positive : 0 < n) :
    Tracked text (s.advanceBy n) := by
  -- If the letters are the whole word, it is read as any other token.
  rcases advanceBy_cases kind positive with ⟨-, same⟩ | ⟨lt, ahead⟩
  · rw [same]
    exact h.advance
  let left := (s.next.splitAt n).1
  let right := (s.next.splitAt n).2
  have starts : left.position = s.next.position := rfl
  have tokens : (s.advanceBy n).stream.tokens =
      s.stream.read.reverse ++ left :: right :: s.stream.later := by
    rw [ahead, tokens_eq]
    simp [left, right, ParserState.next]
  -- The tokens are the old ones, with the two parts in place of the word.
  have mem_iff (token : Token) : token ∈ (s.advanceBy n).stream.tokens ↔
      token ∈ s.stream.read ∨ token = left ∨ token = right ∨ token ∈ s.stream.later := by
    rw [tokens]
    simp
  have mem_old (token : Token) : token ∈ s.stream.tokens ↔
      token ∈ s.stream.read ∨ token = s.next ∨ token ∈ s.stream.later := by
    rw [tokens_eq]
    simp
  have hleft : left ∈ (s.advanceBy n).stream.tokens := (mem_iff _).mpr (.inr (.inl rfl))
  have hright : right ∈ (s.advanceBy n).stream.tokens := (mem_iff _).mpr (.inr (.inr (.inl rfl)))
  -- Where a part ended, a part still ends.
  have keep : ∀ token ∈ s.stream.tokens, ∃ token' ∈ (s.advanceBy n).stream.tokens,
      (∀ word, token.IsPartOf word → token'.IsPartOf word) ∧
        token'.position + token'.length = token.position + token.length := by
    intro token htoken
    rcases (mem_old token).mp htoken with read | rfl | later
    · exact ⟨token, (mem_iff _).mpr (.inl read), fun _ => id, rfl⟩
    · refine ⟨right, hright, fun word part => part.snd lt, ?_⟩
      show s.next.position + n + (right.length : Int) = _
      rw [Token.length_splitAt_snd]
      omega
    · exact ⟨token, (mem_iff _).mpr (.inr (.inr (.inr later))), fun _ => id, rfl⟩
  obtain ⟨word, hword, part, place⟩ := ((h.placed _ (next_mem_tokens s)).mono keep).isPart kind
  obtain ⟨found, split, reported⟩ := h.reported
  -- Of the two parts the first begins where the word did, the second where the first one ends.
  refine ⟨?_, fun token htoken => ?_, found, by rw [ahead]; exact split, reported.ordered, ?_, ?_,
    reported.parser⟩
  · rw [tokens]
    exact Token.pairwise_cut (Nat.le_of_lt lt) h.ordered
  · rcases (mem_iff token).mp htoken with read | rfl | rfl | later
    · exact (h.placed token ((mem_old token).mpr (.inl read))).mono keep
    · exact .inr ⟨word, hword, part.fst positive lt, place⟩
    · refine .inr ⟨word, hword, part.snd lt, .inr ⟨left, hleft, part.fst positive lt, ?_⟩⟩
      rw [Token.length_splitAt_fst (Nat.le_of_lt lt)]
      rfl
    · exact (h.placed token ((mem_old token).mpr (.inr (.inr later)))).mono keep
  · intro d hd
    have := reported.reached d hd
    rw [ahead]
    show d.position ≤ s.next.position + n
    omega
  · intro d hd
    obtain ⟨token, htoken, position⟩ := reported.placed d hd
    rcases (mem_old token).mp htoken with read | rfl | later
    · exact ⟨token, (mem_iff _).mpr (.inl read), position⟩
    · exact ⟨left, hleft, position⟩
    · exact ⟨token, (mem_iff _).mpr (.inr (.inr (.inr later))), position⟩

/-- A diagnostic at a token that the parser has not passed before. -/
theorem record (h : Tracked text s) {cause : DiagnosticCause} {position : Int}
    (reached : ∀ found, s.diagnostics = lexDiagnostics (lex text) ++ found →
      ∀ d ∈ found, d.position ≤ position) (le : position ≤ s.next.position)
    (placed : ∃ token ∈ s.stream.tokens, token.position = position)
    (parser : (Diagnostic.mk cause position).phase = .parser ∧
      ¬(Diagnostic.mk cause position).IsTrailing) :
    Tracked text (s.record cause position) := by
  obtain ⟨found, split, reported⟩ := h.reported
  refine ⟨h.ordered, h.placed, found ++ [⟨cause, position⟩], ?_, ?_, ?_, ?_, ?_⟩
  · show s.diagnostics ++ _ = _
    rw [split, List.append_assoc]
  · refine List.pairwise_append.mpr ⟨reported.ordered, List.pairwise_singleton .., fun d hd => ?_⟩
    exact List.forall_mem_singleton.mpr (reached found split d hd)
  · exact List.forall_mem_append.mpr ⟨reported.reached, List.forall_mem_singleton.mpr le⟩
  · exact List.forall_mem_append.mpr ⟨reported.placed, List.forall_mem_singleton.mpr placed⟩
  · exact List.forall_mem_append.mpr ⟨reported.parser, List.forall_mem_singleton.mpr parser⟩

/-- What was found lies no further on than the next token. -/
private theorem reached (h : Tracked text s) {found : List Diagnostic}
    (split : s.diagnostics = lexDiagnostics (lex text) ++ found) :
    ∀ d ∈ found, d.position ≤ s.next.position := by
  obtain ⟨found', split', reported⟩ := h.reported
  obtain rfl := List.append_cancel_left (split.symm.trans split')
  exact reported.reached

end Tracked

/-- Every step of the parser keeps the invariant. -/
theorem isBisimulation_tracked (text : String) :
    IsBisimulation fun s s' => s' = s ∧ Tracked text s where
  kind := by
    rintro s _ ⟨rfl, -⟩
    rfl
  text := by
    rintro s _ ⟨rfl, -⟩
    rfl
  weight := by
    rintro s _ ⟨rfl, -⟩
    rfl
  advance := by
    rintro s _ ⟨rfl, h⟩
    exact ⟨rfl, h.advance⟩
  cut := by
    rintro s _ ⟨rfl, h⟩ kind n positive
    exact ⟨rfl, h.cut kind positive⟩
  missing := by
    rintro s _ ⟨rfl, h⟩ expected
    -- The token that was found is next, and no diagnostic points behind it.
    exact ⟨rfl, h.record (fun found => h.reached) (Int.le_refl _) ⟨_, next_mem_tokens _, rfl⟩
      ⟨rfl, nofun⟩⟩
  unknownDice := by
    rintro _ s ⟨rfl, h⟩ -
    -- The word has been stepped over when it is recorded, so the next token lies behind it.
    have forward := position_le_advance h.ordered
    refine ⟨rfl, h.advance.record (fun found => h.reached) forward ⟨s.next, ?_, rfl⟩ ⟨rfl, nofun⟩⟩
    rw [show s.advance.stream.tokens = s.stream.tokens from TokenStream.tokens_advance _]
    exact next_mem_tokens s

/-- At the start of a text a state is tracked. -/
private theorem tracked_ofText (text : String) : Tracked text (ofText text) := by
  have tokens : (ofText text).stream.tokens = lex text := by
    obtain ⟨upcoming, read⟩ := upcoming_ofTokens (regular_lex text)
    show (TokenStream.ofTokens (lex text)).tokens = lex text
    rw [TokenStream.tokens, read, upcoming]
    rfl
  -- The parser has reported nothing yet.
  have nothing : Reported (ofText text) [] :=
    ⟨.nil, List.forall_mem_nil _, List.forall_mem_nil _, List.forall_mem_nil _⟩
  refine ⟨?_, fun token mem => ?_, [], (List.append_nil _).symm, nothing⟩
  · rw [tokens]
    exact pairwise_lex text
  · rw [tokens] at mem
    exact .inl mem

/-! ## Whole texts -/

/-- A token of the text begins at the position, the end of the input among them, or a word of the
    text was cut there into parts that the parser has read one after the other. -/
def IsPlace (text : String) (tokens : List Token) (position : Int) : Prop :=
  (∃ token ∈ lex text, token.position = position) ∨
  ∃ word ∈ lex text, ∃ left ∈ tokens, ∃ right ∈ tokens, left.IsPartOf word ∧ right.IsPartOf word ∧
    left.position + left.length = position ∧ right.position = position

/-- A token that has its place gives its position a place. -/
private theorem Placed.isPlace {tokens : List Token} {token : Token} (h : Placed text tokens token)
    (mem : token ∈ tokens) : IsPlace text tokens token.position := by
  rcases h with whole | ⟨word, hword, part, first | ⟨left, hleft, isPart, ends⟩⟩
  · exact .inl ⟨token, whole, rfl⟩
  · exact .inl ⟨word, hword, first.symm⟩
  · exact .inr ⟨word, hword, left, hleft, token, mem, isPart, part, ends, rfl⟩

/-- The lexer's diagnostics stand at tokens of the text, from left to right. -/
private theorem ordered_lexDiagnostics (text : String) :
    (lexDiagnostics (lex text)).Pairwise (fun d d' => d.position < d'.position) ∧
      ∀ d ∈ lexDiagnostics (lex text), d.phase = .lexer ∧
        ∃ token ∈ lex text, token.position = d.position := by
  -- Each unknown token has one diagnostic, at its own place.
  have spec {token : Token} {d : Diagnostic} (h : Lexer.diagnostic? token = some d) :
      token.kind = .unknown ∧ d.phase = .lexer ∧ d.position = token.position := by
    unfold Lexer.diagnostic? at h
    split at h
    · next unknown =>
      obtain ⟨c, -, rfl⟩ := Option.map_eq_some_iff.mp h
      exact ⟨unknown, rfl, rfl⟩
    · cases h
  constructor
  · -- Tokens are in order, so their diagnostics are as well.
    refine List.pairwise_filterMap.mpr ((positions_lex text).imp ?_)
    intro token token' lt d hd d' hd'
    obtain ⟨-, -, position⟩ := spec hd
    obtain ⟨-, -, position'⟩ := spec hd'
    omega
  · intro d hd
    obtain ⟨token, mem, found⟩ := List.mem_filterMap.mp hd
    obtain ⟨-, phase, position⟩ := spec found
    exact ⟨phase, token, mem, position.symm⟩

/-- What follows the expression is recorded once, where it stands. -/
private theorem closing_spec (s : ParserState) :
    s.closing.Pairwise (fun d d' => d.position ≤ d'.position) ∧
      ∀ d ∈ s.closing, d.position = s.next.position ∧ d.phase = .parser := by
  unfold closing
  split
  · exact ⟨.nil, List.forall_mem_nil _⟩
  · exact ⟨List.pairwise_singleton .., List.forall_mem_singleton.mpr ⟨rfl, rfl⟩⟩

/-- What follows the expression is recorded last. -/
private theorem eq_nil_of_closing {inner : List Diagnostic} (hinner : ∀ d ∈ inner, ¬d.IsTrailing)
    {before behind : List Diagnostic} {d : Diagnostic}
    (split : inner ++ s.closing = before ++ d :: behind) (trailing : d.IsTrailing) :
    behind = [] := by
  unfold closing at split
  split at split
  · rw [List.append_nil] at split
    refine absurd trailing (hinner d ?_)
    rw [split]
    exact List.mem_append_right _ List.mem_cons_self
  · rcases List.eq_nil_or_concat behind with rfl | ⟨between, last, rfl⟩
    · rfl
    · -- Otherwise the diagnostic would be one of the others.
      rw [List.concat_eq_append, ← List.cons_append, ← List.append_assoc] at split
      refine absurd trailing (hinner d ?_)
      rw [(List.append_inj' split rfl).1]
      exact List.mem_append_right _ List.mem_cons_self

/-- No part of a word ends the input. -/
private theorem Tracked.next_eq_endAt (h : Tracked text s) (atEnd : s.next.kind = .endOfInput) :
    s.next = .endAt text.length := by
  rcases h.placed _ (next_mem_tokens s) with whole | ⟨word, -, part, -⟩
  · exact eq_endAt_of_mem_lex whole atEnd
  · rw [part.kind] at atEnd
    cases atEnd

/-- Where nothing follows the expression, all tokens but the last one have been read. -/
private theorem Tracked.upcoming_of_closing (h : Tracked text s) (regular : Regular s.upcoming)
    (none : s.closing = []) : s.upcoming = [.endAt text.length] := by
  unfold closing at none
  split at none
  · next atEnd =>
    rw [upcoming_eq, regular.eq_singleton atEnd, h.next_eq_endAt atEnd]
  · cases none

/-- Every token that the parser has had before it stands at a place in the text. -/
private theorem Tracked.isPlace (h : Tracked text s) {token : Token}
    (mem : token ∈ s.stream.tokens) : 0 ≤ token.position ∧ token.position ≤ text.length ∧
      IsPlace text s.stream.tokens token.position :=
  have placed := h.placed token mem
  ⟨placed.bounds.1, placed.bounds.2, placed.isPlace mem⟩

/-- How the parser came to what is returned for a text. -/
private theorem tracked_of_parse {result : ParseResult} (h : parse text = .ok result) :
    ∃ before : ParserState,
      Parser.whole.run (ofText text) = .ok result ⟨before.stream, result.diagnostics⟩ ∧
      result.diagnostics = before.diagnostics ++ before.closing ∧ Tracked text before ∧
      Regular before.upcoming := by
  obtain ⟨t, read, run, joined⟩ := expression_of_parse h
  have inStep := respects_expression (isBisimulation_tracked text) (ofText text) _
    ⟨rfl, tracked_ofText text⟩
  have reads := reads_expression (regular_ofText text)
  unfold Matches at inStep
  unfold Reads at reads
  rw [read] at inStep reads
  exact ⟨t, run, joined, inStep.2.2.2, reads.1.regular⟩

/-- Diagnostics are ordered and located.  The lexer's come first, strictly from left to right, and
    then the parser's, from left to right.  Each one points into the text, to the beginning of a
    token, to the end, or to where a word was cut.  Only the last one says that something follows
    the expression, and if there is none, every token up to the end has been read. -/
theorem parse_diagnostics {text : String} {result : ParseResult} (h : parse text = .ok result) :
    ∃ (state : ParserState) (found : List Diagnostic),
      Parser.whole.run (.ofText text) = .ok result state ∧
      result.diagnostics = lexDiagnostics (lex text) ++ found ∧
      (lexDiagnostics (lex text)).Pairwise (fun d d' => d.position < d'.position) ∧
      found.Pairwise (fun d d' => d.position ≤ d'.position) ∧
      (∀ d ∈ lexDiagnostics (lex text), d.phase = .lexer) ∧ (∀ d ∈ found, d.phase = .parser) ∧
      (∀ d ∈ result.diagnostics, 0 ≤ d.position ∧ d.position ≤ text.length ∧
        IsPlace text state.stream.tokens d.position) ∧
      (∀ before d behind, result.diagnostics = before ++ d :: behind →
        d.code = "E-PARSE-TRAILING-INPUT" → behind = []) ∧
      (result.diagnostics = [] → state.stream.upcoming = [.endAt text.length]) := by
  obtain ⟨before, run, joined, tracked, regular⟩ := tracked_of_parse h
  obtain ⟨ordered, lexer⟩ := ordered_lexDiagnostics text
  obtain ⟨found, split, reported⟩ := tracked.reported
  rw [split, List.append_assoc] at joined
  obtain ⟨single, here⟩ := closing_spec before
  -- Only the closing diagnostic is about trailing input.
  have inner : ∀ d ∈ lexDiagnostics (lex text) ++ found, ¬d.IsTrailing := by
    refine List.forall_mem_append.mpr ⟨fun d hd => ?_, fun d hd => (reported.parser d hd).2⟩
    rintro ⟨token, cause⟩
    have phase := (lexer d hd).1
    rw [Diagnostic.phase, cause] at phase
    cases phase
  refine ⟨_, found ++ before.closing, run, joined, ordered, ?_, fun d hd => (lexer d hd).1, ?_, ?_,
    ?_, ?_⟩
  · -- The parser's diagnostics are ordered, the closing one included.
    refine List.pairwise_append.mpr ⟨reported.ordered, single, fun d hd last hlast => ?_⟩
    rw [(here last hlast).1]
    exact reported.reached d hd
  · exact List.forall_mem_append.mpr
      ⟨fun d hd => (reported.parser d hd).1, fun d hd => (here d hd).2⟩
  · -- Every diagnostic points at a token that the parser has had before it.
    rw [joined]
    refine List.forall_mem_append.mpr ⟨fun d hd => ?_, List.forall_mem_append.mpr ⟨fun d hd => ?_,
      fun d hd => ?_⟩⟩
    · obtain ⟨token, mem, position⟩ := (lexer d hd).2
      obtain ⟨low, high, -⟩ := bounds_of_mem_lex mem
      exact ⟨by omega, by omega, .inl ⟨token, mem, position⟩⟩
    · obtain ⟨token, mem, position⟩ := reported.placed d hd
      rw [← position]
      exact tracked.isPlace mem
    · rw [(here d hd).1]
      exact tracked.isPlace (next_mem_tokens before)
  · intro first d behind cut code
    rw [joined, ← List.append_assoc] at cut
    exact eq_nil_of_closing inner cut (Diagnostic.isTrailing_iff.mpr code)
  · intro nothing
    rw [nothing] at joined
    obtain ⟨-, none⟩ := List.append_eq_nil_iff.mp (List.append_eq_nil_iff.mp joined.symm).2
    exact tracked.upcoming_of_closing regular none

/-- A character that starts no token, operands that are missing, and a word of which only the first
    letters are a modifier. -/
theorem parse_diagnostics_cut :
    ∃ result, parse "$ + () - 2d6khx" = .ok result ∧
      result.diagnostics.map Diagnostic.position = [0, 0, 5, 14] ∧
      ∃ (state : ParserState) (found : List Diagnostic),
        Parser.whole.run (.ofText "$ + () - 2d6khx") = .ok result state ∧
        result.diagnostics = lexDiagnostics (lex "$ + () - 2d6khx") ++ found ∧
        found.Pairwise (fun d d' => d.position ≤ d'.position) ∧
        ∀ d ∈ result.diagnostics, IsPlace "$ + () - 2d6khx" state.stream.tokens d.position := by
  have returned : parse "$ + () - 2d6khx" = .ok _ := rfl
  obtain ⟨state, found, run, joined, -, ordered, -, -, placed, -⟩ := parse_diagnostics returned
  exact ⟨_, rfl, rfl, state, found, run, joined, ordered, fun d hd => (placed d hd).2.2⟩

end DiceNotation
