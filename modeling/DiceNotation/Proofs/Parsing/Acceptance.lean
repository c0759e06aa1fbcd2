import DiceNotation.Proofs.Gaps
import DiceNotation.Proofs.Parsing.Expression

/-! # What the grammar derives is read

Completeness of the parser: from tokens that begin with a phrase, the parser of that phrase reads
the tree of its expression and leaves what stands behind it.  It records a diagnostic for every
operand that is missing, and no other.

`Misses s p a gaps rest` says this of a step `p` in state `s`, and `Accepted s p a rest` that no
operand is missing.  The latter is proved for the leaves of the grammar first, then the former by
induction on derivations.

* `accepted_modifiersWithin`   modifiers
* `completes_of_tolerates`     all phrases
* `misses_expression`          a whole expression -/

namespace DiceNotation

open ParserState DiceNotation.Expr
open Grammar (Phrase Tolerates Letters Ends Lacks)
open DiceNotation.Parser (comparison? additive? multiplicative? isClosing Spelling)

variable {α β : Type} {s : ParserState}

/-- The step ends with this result, misses an operand before each of the gaps and finds nothing
    else wrong, and leaves these tokens. -/
def Misses (s : ParserState) (p : ParseM α) (a : α) (gaps rest : List Token) : Prop :=
  ∃ t, p.run s = .ok a t ∧ t.upcoming = rest ∧
    t.diagnostics = s.diagnostics ++ gaps.map Token.missing ∧ s.Leads t

/-- The step ends with this result and without a diagnostic, and leaves these tokens. -/
def Accepted (s : ParserState) (p : ParseM α) (a : α) (rest : List Token) : Prop :=
  ∃ t, p.run s = .ok a t ∧ t.upcoming = rest ∧ t.diagnostics = s.diagnostics ∧ s.Leads t

/-- To be accepted is to miss no operand. -/
private theorem accepted_iff {p : ParseM α} {a : α} {rest : List Token} :
    Accepted s p a rest ↔ Misses s p a [] rest := by
  rw [Accepted, Misses, List.map_nil, List.append_nil]

namespace Misses

variable {p : ParseM α} {f : α → ParseM β} {a : α} {b : β} {gaps gaps' mid rest : List Token}

/-- Two steps one after the other. -/
theorem bind (hp : Misses s p a gaps mid)
    (hf : ∀ t : ParserState, t.upcoming = mid → s.Leads t → Misses t (f a) b gaps' rest) :
    Misses s (p >>= f) b (gaps ++ gaps') rest := by
  obtain ⟨t, hrun, hmid, hdiagnostics, leads⟩ := hp
  obtain ⟨u, hrun', hrest, hdiagnostics', leads'⟩ := hf t hmid leads
  refine ⟨u, ?_, hrest, ?_, leads.trans leads'⟩
  · rw [EStateM.run_bind, hrun]
    exact hrun'
  · rw [hdiagnostics', hdiagnostics, List.map_append, List.append_assoc]

/-- Two steps one after the other, the second of which misses nothing. -/
private theorem bindAccepted (hp : Misses s p a gaps mid)
    (hf : ∀ t : ParserState, t.upcoming = mid → s.Leads t → Accepted t (f a) b rest) :
    Misses s (p >>= f) b gaps rest := by
  have := hp.bind fun t ht leads => accepted_iff.mp (hf t ht leads)
  rwa [List.append_nil] at this

/-- Looking at the next token, which is known. -/
theorem peek {f : Token → ParseM β} (hf : Misses s (f s.next) b gaps rest) :
    Misses s (Parser.peek >>= f) b gaps rest := hf

/-- Looking at the kind of the next token, which is known. -/
theorem nextKind {f : TokenKind → ParseM β} (hf : Misses s (f s.next.kind) b gaps rest) :
    Misses s (Parser.nextKind >>= f) b gaps rest := hf

/-- Asking how much there is to read, which is known. -/
theorem weight {f : Nat → ParseM β} (hf : Misses s (f s.stream.weight) b gaps rest) :
    Misses s (Parser.weight >>= f) b gaps rest := hf

/-- Step over a token that is no numeral. -/
theorem advance {f : Unit → ParseM β} {token : Token} {tokens : List Token}
    (hs : s.upcoming = token :: tokens) (h : Regular s.upcoming)
    (kind : token.kind ≠ .integer ∧ token.kind ≠ .endOfInput)
    (hf : ∀ t : ParserState, t.upcoming = tokens → s.Leads t →
      t.stream.weight < s.stream.weight → Misses t (f ()) b gaps rest) :
    Misses s (Parser.advance >>= f) b gaps rest := by
  have hnext : s.next = token := (List.cons.inj hs).1
  have hu := (upcoming_advance h (by rw [hnext]; exact kind.2)).1
  have leads := leads_advance h (Token.not_isOversized (congrArg Token.kind hnext) kind.1)
  obtain ⟨t, hrun, hrest, hdiagnostics, leads'⟩ := hf s.advance
    (List.cons.inj (hu.symm.trans hs)).2 leads
    (weight_advance_lt h (by rw [hnext]; exact kind.2))
  exact ⟨t, hrun, hrest, hdiagnostics, leads.trans leads'⟩

end Misses

namespace Accepted

variable {p : ParseM α} {f : α → ParseM β} {a : α} {b : β} {rest : List Token}

/-- A step that reads nothing is accepted. -/
theorem pure (h : Regular s.upcoming) : Accepted s (Pure.pure a) a s.upcoming :=
  ⟨s, rfl, rfl, rfl, .refl h⟩

/-- Two steps one after the other. -/
theorem bind {mid : List Token} (hp : Accepted s p a mid)
    (hf : ∀ t : ParserState, t.upcoming = mid → s.Leads t → Accepted t (f a) b rest) :
    Accepted s (p >>= f) b rest :=
  accepted_iff.mpr ((accepted_iff.mp hp).bindAccepted hf)

/-- Two steps one after the other, the first of which leaves a state as `post` says. -/
private theorem bindReads {mid : List Token} {post : α → ParserState → Prop}
    (hp : Accepted s p a mid) (hr : Reads s p post)
    (hf : ∀ t : ParserState, t.upcoming = mid → s.Leads t → post a t → Accepted t (f a) b rest) :
    Accepted s (p >>= f) b rest := by
  obtain ⟨t, hrun, hmid, hdiagnostics, leads⟩ := hp
  rw [Reads, hrun] at hr
  obtain ⟨u, hrun', hrest, hdiagnostics', leads'⟩ := hf t hmid leads hr.2
  refine ⟨u, ?_, hrest, hdiagnostics'.trans hdiagnostics, leads.trans leads'⟩
  rw [EStateM.run_bind, hrun]
  exact hrun'

/-- Looking at the next token, which is known. -/
theorem peek {f : Token → ParseM β} (hf : Accepted s (f s.next) b rest) :
    Accepted s (Parser.peek >>= f) b rest := hf

/-- Looking at the kind of the next token, which is known. -/
theorem nextKind {f : TokenKind → ParseM β} (hf : Accepted s (f s.next.kind) b rest) :
    Accepted s (Parser.nextKind >>= f) b rest := hf

/-- Asking how much there is to read, which is known. -/
theorem weight {f : Nat → ParseM β} (hf : Accepted s (f s.stream.weight) b rest) :
    Accepted s (Parser.weight >>= f) b rest := hf

/-- Step over a token that is no numeral. -/
theorem advance {f : Unit → ParseM β} {token : Token} {tokens : List Token}
    (hs : s.upcoming = token :: tokens) (h : Regular s.upcoming)
    (kind : token.kind ≠ .integer ∧ token.kind ≠ .endOfInput)
    (hf : ∀ t : ParserState, t.upcoming = tokens → s.Leads t →
      t.stream.weight < s.stream.weight → Accepted t (f ()) b rest) :
    Accepted s (Parser.advance >>= f) b rest :=
  accepted_iff.mpr (.advance hs h kind fun t ht leads lighter =>
    accepted_iff.mp (hf t ht leads lighter))

/-- Step over the letters at the beginning of a word. -/
theorem advanceBy {f : Unit → ParseM β} {letters : String} {n : Nat} {tokens : List Token}
    (hl : Letters letters s.upcoming tokens) (hn : letters.length = n) (ne : letters ≠ "")
    (h : Regular s.upcoming)
    (hf : ∀ t : ParserState, t.upcoming = tokens → s.Leads t →
      t.stream.weight < s.stream.weight → Accepted t (f ()) b rest) :
    Accepted s (Parser.advanceBy n >>= f) b rest := by
  subst hn
  obtain ⟨kind, begins⟩ := letters_next hl
  obtain ⟨hl', leads, lighter⟩ := letters_advanceBy letters h kind begins ne
  obtain ⟨t, hrun, hrest, hdiagnostics, leads'⟩ := hf _ (letters_unique hl' hl) leads lighter
  exact ⟨t, hrun, hrest, hdiagnostics, leads.trans leads'⟩

/-- Read a token that is there and is no numeral. -/
private theorem expected {kind : TokenKind} {token : Token} {tokens : List Token}
    (hs : s.upcoming = token :: tokens) (h : Regular s.upcoming) (hk : token.kind = kind)
    (notNumeral : kind ≠ .integer) (notEnd : kind ≠ .endOfInput) :
    Accepted s (Parser.expect kind) (some token) tokens := by
  have hnext : s.next = token := (List.cons.inj hs).1
  have hu := (upcoming_advance h (by rw [hnext, hk]; exact notEnd)).1
  have leads := leads_advance h (Token.not_isOversized (by rw [hnext, hk]) notNumeral)
  refine ⟨s.advance, ?_, (List.cons.inj (hu.symm.trans hs)).2, rfl, leads⟩
  rw [run_expect, if_pos (by rw [hnext, hk]), hnext]

/-- The expected token is read. -/
theorem expect {kind : TokenKind} {f : Option Token → ParseM β} {token : Token}
    {tokens : List Token} (hs : s.upcoming = token :: tokens) (h : Regular s.upcoming)
    (hk : token.kind = kind) (notNumeral : kind ≠ .integer) (notEnd : kind ≠ .endOfInput)
    (hf : ∀ t : ParserState, t.upcoming = tokens → s.Leads t →
      Accepted t (f (some token)) b rest) :
    Accepted s (Parser.expect kind >>= f) b rest :=
  (expected hs h hk notNumeral notEnd).bind hf

end Accepted

/-- Read a token that is there and is no numeral. -/
theorem Misses.expect {kind : TokenKind} {f : Option Token → ParseM β} {b : β} {token : Token}
    {tokens gaps rest : List Token} (hs : s.upcoming = token :: tokens) (h : Regular s.upcoming)
    (hk : token.kind = kind) (notNumeral : kind ≠ .integer) (notEnd : kind ≠ .endOfInput)
    (hf : ∀ t : ParserState, t.upcoming = tokens → s.Leads t →
      Misses t (f (some token)) b gaps rest) :
    Misses s (Parser.expect kind >>= f) b gaps rest :=
  (accepted_iff.mp (.expected hs h hk notNumeral notEnd)).bind hf

/-! ## Numerals and arguments -/

/-- The next token is the first of those to come. -/
theorem next_of_upcoming {token : Token} {tokens : List Token} (h : s.upcoming = token :: tokens) :
    s.next = token :=
  (List.cons.inj h).1

/-- A numeral of the grammar is read as its value. -/
private theorem accepted_integer {n : Nat} {rest : List Token} (h : Regular s.upcoming)
    (hn : Grammar.Integer s.upcoming n rest) : Accepted s Parser.integer n rest := by
  generalize htokens : s.upcoming = tokens at hn
  obtain ⟨kind, value⟩ := hn
  have hnext := next_of_upcoming htokens
  rw [← hnext] at kind value
  have notEnd : s.next.kind ≠ .endOfInput := by rw [kind]; decide
  -- An integer that has a value is not too long to be read.
  have small : ¬s.next.IsOversized := by
    rintro ⟨-, big⟩
    have := read_of_regular h kind
    rw [if_pos big] at this
    rw [this] at value
    cases value
  refine ⟨s.advance, ?_, ?_, rfl, leads_advance h small⟩
  · rw [Parser.integer, EStateM.run_bind, run_expect, if_pos kind]
    simp only [Parser.numeral, value]
    rfl
  · exact (List.cons.inj ((upcoming_advance h notEnd).1.symm.trans htokens)).2

/-- A numeral of the grammar is read as a literal. -/
private theorem accepted_literal {n : Nat} {rest : List Token} (h : Regular s.upcoming)
    (hn : Grammar.Integer s.upcoming n rest) :
    Accepted s Parser.literal (.integer n) rest := by
  refine (accepted_integer h hn).bind fun t ht leads => ?_
  rw [← ht]
  exact .pure leads.regular

/-- A condition of the grammar is read, and nothing is read where there is none. -/
private theorem accepted_condition {bound : Option Bound} {rest : List Token}
    (h : Regular s.upcoming) (hb : Grammar.Condition s.upcoming bound rest) :
    Accepted s Parser.condition (bound.map Bound.toNode) rest := by
  refine .nextKind ?_
  generalize htokens : s.upcoming = tokens at hb
  -- The next token decides, as it does for the parser.
  cases hb with
  | absent next =>
    subst htokens
    rw [Option.isNone_iff_eq_none.mp (Option.isSome_eq_false_iff.mp (ends_iff.mp next))]
    exact .pure h
  | given compares number =>
    rw [← next_of_upcoming htokens] at compares
    rw [compares]
    refine .advance htokens h ?_ fun t ht leads _ => ?_
    · rw [← next_of_upcoming htokens]
      exact kind_of_comparison? compares
    · refine (accepted_literal leads.regular (ht ▸ number)).bind fun u hu leads' => ?_
      rw [← hu]
      exact .pure leads'.regular

/-- An amount of the grammar is read, and nothing is read where there is none. -/
private theorem accepted_amount {amount : Option Nat} {rest : List Token} (h : Regular s.upcoming)
    (ha : Grammar.Amount s.upcoming amount rest) :
    Accepted s Parser.amount (amount.map fun k : Nat => .integer k) rest := by
  refine .nextKind ?_
  -- The next token decides, as it does for the parser.
  cases ha with
  | absent next =>
    rw [if_neg (ends_beq_iff.mp next)]
    exact .pure h
  | given number =>
    have kind : s.next.kind = .integer := by
      generalize htokens : s.upcoming = tokens at number
      obtain ⟨kind, -⟩ := number
      rw [← kind, next_of_upcoming htokens]
    rw [if_pos kind]
    refine (accepted_literal h number).bind fun t ht leads => ?_
    rw [← ht]
    exact .pure leads.regular

/-! ## Modifiers -/

/-- The spellings of the grammar are in the parser's table. -/
private theorem mem_of_spelled {sp : Spelling} (h : Spelled sp) : sp ∈ Parser.spellings := by
  -- The three lists of the grammar together are the table of the parser.
  cases h with
  | counted letters make mem =>
    simp only [Grammar.counted, List.mem_cons, Prod.mk.injEq, List.not_mem_nil, or_false] at mem
    rcases mem with ⟨rfl, rfl⟩ | ⟨rfl, rfl⟩ | ⟨rfl, rfl⟩ | ⟨rfl, rfl⟩ | ⟨rfl, rfl⟩ | ⟨rfl, rfl⟩ <;>
      simp [Parser.spellings, Step.modifier, Step.attributes]
  | conditional letters make mem =>
    simp only [Grammar.conditional, List.mem_cons, Prod.mk.injEq, List.not_mem_nil, or_false] at mem
    rcases mem with ⟨rfl, rfl⟩ | ⟨rfl, rfl⟩ | ⟨rfl, rfl⟩ | ⟨rfl, rfl⟩ | ⟨rfl, rfl⟩ <;>
      simp [Parser.spellings, Step.modifier, Step.attributes]
  | plain letters step mem =>
    simp only [Grammar.plain, List.mem_cons, Prod.mk.injEq, List.not_mem_nil, or_false] at mem
    rcases mem with ⟨rfl, rfl⟩ | ⟨rfl, rfl⟩ | ⟨rfl, rfl⟩ <;>
      simp [Parser.spellings, Step.modifier, Step.attributes]

/-- The letters of a spelling are its own. -/
private theorem spellings_injective {a b : Spelling} (ha : a ∈ Parser.spellings)
    (hb : b ∈ Parser.spellings) (h : a.letters = b.letters) : a = b :=
  List.inj_on_of_nodup_map (f := Spelling.letters) (by decide) ha hb h

/-- Where the letters of a spelling are the longest that fit, the parser takes that spelling. -/
private theorem spelling?_of_longest {sp : Spelling} {rest : List Token} (h : Spelled sp)
    (longest : Grammar.Longest sp.letters s.upcoming)
    (word : Letters sp.letters s.upcoming rest) :
    s.next.kind = .identifier ∧ Parser.spelling? s.next = some sp := by
  have mem := mem_of_spelled h
  obtain ⟨kind, begins⟩ := letters_next word
  refine ⟨kind, ?_⟩
  -- The parser finds some spelling, since one that fits is in its table.
  cases found : Parser.spelling? s.next with
  | none =>
    have := not_startsWith_of_spelling?_eq_none found ((mem_spellings_iff _).mpr ⟨sp, mem, rfl⟩)
    exact absurd begins this
  | some sp' =>
    obtain ⟨mem', begins', longest'⟩ := longest_of_spelling? found
    -- Neither of the two is longer, so they are the same letters.
    have notShorter : ¬sp'.letters.length < sp.letters.length :=
      fun shorter => longest' sp mem shorter begins
    have notLonger : ¬sp.letters.length < sp'.letters.length := by
      intro longer
      have := longest _ ((mem_spellings_iff _).mpr ⟨sp', mem', rfl⟩) longer
      exact this s.next rfl kind begins'
    have same : sp'.letters = sp.letters := by
      rw [← String.toList_inj]
      refine (List.prefix_of_prefix_length_le begins' begins ?_).eq_of_length ?_ <;>
        rw [String.length_toList, String.length_toList] <;> omega
    rw [spellings_injective mem' mem same]

/-- No spelling is empty. -/
private theorem letters_ne_empty {sp : Spelling} (h : sp ∈ Parser.spellings) : sp.letters ≠ "" := by
  have : ∀ sp ∈ Parser.spellings, sp.letters ≠ "" := by simp [Parser.spellings]
  exact this sp h

/-- An explosion of the grammar is read, with the letter for penetrating dice or without it. -/
private theorem accepted_explosion {mark : Token} {tokens mid rest : List Token}
    {bound : Option Bound}
    (penetrating : Bool) (hs : s.upcoming = mark :: tokens) (h : Regular s.upcoming)
    (kind : mark.kind = .exclamation)
    (letter : if penetrating then Letters "p" tokens mid else Lacks "p" tokens ∧ mid = tokens)
    (condition : Grammar.Condition mid bound rest) (operand : Node) :
    Accepted s (Parser.explosion operand) ((Step.explode penetrating bound).toNode operand)
      rest := by
  refine .advance hs h (by rw [kind]; decide) fun t ht leads _ => .peek ?_
  -- The mark is read, and the letter is looked for in what stands behind it.
  subst ht
  -- The letter behind the mark is the only difference between the two explosions.
  cases penetrating with
  | true =>
    simp only [if_true] at letter
    obtain ⟨word, begins⟩ := letters_next letter
    simp only [word, (startsWith_iff _ _).mpr begins, and_self, if_true]
    refine .advanceBy letter rfl (by decide) leads.regular fun u hu leads' _ => ?_
    subst hu
    refine (accepted_condition leads'.regular condition).bind fun v hv leads'' => ?_
    rw [← hv]
    exact .pure leads''.regular
  | false =>
    simp only [Bool.false_eq_true, if_false] at letter
    obtain ⟨lacks, rfl⟩ := letter
    simp only [if_neg (lacks_iff.mp lacks)]
    refine (accepted_condition leads.regular condition).bind fun v hv leads' => ?_
    rw [← hv]
    exact .pure leads'.regular

/-- Letters are read, then what `argumentOf` their modifier reads. -/
private theorem accepted_spelled {sp : Spelling} {mid rest : List Token} {argument : Option Node}
    (h : Regular s.upcoming) (mem : sp ∈ Parser.spellings)
    (word : Letters sp.letters s.upcoming mid)
    (ha : ∀ t : ParserState, t.upcoming = mid → Regular t.upcoming →
      Accepted t (argumentOf sp.modifier) argument rest) (operand : Node) :
    Accepted s (Parser.spelled sp operand)
      (.make (.modifier sp.modifier) sp.attributes (operand :: argument.toList)) rest := by
  rw [spelled_eq]
  refine .advanceBy word rfl (letters_ne_empty mem) h fun t ht leads _ => ?_
  refine (ha t ht leads.regular).bind fun u hu leads' => ?_
  rw [← hu]
  exact .pure leads'.regular

/-- What the parser does at a modifier. -/
private theorem accepted_modifier {step : Step} {mid : List Token} (h : Regular s.upcoming)
    (hm : Grammar.Modifier s.upcoming step mid) (roll : Node) :
    (s.next.kind = .exclamation ∧ Accepted s (Parser.explosion roll) (step.toNode roll) mid) ∨
    (s.next.kind = .identifier ∧ ∃ sp, Parser.spelling? s.next = some sp ∧
      Accepted s (Parser.spelled sp roll) (step.toNode roll) mid) := by
  generalize htokens : s.upcoming = tokens at hm
  cases hm with
  | explode kind next condition =>
    -- A mark explodes, and a word is one of the spellings.
    refine .inl ⟨by rw [next_of_upcoming htokens, kind], ?_⟩
    exact accepted_explosion false htokens h kind ⟨next, rfl⟩ condition roll
  | penetrate kind letter condition =>
    refine .inl ⟨by rw [next_of_upcoming htokens, kind], ?_⟩
    exact accepted_explosion true htokens h kind letter condition roll
  | @counted letters make _ mid' amount _ spelling longest word number =>
    subst htokens
    -- The longest spelling is the one that the parser finds.
    have spelled := Spelled.counted letters make spelling
    obtain ⟨kind, found⟩ := spelling?_of_longest spelled longest word
    obtain ⟨modifier, attributes, argument, -⟩ := takes_counted spelling amount
    refine .inr ⟨kind, _, found, ?_⟩
    rw [Step.toNode, modifier, attributes, argument]
    refine accepted_spelled h (mem_of_spelled spelled) word (fun t ht h => ?_) roll
    rw [(takes_counted spelling none).2.2.2]
    exact accepted_amount h (ht ▸ number)
  | @conditional letters make _ mid' bound _ spelling longest word condition =>
    subst htokens
    have spelled := Spelled.conditional letters make spelling
    obtain ⟨kind, found⟩ := spelling?_of_longest spelled longest word
    obtain ⟨modifier, attributes, argument, -⟩ := takes_conditional spelling bound
    refine .inr ⟨kind, _, found, ?_⟩
    rw [Step.toNode, modifier, attributes, argument]
    refine accepted_spelled h (mem_of_spelled spelled) word (fun t ht h => ?_) roll
    rw [(takes_conditional spelling none).2.2.2]
    exact accepted_condition h (ht ▸ condition)
  | @plain letters _ _ _ spelling longest word =>
    subst htokens
    have spelled := Spelled.plain letters step spelling
    obtain ⟨kind, found⟩ := spelling?_of_longest spelled longest word
    obtain ⟨argument, reads⟩ := takes_plain spelling
    refine .inr ⟨kind, _, found, ?_⟩
    rw [Step.toNode, argument]
    refine accepted_spelled h (mem_of_spelled spelled) word (fun t ht h => ?_) roll
    rw [reads, ← ht]
    exact .pure h

/-- All modifiers are read: each one makes the tokens lighter, so the steps suffice. -/
theorem accepted_modifiersWithin {read : List Step} {rest : List Token} (h : Regular s.upcoming)
    (hm : Grammar.Modifiers s.upcoming read rest) (steps : Nat)
    (enough : s.stream.weight ≤ steps) (roll : Node) :
    Accepted s (Parser.modifiersWithin steps roll) (modified roll read) rest := by
  generalize htokens : s.upcoming = tokens at hm
  -- By induction on the modifiers that the grammar reads; each takes one round of the loop.
  induction hm generalizing s steps roll with
  | done mark word =>
    subst htokens
    obtain _ | steps := steps
    · exact .pure h
    rw [Parser.modifiersWithin]
    refine .peek ?_
    rw [if_neg (ends_beq_iff.mp mark)]
    by_cases kind : s.next.kind = .identifier
    · have none : Parser.spelling? s.next = none := by
        cases found : Parser.spelling? s.next with
        | none => rfl
        | some sp =>
          obtain ⟨mem, begins, -⟩ := longest_of_spelling? found
          exact absurd begins (word _ ((mem_spellings_iff _).mpr ⟨sp, mem, rfl⟩) s.next rfl kind)
      simp only [if_pos kind, none]
      exact .pure h
    · rw [if_neg kind]
      exact .pure h
  | @more tokens step mid read rest first _ ih =>
    subst htokens
    obtain _ | steps := steps
    · have := s.stream.weight_pos
      omega
    rw [Parser.modifiersWithin]
    refine .peek ?_
    -- The tokens behind a modifier are lighter by soundness.
    rcases accepted_modifier h first roll with ⟨kind, accepted⟩ | ⟨kind, sp, found, accepted⟩
    · rw [if_pos kind]
      refine accepted.bindReads (reads_explosion h kind roll) fun t ht leads found => ?_
      obtain ⟨lighter, _⟩ := found
      exact ih leads.regular steps (by omega) _ ht
    · have notMark : s.next.kind ≠ .exclamation := by rw [kind]; decide
      simp only [if_neg notMark, if_pos kind, found]
      refine accepted.bindReads (reads_spelled h kind found roll) fun t ht leads found => ?_
      obtain ⟨lighter, _⟩ := found
      exact ih leads.regular steps (by omega) _ ht

/-! ## Rolls -/

/-- A word that is no more than a letter is not taken for fate dice. -/
private theorem not_fate_of_letter {letter : Token} {tokens : List Token}
    (htokens : s.upcoming = letter :: tokens) (text : letter.text = "d") :
    ¬(s.next.kind = .identifier ∧ Parser.startsWith s.next "dF") := by
  rw [next_of_upcoming htokens, Parser.startsWith, text]
  exact fun begins => absurd begins.2 (by decide)

/-- The sides of dice of the grammar are read, in one word or in two. -/
private theorem accepted_sides {sides : Sides} {rest : List Token} (h : Regular s.upcoming)
    (hd : Grammar.Dice s.upcoming sides rest) :
    Accepted s Parser.sides sides.toValue rest := by
  refine .peek ?_
  generalize htokens : s.upcoming = tokens at hd
  cases hd with
  | fate word =>
    subst htokens
    obtain ⟨kind, begins⟩ := letters_next word
    simp only [kind, (startsWith_iff _ _).mpr begins, and_self, if_true]
    refine .advanceBy word rfl (by decide) h fun t ht leads _ => ?_
    rw [← ht]
    exact .pure leads.regular
  | @faces letter tokens n _ kind text number =>
    rw [if_neg (not_fate_of_letter htokens text)]
    refine .expect htokens h kind (by decide) (by decide) fun t ht leads => ?_
    subst ht
    -- The parser looks for a percent sign first, and a number is none.
    have notPercent : t.next.kind ≠ .percent := by
      generalize htokens : t.upcoming = tokens at number
      obtain ⟨kind, -⟩ := number
      rw [next_of_upcoming htokens, kind]
      decide
    simp only [text, ne_eq, not_true_eq_false, if_false]
    refine .nextKind ?_
    rw [if_neg notPercent]
    refine (accepted_integer leads.regular number).bind fun u hu leads' => ?_
    rw [← hu]
    exact .pure leads'.regular
  | @hundred letter sign _ kind text percent =>
    rw [if_neg (not_fate_of_letter htokens text)]
    refine .expect htokens h kind (by decide) (by decide) fun t ht leads => ?_
    simp only [text, ne_eq, not_true_eq_false, if_false]
    refine .nextKind ?_
    rw [if_pos (by rw [next_of_upcoming ht, percent])]
    refine .advance ht leads.regular (by rw [percent]; decide) fun u hu leads' _ => ?_
    rw [← hu]
    exact .pure leads'.regular

/-- Dice of the grammar are read with all their modifiers. -/
private theorem accepted_roll {sides : Sides} {steps : List Step} {mid rest : List Token}
    (h : Regular s.upcoming) (dice : Grammar.Dice s.upcoming sides mid)
    (modifiers : Grammar.Modifiers mid steps rest) (count : Node) :
    Accepted s (Parser.roll count) (modified (plainRoll count sides) steps) rest := by
  have plain : Accepted s (Parser.plainRoll count) (plainRoll count sides) mid := by
    refine (accepted_sides h dice).bind fun t ht leads => ?_
    rw [← ht]
    exact .pure leads.regular
  refine plain.bind fun t ht leads => .weight ?_
  exact accepted_modifiersWithin leads.regular (ht ▸ modifiers) _ (Nat.le_refl _) _

/-- Dice begin with a word that the parser takes for dice. -/
private theorem identifier_of_dice {tokens rest : List Token} {sides : Sides}
    (h : Grammar.Dice tokens sides rest) :
    ∃ word more, tokens = word :: more ∧ word.kind = .identifier ∧
      Parser.isDiceWord word = true := by
  cases h with
  | faces kind text _ => exact ⟨_, _, rfl, kind, by rw [Parser.isDiceWord, text]; rfl⟩
  | hundred kind text _ => exact ⟨_, _, rfl, kind, by rw [Parser.isDiceWord, text]; rfl⟩
  | fate word =>
    -- Fate dice stand in a word of their own, or at the front of a longer one.
    cases word with
    | whole kind text =>
      exact ⟨_, _, rfl, kind, by rw [Parser.isDiceWord, Parser.startsWith, text]; decide⟩
    | part kind text _ =>
      refine ⟨_, _, rfl, kind, ?_⟩
      rw [Parser.isDiceWord, (startsWith_iff _ _).mpr, Bool.or_true]
      rw [text, String.toList_append]
      exact List.prefix_append ..

/-! ## Expressions -/

/-- From tokens that begin with the phrase the step reads this tree, misses an operand before each
    of the gaps and leaves the rest. -/
def MissesAll (tokens : List Token) (levels : Nat) (p : ParseM Node) (node : Node)
    (gaps rest : List Token) : Prop :=
  ∀ s : ParserState, s.upcoming = tokens → Regular s.upcoming → s.stream.weight ≤ levels →
    Misses s p node gaps rest

/-- The end of a call: the closing parenthesis. -/
def closeCall (name : String) (nodes : List Node) : ParseM Node := do
  let _ ← Parser.expect .parenthesisClose
  return .make .function [("name", .text name)] nodes

/-- What the parser does with tokens that begin with a phrase.  The parser of inner expressions
    goes down `levels` levels, and a loop takes `steps` steps. -/
def Completes (phrase : Phrase) (tokens : List Token) (e : Expr) (gaps rest : List Token) : Prop :=
  ∀ levels steps : Nat,
    let inner := Parser.expressionWithin levels
    match phrase with
    | .expression => MissesAll tokens (levels + 1) (Parser.comparing inner) e.toNode gaps rest
    | .simple => MissesAll tokens (levels + 1) (Parser.simple inner) e.toNode gaps rest
    | .term => MissesAll tokens (levels + 1) (Parser.term inner) e.toNode gaps rest
    | .factor => MissesAll tokens (levels + 1) (Parser.factor inner) e.toNode gaps rest
    | .power =>
      MissesAll tokens (min (levels + 1) steps) (Parser.powerWithin inner steps) e.toNode gaps rest
    | .sum before =>
      MissesAll tokens (min (levels + 1) steps)
        (Parser.tailWithin additive? (Parser.term inner) steps before.toNode) e.toNode gaps rest
    | .product before =>
      MissesAll tokens (min (levels + 1) steps)
        (Parser.tailWithin multiplicative? (Parser.power inner) steps before.toNode) e.toNode gaps
        rest
    | .arguments name before =>
      MissesAll tokens (min (levels + 1) steps)
        (Parser.membersWithin inner steps (before.map toNode) >>= closeCall name) e.toNode gaps rest
    | .members before =>
      MissesAll tokens (min (levels + 1) steps)
        (Parser.membersWithin inner steps (before.map toNode) >>= fun nodes => do
          let _ ← Parser.expect .braceClose
          closeGroup nodes) e.toNode gaps rest

section Completes

variable {tokens mid rest gaps gaps' : List Token} {e first right : Expr} {levels steps : Nat}
  {token : Token} {before : List Expr}

/-- An expression is completed one level further down. -/
theorem Completes.inner (h : Completes .expression tokens e gaps rest) (levels : Nat) :
    MissesAll tokens levels (Parser.expressionWithin levels) e.toNode gaps rest := by
  intro s hs hr light
  obtain _ | levels := levels
  · have := s.stream.weight_pos
    omega
  · exact h levels 0 s hs hr light

/-- A power is completed with enough steps for what there is to read. -/
theorem Completes.power (h : Completes .power tokens e gaps rest) (levels : Nat) :
    MissesAll tokens (levels + 1) (Parser.power (Parser.expressionWithin levels)) e.toNode gaps
      rest :=
  fun s hs hr light => .weight (h levels s.stream.weight s hs hr (by omega))

/-! ### Operators -/

/-- A chain of operands ends where no operator follows. -/
private theorem completes_tailEnd {operator? : TokenKind → Option Operator} {p : ParseM Node}
    (next : Ends (fun kind => (operator? kind).isSome) tokens) :
    MissesAll tokens (min levels steps) (Parser.tailWithin operator? p steps e.toNode) e.toNode []
      tokens := by
  rintro s rfl h light
  refine accepted_iff.mp ?_
  obtain _ | steps := steps
  · exact .pure h
  rw [Parser.tailWithin]
  refine .nextKind ?_
  rw [Option.isNone_iff_eq_none.mp (Option.isSome_eq_false_iff.mp (ends_iff.mp next))]
  exact .pure h

/-- A chain of operands goes on with an operator and one more operand. -/
private theorem completes_tailMore {operator? : TokenKind → Option Operator} {operand : Phrase}
    {phrase : Expr → Phrase} (chains : Chains operator? operand phrase) {p : ParseM Node}
    {op : Operator} {result : Expr} (hop : operator? token.kind = some op)
    (hp : MissesAll tokens levels p right.toNode gaps mid)
    (others : ∀ steps, MissesAll mid (min levels steps)
      (Parser.tailWithin operator? p steps (binary op e right).toNode) result.toNode gaps' rest) :
    MissesAll (token :: tokens) (min levels steps) (Parser.tailWithin operator? p steps e.toNode)
      result.toNode (gaps ++ gaps') rest := by
  intro s hs h light
  -- A stream has a weight, so the steps do not run out before the stream does.
  obtain _ | steps := steps
  · have := s.stream.weight_pos
    omega
  rw [Parser.tailWithin]
  refine .nextKind ?_
  rw [next_of_upcoming hs, hop]
  refine .advance hs h (chains.sign hop) fun t ht leads lighter => ?_
  refine (hp t ht leads.regular (by omega)).bind fun u hu leads' => ?_
  have lighter' := leads'.weight
  have := others steps u hu leads'.regular (by omega)
  rwa [toNode] at this

/-- A power without an exponent is completed by its factor. -/
private theorem completes_base (factor : Completes .factor tokens e gaps rest)
    (next : Ends (· == .doubleAsterisk) rest) : Completes .power tokens e gaps rest := by
  intro levels steps inner s hs h light
  obtain _ | steps := steps
  · have := s.stream.weight_pos
    omega
  rw [Parser.powerWithin]
  refine (factor levels 0 s hs h (by omega)).bindAccepted fun t ht leads => .nextKind ?_
  subst ht
  rw [if_neg (ends_beq_iff.mp next)]
  exact .pure leads.regular

/-- A power is completed by its base and by the power in its exponent. -/
private theorem completes_exponent (factor : Completes .factor tokens e gaps (token :: mid))
    (kind : token.kind = .doubleAsterisk) (power : Completes .power mid right gaps' rest) :
    Completes .power tokens (.binary .exponent e right) (gaps ++ gaps') rest := by
  intro levels steps inner s hs h light
  -- The steps are enough for the tokens that are left, and there is at least one of these.
  obtain _ | steps := steps
  · have := s.stream.weight_pos
    omega
  rw [Parser.powerWithin]
  refine (factor levels 0 s hs h (by omega)).bind fun t ht leads => .nextKind ?_
  have lighter := leads.weight
  rw [if_pos (by rw [next_of_upcoming ht, kind])]
  refine .advance ht leads.regular (by rw [kind]; decide) fun u hu leads' lighter' => ?_
  refine (power levels steps u hu leads'.regular (by omega)).bindAccepted fun v hv leads'' => ?_
  rw [toNode, ← hv]
  exact .pure leads''.regular

/-- Operands behind a first one. -/
private theorem completes_chain {operator? : TokenKind → Option Operator} {p : ParseM Node}
    {result : Expr} (wrap : Node → Node) (hp : MissesAll tokens levels p first.toNode gaps mid)
    (hwrap : wrap first.toNode = e.toNode)
    (others : ∀ steps, MissesAll mid (min levels steps)
      (Parser.tailWithin operator? p steps e.toNode) result.toNode gaps' rest) :
    MissesAll tokens levels (p >>= fun node => Parser.tail operator? p (wrap node))
      result.toNode (gaps ++ gaps') rest := by
  intro s hs h light
  refine (hp s hs h light).bind fun t ht leads => ?_
  have lighter := leads.weight
  rw [hwrap]
  exact .weight (others _ t ht leads.regular (by omega))

/-- A term is completed by its first power and the others. -/
private theorem completes_term (power : Completes .power tokens first gaps mid)
    (others : Completes (.product first) mid e gaps' rest) :
    Completes .term tokens e (gaps ++ gaps') rest :=
  fun levels _ => completes_chain id (power.power levels) rfl (others levels)

/-- A sum: the first term, then the others. -/
private theorem completes_terms (wrap : Node → Node) (term : Completes .term tokens first gaps mid)
    (hwrap : wrap first.toNode = right.toNode) (others : Completes (.sum right) mid e gaps' rest)
    (levels : Nat) :
    MissesAll tokens (levels + 1)
      (Parser.term (Parser.expressionWithin levels) >>= fun node =>
        Parser.tail additive? (Parser.term (Parser.expressionWithin levels)) (wrap node))
      e.toNode (gaps ++ gaps') rest :=
  completes_chain wrap (term levels 0) hwrap (others levels)

/-- A sum without a sign is completed by its first term and the others. -/
private theorem completes_unsigned (derives : Tolerates .term tokens first gaps mid)
    (term : Completes .term tokens first gaps mid)
    (others : Completes (.sum first) mid e gaps' rest) :
    Completes .simple tokens e (gaps ++ gaps') rest := by
  rintro levels _ inner s rfl h light
  have unsigned := (begins_of_tolerates derives s.next rfl).not_sign
  refine .nextKind ?_
  simp only [unsigned.1, Option.isSome_none, Bool.false_eq_true, if_false, if_neg unsigned.2]
  exact completes_terms id term rfl others levels s rfl h light

/-- A plus in front of a sum is read and forgotten. -/
private theorem completes_positive (kind : token.kind = .plus)
    (term : Completes .term tokens first gaps mid)
    (others : Completes (.sum first) mid e gaps' rest) :
    Completes .simple (token :: tokens) e (gaps ++ gaps') rest := by
  intro levels _ inner s hs h light
  refine .nextKind ?_
  simp only [next_of_upcoming hs, kind, additive?, Option.isSome_some, if_true, reduceCtorEq,
    if_false]
  refine .advance hs h (by rw [kind]; decide) fun t ht leads lighter => ?_
  exact completes_terms id term rfl others levels t ht leads.regular (by omega)

/-- A minus in front of a sum negates its first term. -/
private theorem completes_negative (kind : token.kind = .minus)
    (term : Completes .term tokens first gaps mid)
    (others : Completes (.sum (.negate first)) mid e gaps' rest) :
    Completes .simple (token :: tokens) e (gaps ++ gaps') rest := by
  intro levels _ inner s hs h light
  refine .nextKind ?_
  simp only [next_of_upcoming hs, kind, additive?, Option.isSome_some, if_true]
  refine .advance hs h (by rw [kind]; decide) fun t ht leads lighter => ?_
  have hwrap : Node.make .negate [] [first.toNode] = (Expr.negate first).toNode := by rw [toNode]
  exact completes_terms (fun node => .make .negate [] [node]) term hwrap others levels t ht
    leads.regular (by omega)

/-- An expression without a comparison is completed by its only side. -/
private theorem completes_single (simple : Completes .simple tokens e gaps rest)
    (next : Ends (fun kind => (comparison? kind).isSome) rest) :
    Completes .expression tokens e gaps rest := by
  intro levels _ inner s hs h light
  refine (simple levels 0 s hs h light).bindAccepted fun t ht leads => .nextKind ?_
  subst ht
  rw [Option.isNone_iff_eq_none.mp (Option.isSome_eq_false_iff.mp (ends_iff.mp next))]
  exact .pure leads.regular

/-- A comparison is completed by its two sides. -/
private theorem completes_compare {op : Comparison}
    (left : Completes .simple tokens first gaps (token :: mid))
    (compares : comparison? token.kind = some op)
    (second : Completes .simple mid right gaps' rest) :
    Completes .expression tokens (.compare op first right) (gaps ++ gaps') rest := by
  intro levels _ inner s hs h light
  refine (left levels 0 s hs h light).bind fun t ht leads => .nextKind ?_
  have lighter := leads.weight
  rw [next_of_upcoming ht, compares]
  refine .advance ht leads.regular (kind_of_comparison? compares) fun u hu leads' lighter' => ?_
  refine (second levels 0 u hu leads'.regular (by omega)).bindAccepted fun v hv leads'' => ?_
  rw [toNode, ← hv]
  exact .pure leads''.regular

/-! ### Lists -/

/-- A list goes on with a comma and one more member. -/
private theorem completes_members {close : List Node → ParseM Node}
    (member : Completes .expression tokens first gaps mid) (kind : token.kind = .comma)
    (others : ∀ steps, MissesAll mid (min (levels + 1) steps)
      (Parser.membersWithin (Parser.expressionWithin levels) steps
        ((before ++ [first]).map toNode) >>= close) e.toNode gaps' rest) :
    MissesAll (token :: tokens) (min (levels + 1) steps)
      (Parser.membersWithin (Parser.expressionWithin levels) steps (before.map toNode) >>= close)
      e.toNode (gaps ++ gaps') rest := by
  intro s hs h light
  obtain _ | steps := steps
  · have := s.stream.weight_pos
    omega
  rw [Parser.membersWithin, bind_assoc]
  refine .nextKind ?_
  rw [if_pos (by rw [next_of_upcoming hs, kind]), bind_assoc]
  refine .advance hs h (by rw [kind]; decide) fun t ht leads lighter => ?_
  rw [bind_assoc]
  -- The member is lighter than the list, and is read one level further down.
  refine (member.inner levels t ht leads.regular (by omega)).bind fun u hu leads' => ?_
  have lighter' := leads'.weight
  have := others steps u hu leads'.regular (by omega)
  rwa [List.map_append] at this

/-- A list ends where no comma follows. -/
private theorem completes_membersEnd {close : List Node → ParseM Node} (kind : token.kind ≠ .comma)
    (closes : MissesAll (token :: tokens) (levels + 1) (close (before.map toNode)) e.toNode gaps
      rest) :
    MissesAll (token :: tokens) (min (levels + 1) steps)
      (Parser.membersWithin (Parser.expressionWithin levels) steps (before.map toNode) >>= close)
      e.toNode gaps rest := by
  intro s hs h light
  have hclose := closes s hs h (by omega)
  obtain _ | steps := steps
  · exact hclose
  rw [Parser.membersWithin, bind_assoc]
  refine .nextKind ?_
  rw [if_neg (by rw [next_of_upcoming hs]; exact kind)]
  exact hclose

/-- The members of a list behind its opening token. -/
private theorem completes_list {close : List Node → ParseM Node} {closing : TokenKind}
    (nonempty : Ends (· == closing) tokens) (member : Completes .expression tokens first gaps mid)
    (others : ∀ steps, MissesAll mid (min (levels + 1) steps)
      (Parser.membersWithin (Parser.expressionWithin levels) steps ([first].map toNode) >>= close)
      e.toNode gaps' rest) :
    MissesAll tokens levels
      (Parser.members (Parser.expressionWithin levels) closing >>= close) e.toNode (gaps ++ gaps')
      rest := by
  rintro s rfl h light
  rw [Parser.members, bind_assoc]
  refine .nextKind ?_
  rw [if_neg (ends_beq_iff.mp nonempty), bind_assoc]
  refine (member.inner levels s rfl h light).bind fun t ht leads => ?_
  have lighter := leads.weight
  rw [bind_assoc]
  exact .weight (others _ t ht leads.regular (by omega))

/-- An empty list is read as no members. -/
private theorem completes_emptyList {close : List Node → ParseM Node} {closing : TokenKind}
    (hk : token.kind = closing)
    (closes : MissesAll (token :: tokens) levels (close []) e.toNode gaps rest) :
    MissesAll (token :: tokens) levels
      (Parser.members (Parser.expressionWithin levels) closing >>= close) e.toNode gaps rest := by
  intro s hs h light
  rw [Parser.members, bind_assoc]
  refine .nextKind ?_
  rw [if_pos (by rw [next_of_upcoming hs, hk])]
  exact closes s hs h light

/-! ### Factors -/

/-- Where an operand is missing, a zero stands in for it, and the token found there stays. -/
private theorem completes_hole (closes : isClosing token.kind = true) :
    Completes .factor (token :: rest) (.literal 0) [token] (token :: rest) := by
  intro levels _ inner s hs h light
  refine .peek ?_
  rw [next_of_upcoming hs]
  have missing : Misses s (Parser.unexpected token .integer >>= fun _ => pure (Node.integer 0))
      (.integer 0) [token] (token :: rest) :=
    ⟨s.record (.unexpectedToken token .integer) token.position, rfl, hs, rfl, leads_record h _ _⟩
  cases kind : token.kind with
  | endOfInput | parenthesisClose | braceClose | comma => exact missing
  | _ =>
    rw [kind] at closes
    cases closes

/-- A count with no word behind it stands for itself. -/
private theorem accepted_count {count : Node} (h : Regular s.upcoming)
    (next : Ends (· == .identifier) s.upcoming) :
    Accepted s (countOrRoll count) count s.upcoming := by
  refine .nextKind ?_
  rw [if_neg (ends_beq_iff.mp next)]
  exact .pure h

/-- A count with dice behind it is the number of dice. -/
private theorem accepted_countedRoll {count : Node} {sides : Sides} {steps : List Step}
    (h : Regular s.upcoming) (dice : Grammar.Dice s.upcoming sides mid)
    (modifiers : Grammar.Modifiers mid steps rest) :
    Accepted s (countOrRoll count) (modified (plainRoll count sides) steps) rest := by
  refine .nextKind ?_
  obtain ⟨word, more, hs, kind, -⟩ := identifier_of_dice dice
  rw [if_pos (by rw [next_of_upcoming hs, kind])]
  exact accepted_roll h dice modifiers count

/-- A numeral is completed by what stands behind it: nothing, or dice. -/
private theorem completes_integer {n : Nat} (number : Grammar.Integer tokens n mid)
    (behind : ∀ s : ParserState, s.upcoming = mid → Regular s.upcoming →
      Accepted s (countOrRoll (literal n).toNode) e.toNode rest) :
    Completes .factor tokens e [] rest := by
  rintro levels steps inner s rfl h light
  have kind : s.next.kind = .integer := by
    generalize htokens : s.upcoming = tokens at number
    obtain ⟨kind, -⟩ := number
    rw [next_of_upcoming htokens, kind]
  refine .peek (accepted_iff.mp ?_)
  simp only [kind]
  refine (accepted_literal h number).bind fun t ht leads => ?_
  have := behind t ht leads.regular
  rwa [toNode] at this

/-- Dice without a number are one die. -/
private theorem completes_dice {sides : Sides} {steps : List Step}
    (dice : Grammar.Dice tokens sides mid) (modifiers : Grammar.Modifiers mid steps rest) :
    Completes .factor tokens (.roll (.literal 1) sides steps) [] rest := by
  rintro levels _ inner s rfl h light
  obtain ⟨word, more, hs, kind, starts⟩ := identifier_of_dice dice
  refine .peek (accepted_iff.mp ?_)
  simp only [next_of_upcoming hs, kind, starts, if_true]
  rw [toNode, toNode]
  exact accepted_roll h dice modifiers _

/-- An expression in parentheses is completed by what stands behind them. -/
private theorem completes_parentheses {closing : Token} (opens : token.kind = .parenthesisOpen)
    (closes : closing.kind = .parenthesisClose)
    (inside : Completes .expression tokens first gaps (closing :: mid))
    (behind : ∀ s : ParserState, s.upcoming = mid → Regular s.upcoming →
      Accepted s (countOrRoll first.toNode) e.toNode rest) :
    Completes .factor (token :: tokens) e gaps rest := by
  intro levels steps inner s hs h light
  have bracketed : Misses s (Parser.bracketed inner) first.toNode gaps mid := by
    refine .advance hs h (by rw [opens]; decide) fun t ht leads lighter => ?_
    refine (inside.inner levels t ht leads.regular (by omega)).bindAccepted fun u hu leads' => ?_
    refine .expect hu leads'.regular closes (by decide) (by decide) fun v hv leads'' => ?_
    rw [← hv]
    exact .pure leads''.regular
  refine .peek ?_
  simp only [next_of_upcoming hs, opens]
  exact bracketed.bindAccepted fun t ht leads => behind t ht leads.regular

/-- The closing parenthesis ends a call. -/
private theorem accepted_closeCall {name : String} (hs : s.upcoming = token :: rest)
    (h : Regular s.upcoming) (closes : token.kind = .parenthesisClose) (es : List Expr) :
    Accepted s (closeCall name (es.map toNode)) (call name es).toNode rest := by
  rw [toNode, toNodes_eq_map]
  refine .expect hs h closes (by decide) (by decide) fun t ht leads => ?_
  rw [← ht]
  exact .pure leads.regular

/-- The closing brace and the repeats end a group. -/
private theorem accepted_closeGroup {repeats : Option Nat} (hs : s.upcoming = token :: tokens)
    (h : Regular s.upcoming) (closes : token.kind = .braceClose)
    (times : Grammar.Repeats tokens repeats rest) (es : List Expr) :
    Accepted s (Parser.expect .braceClose >>= fun _ => closeGroup (es.map toNode))
      (group es repeats).toNode rest := by
  rw [toNode, toNodes_eq_map]
  refine .expect hs h closes (by decide) (by decide) fun t ht leads => .nextKind ?_
  -- The repeats are read if dots stand behind the brace.
  cases times with
  | absent next =>
    subst ht
    rw [if_neg (ends_beq_iff.mp next)]
    exact .pure leads.regular
  | given kind number =>
    rw [if_pos (by rw [next_of_upcoming ht, kind])]
    refine .advance ht leads.regular (by rw [kind]; decide) fun u hu leads' _ => ?_
    refine (accepted_integer leads'.regular (hu ▸ number)).bind fun v hv leads'' => ?_
    rw [← hv]
    exact .pure leads''.regular

/-- A call, from what its arguments and their closing parenthesis are read as. -/
private theorem completes_call {opening : Token} (kind : token.kind = .identifier)
    (word : Parser.isDiceWord token = false) (opens : opening.kind = .parenthesisOpen)
    (list : ∀ levels, MissesAll tokens levels
      (Parser.members (Parser.expressionWithin levels) .parenthesisClose >>= closeCall token.text)
      e.toNode gaps rest) : Completes .factor (token :: opening :: tokens) e gaps rest := by
  intro levels steps inner s hs h light
  have hnext := next_of_upcoming hs
  refine .peek ?_
  simp only [hnext, kind, word, Bool.false_eq_true, if_false]
  refine .peek (.advance hs h (by rw [kind]; decide) fun t ht leads lighter => ?_)
  refine .expect ht leads.regular opens (by decide) (by decide) fun u hu leads' => ?_
  have lighter' := leads'.weight
  rw [hnext]
  exact list levels u hu leads'.regular (by omega)

/-- A group, from what its members and their closing brace are read as. -/
private theorem completes_group (opens : token.kind = .braceOpen)
    (list : ∀ levels, MissesAll tokens levels
      (Parser.members (Parser.expressionWithin levels) .braceClose >>= fun nodes => do
        let _ ← Parser.expect .braceClose
        closeGroup nodes) e.toNode gaps rest) :
    Completes .factor (token :: tokens) e gaps rest := by
  intro levels steps inner s hs h light
  refine .peek ?_
  simp only [next_of_upcoming hs, opens]
  refine .advance hs h (by rw [opens]; decide) fun t ht leads lighter => ?_
  exact list levels t ht leads.regular (by omega)

end Completes

/-- Whatever the grammar derives, operands missing or not, the parser reads. -/
theorem completes_of_tolerates {phrase : Phrase} {tokens gaps rest : List Token} {e : Expr}
    (h : Tolerates phrase tokens e gaps rest) : Completes phrase tokens e gaps rest := by
  -- By induction on the derivation; for each rule the parser reads the parts in the same order.
  induction h with
  | hole closes => exact completes_hole closes
  | single _ next ih => exact completes_single ih next
  | compare _ compares _ ih ih' => exact completes_compare ih compares ih'
  | unsigned term _ ih ih' => exact completes_unsigned term ih ih'
  | positive kind _ _ ih ih' => exact completes_positive kind ih ih'
  | negative kind _ _ ih ih' => exact completes_negative kind ih ih'
  | sumEnd next => exact fun _ _ => completes_tailEnd next
  | sumMore adds _ _ ih ih' =>
    intro levels steps
    exact completes_tailMore chains_sum adds (fun s hs h light => ih levels 0 s hs h light)
      (ih' levels)
  | term _ _ ih ih' => exact completes_term ih ih'
  | productEnd next => exact fun _ _ => completes_tailEnd next
  | productMore multiplies _ _ ih ih' =>
    intro levels steps
    exact completes_tailMore chains_product multiplies (ih.power levels) (ih' levels)
  | base _ next ih => exact completes_base ih next
  | exponent _ kind _ ih ih' => exact completes_exponent ih kind ih'
  | integer number next =>
    refine completes_integer number fun s hs h => ?_
    subst hs
    exact accepted_count h next
  | integerDice number dice modifiers =>
    refine completes_integer number fun s hs h => ?_
    rw [toNode]
    exact accepted_countedRoll h (hs ▸ dice) modifiers
  | dice dice modifiers => exact completes_dice dice modifiers
  | parentheses kind _ closes next ih =>
    refine completes_parentheses kind closes ih fun s hs h => ?_
    subst hs
    exact accepted_count h next
  | parenthesesDice kind _ closes dice modifiers ih =>
    refine completes_parentheses kind closes ih fun s hs h => ?_
    rw [toNode]
    exact accepted_countedRoll h (hs ▸ dice) modifiers
  | emptyCall kind word opens closes =>
    refine completes_call kind word opens fun levels => completes_emptyList closes ?_
    exact fun s hs h _ => accepted_iff.mp (accepted_closeCall hs h closes [])
  | call kind word opens nonempty _ _ ih ih' =>
    refine completes_call kind word opens fun levels => ?_
    exact completes_list nonempty ih (ih' levels)
  | callEnd closes =>
    intro levels steps
    refine completes_membersEnd (by rw [closes]; decide) ?_
    exact fun s hs h _ => accepted_iff.mp (accepted_closeCall hs h closes _)
  | callMore kind _ _ ih ih' => exact fun levels _ => completes_members ih kind (ih' levels)
  | emptyGroup opens closes times =>
    refine completes_group opens fun levels => completes_emptyList closes ?_
    exact fun s hs h _ => accepted_iff.mp (accepted_closeGroup hs h closes times [])
  | group opens nonempty _ _ ih ih' =>
    refine completes_group opens fun levels => ?_
    exact completes_list nonempty ih (ih' levels)
  | groupEnd closes times =>
    intro levels steps
    refine completes_membersEnd (by rw [closes]; decide) ?_
    exact fun s hs h _ => accepted_iff.mp (accepted_closeGroup hs h closes times _)
  | groupMore kind _ _ ih ih' => exact fun levels _ => completes_members ih kind (ih' levels)

/-- A derived expression is read, whatever operands are missing in it. -/
theorem misses_expression {e : Expr} {gaps rest : List Token} (h : Regular s.upcoming)
    (derives : Tolerates .expression s.upcoming e gaps rest) :
    Misses s Parser.expression e.toNode gaps rest :=
  .weight ((completes_of_tolerates derives).inner _ s rfl h (Nat.le_refl _))

end DiceNotation
