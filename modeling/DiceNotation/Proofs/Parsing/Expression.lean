import DiceNotation.Proofs.Parsing.Dice

/-! # Expressions are read as the grammar says

Soundness of the parser: each rule reads the tree of an expression, and as long as nothing is
diagnosed the grammar derives that expression from the tokens read.

Every rule takes the parser of inner expressions as a parameter.  That parser is known to be
sound for tokens of at most a given weight; a rule uses it only behind an opening token, so the
rule itself is sound for tokens that are heavier by one.

* `reads_factor`, `reads_power`, `reads_term`, `reads_simple`, `reads_comparing`   rule by rule
* `reads_expression`   a whole expression -/

namespace DiceNotation

open ParserState DiceNotation.Expr
open Grammar (Phrase Derives)
open DiceNotation.Parser (comparison? additive? multiplicative?)

/-- The result is the tree of an expression, which is derived from the tokens read. -/
def IsPhrase (phrase : Phrase) (s : ParserState) (node : Node) (t : ParserState) : Prop :=
  ∃ e : Expr, node = e.toNode ∧ (t.Clean → Derives phrase s.upcoming e t.upcoming)

/-- The parser reads a phrase from regular tokens of at most the given weight. -/
def ReadsPhrase (phrase : Phrase) (levels : Nat) (p : ParseM Node) : Prop :=
  ∀ s : ParserState, Regular s.upcoming → s.stream.weight ≤ levels →
    Reads s p (IsPhrase phrase s)

variable {s : ParserState} {inner : ParseM Node} {levels : Nat}

/-- Behind the next token the tokens are lighter. -/
private theorem weight_advance_le (h : Regular s.upcoming) (ne : s.next.kind ≠ .endOfInput)
    (light : s.stream.weight ≤ levels + 1) : s.advance.stream.weight ≤ levels := by
  have := weight_advance_lt h ne
  omega

/-! ## Lists -/

/-- A phrase that goes on with a comma and a further expression. -/
def GoesOn (phrase : List Expr → Phrase) : Prop :=
  ∀ {comma tokens before member mid e rest}, comma.kind = .comma →
    Derives .expression tokens member mid → Derives (phrase (before ++ [member])) mid e rest →
    Derives (phrase before) (comma :: tokens) e rest

/-- Arguments go on with a comma. -/
theorem goesOn_arguments (name : String) : GoesOn (.arguments name) := .callMore

/-- Members go on with a comma. -/
theorem goesOn_members : GoesOn .members := .groupMore

/-- What is derived behind further members is derived behind the first ones. -/
private theorem reads_membersWithin {phrase : List Expr → Phrase} (goesOn : GoesOn phrase)
    (hinner : ReadsPhrase .expression levels inner) (steps : Nat) (h : Regular s.upcoming)
    (light : s.stream.weight ≤ levels + 1) (enough : s.stream.weight ≤ steps)
    (before : List Expr) :
    Reads s (Parser.membersWithin inner steps (before.map toNode)) fun nodes t =>
      ∃ es : List Expr, nodes = es.map toNode ∧ (t.Clean → ∀ e rest,
        Derives (phrase es) t.upcoming e rest → Derives (phrase before) s.upcoming e rest) := by
  -- The steps are enough as long as they are no fewer than the weight, and each comma takes weight
  -- away.
  induction steps generalizing s before with
  | zero =>
    have := s.stream.weight_pos
    omega
  | succ steps ih =>
    rw [Parser.membersWithin]
    refine .nextKind ?_
    by_cases comma : s.next.kind = .comma
    · have notEnd : s.next.kind ≠ .endOfInput := by rw [comma]; decide
      have small := Token.not_isOversized comma (by decide)
      have leads := leads_advance h small
      have lighter := weight_advance_lt h notEnd
      rw [if_pos comma]
      refine .advance h small ?_
      refine (hinner _ leads.regular (by omega)).bind fun node t leads' found => ?_
      obtain ⟨member, hnode, derives⟩ := found
      have lighter' := leads'.weight
      have := ih leads'.regular (by omega) (by omega) (before ++ [member])
      rw [List.map_append, List.map_singleton, ← hnode] at this
      refine this.mono fun nodes u leads'' found => ?_
      obtain ⟨es, hnodes, derives'⟩ := found
      refine ⟨es, hnodes, ?_⟩
      intro clean e rest behind
      rw [(upcoming_advance h notEnd).1]
      exact goesOn comma (derives (leads''.clean clean)) (derives' clean e rest behind)
    · rw [if_neg comma]
      exact .pure h ⟨before, rfl, fun _ e rest behind => behind⟩

/-- A list up to its closing token is empty, or a first member and what goes on behind it. -/
private theorem reads_members {phrase : List Expr → Phrase} (goesOn : GoesOn phrase)
    (hinner : ReadsPhrase .expression levels inner) (h : Regular s.upcoming)
    (light : s.stream.weight ≤ levels) (closing : TokenKind) :
    Reads s (Parser.members inner closing) fun nodes t =>
      ∃ es : List Expr, nodes = es.map toNode ∧ (t.Clean →
        (es = [] ∧ t.upcoming = s.upcoming) ∨
        ∃ first mid, Derives .expression s.upcoming first mid ∧ ∀ e rest,
          Derives (phrase es) t.upcoming e rest → Derives (phrase [first]) mid e rest) := by
  refine .nextKind ?_
  -- A list is empty if it is closed at once; else it has a first item and further ones.
  by_cases empty : s.next.kind = closing
  · rw [if_pos empty]
    exact .pure h ⟨[], rfl, fun _ => .inl ⟨rfl, rfl⟩⟩
  · rw [if_neg empty]
    refine (hinner _ h light).bind fun node t leads found => ?_
    obtain ⟨first, hnode, derives⟩ := found
    refine .weight ?_
    have lighter := leads.weight
    have := reads_membersWithin goesOn hinner _ leads.regular (by omega) (Nat.le_refl _) [first]
    rw [List.map_singleton, ← hnode] at this
    refine this.mono fun nodes u leads' found => ?_
    obtain ⟨es, hnodes, derives'⟩ := found
    refine ⟨es, hnodes, fun clean => ?_⟩
    exact .inr ⟨first, t.upcoming, derives (leads'.clean clean), derives' clean⟩

/-! ## Factors -/

/-- What is read as a call is one of the grammar. -/
private theorem reads_functionCall (hinner : ReadsPhrase .expression levels inner)
    (h : Regular s.upcoming) (light : s.stream.weight ≤ levels + 1)
    (kind : s.next.kind = .identifier) (word : Parser.isDiceWord s.next = false) :
    Reads s (Parser.functionCall inner) (IsPhrase .factor s) := by
  have notEnd : s.next.kind ≠ .endOfInput := by rw [kind]; decide
  have small := Token.not_isOversized kind (by decide)
  have leads := leads_advance h small
  have light := weight_advance_le h notEnd light
  have hu := (upcoming_advance h notEnd).1
  refine .peek (.advance h small ?_)
  -- A name without a parenthesis behind it is diagnosed, and so nothing has to be derived.
  refine .expect leads.regular (by decide) (fun opens => ?_) fun t leads' dirty => ?_
  · have notEnd' : s.advance.next.kind ≠ .endOfInput := by rw [opens]; decide
    have leads' := leads_advance leads.regular (Token.not_isOversized opens (by decide))
    have hu' := (upcoming_advance leads.regular notEnd').1
    have lighter := weight_advance_lt leads.regular notEnd'
    refine (reads_members (goesOn_arguments s.next.text) hinner leads'.regular (by omega) _).bind
      fun nodes t leads'' found => ?_
    obtain ⟨es, hnodes, derives⟩ := found
    refine .expect leads''.regular (by decide) (fun closes => ?_) fun u leads₃ dirty =>
      .pure leads₃.regular ⟨.call s.next.text es, by rw [hnodes, toNode, toNodes_eq_map],
        fun clean => absurd clean dirty⟩
    have leads₃ := leads_advance leads''.regular (Token.not_isOversized closes (by decide))
    have hu'' := (upcoming_advance leads''.regular (by rw [closes]; decide)).1
    refine .pure leads₃.regular ⟨.call s.next.text es, by rw [hnodes, toNode, toNodes_eq_map], ?_⟩
    intro clean
    rw [hu, hu']
    -- The list of arguments was empty, or it had a first one.
    rcases derives clean with ⟨rfl, same⟩ | ⟨first, mid, argument, others⟩
    · rw [← same, hu'']
      exact .emptyCall kind word opens closes
    · refine .call kind word opens argument (others _ _ ?_)
      rw [hu'']
      exact .callEnd closes
  · exact .pure leads'.regular ⟨.call s.next.text [], rfl, fun clean => absurd clean dirty⟩

/-- What is read in parentheses is an expression of the grammar. -/
private theorem reads_bracketed (hinner : ReadsPhrase .expression levels inner)
    (h : Regular s.upcoming) (light : s.stream.weight ≤ levels + 1)
    (opens : s.next.kind = .parenthesisOpen) :
    Reads s (Parser.bracketed inner) fun node t =>
      ∃ e : Expr, node = e.toNode ∧ (t.Clean → ∃ tokens closing, s.upcoming = s.next :: tokens ∧
        Derives .expression tokens e (closing :: t.upcoming) ∧
        closing.kind = .parenthesisClose) := by
  have notEnd : s.next.kind ≠ .endOfInput := by rw [opens]; decide
  have small := Token.not_isOversized opens (by decide)
  have leads := leads_advance h small
  refine .advance h small ?_
  refine (hinner _ leads.regular (weight_advance_le h notEnd light)).bind
    fun node t leads' found => ?_
  obtain ⟨e, hnode, derives⟩ := found
  -- If the parenthesis is not closed there is a diagnostic, and nothing has to be derived.
  refine .expect leads'.regular (by decide) (fun closes => ?_) fun u leads'' dirty =>
    .pure leads''.regular ⟨e, hnode, fun clean => absurd clean dirty⟩
  have leads'' := leads_advance leads'.regular (Token.not_isOversized closes (by decide))
  refine .pure leads''.regular ⟨e, hnode, fun clean => ?_⟩
  refine ⟨s.advance.upcoming, t.next, (upcoming_advance h notEnd).1, ?_, closes⟩
  rw [← (upcoming_advance leads'.regular (by rw [closes]; decide)).1]
  exact derives clean

/-- The end of a group: the number of repeats, if there is one. -/
def closeGroup (nodes : List Node) : ParseM Node := do
  if (← Parser.nextKind) = .ellipsis then
    Parser.advance
    return .make .group [("repeat", .int (← Parser.integer))] nodes
  else return .make .group [] nodes

/-- What is read as repeats are those of the grammar. -/
private theorem reads_closeGroup (h : Regular s.upcoming) (nodes : List Node) :
    Reads s (closeGroup nodes) fun node t =>
      ∃ repeats, node = .make .group (groupAttributes repeats) nodes ∧
        (t.Clean → Grammar.Repeats s.upcoming repeats t.upcoming) := by
  refine .nextKind ?_
  -- The repeats are read if dots stand behind the brace.
  by_cases dots : s.next.kind = .ellipsis
  · have small := Token.not_isOversized dots (by decide)
    have leads := leads_advance h small
    rw [if_pos dots]
    refine .advance h small ?_
    refine (reads_integer leads.regular).bind fun n t leads' found => ?_
    obtain ⟨k, hk, derives⟩ := found
    refine .pure leads'.regular ⟨some k, by rw [hk]; rfl, fun clean => ?_⟩
    rw [(upcoming_advance h (by rw [dots]; decide)).1]
    exact .given dots (derives clean)
  · rw [if_neg dots]
    exact .pure h ⟨none, rfl, fun _ => .absent (ends_beq_iff.mpr dots)⟩

/-- What is read as a group is one of the grammar. -/
private theorem reads_group (hinner : ReadsPhrase .expression levels inner)
    (h : Regular s.upcoming) (light : s.stream.weight ≤ levels + 1)
    (opens : s.next.kind = .braceOpen) :
    Reads s (Parser.group inner) (IsPhrase .factor s) := by
  have notEnd : s.next.kind ≠ .endOfInput := by rw [opens]; decide
  have small := Token.not_isOversized opens (by decide)
  have leads := leads_advance h small
  have hu := (upcoming_advance h notEnd).1
  refine .advance h small ?_
  refine (reads_members goesOn_members hinner leads.regular (weight_advance_le h notEnd light)
    _).bind fun nodes t leads' found => ?_
  obtain ⟨es, hnodes, derives⟩ := found
  refine .expect leads'.regular (by decide) (fun closes => ?_) fun u leads'' dirty => ?_
  · have leads'' := leads_advance leads'.regular (Token.not_isOversized closes (by decide))
    have hu' := (upcoming_advance leads'.regular (by rw [closes]; decide)).1
    refine (reads_closeGroup leads''.regular nodes).mono
      fun node u leads₃ found => ?_
    obtain ⟨repeats, hnode, times⟩ := found
    refine ⟨.group es repeats, by rw [hnode, hnodes, toNode, toNodes_eq_map], fun clean => ?_⟩
    rw [hu]
    -- The list of members was empty, or it had a first one.
    rcases derives (leads''.clean (leads₃.clean clean)) with
      ⟨rfl, same⟩ | ⟨first, mid, member, others⟩
    · rw [← same, hu']
      exact .emptyGroup opens closes (times clean)
    · refine .group opens member (others _ _ ?_)
      rw [hu']
      exact .groupEnd closes (times clean)
  · -- The closing brace is missing: this was diagnosed before the repetitions were read.
    refine (reads_closeGroup leads''.regular nodes).mono
      fun node v leads₃ found => ?_
    obtain ⟨repeats, hnode, times⟩ := found
    refine ⟨.group es repeats, by rw [hnode, hnodes, toNode, toNodes_eq_map], fun clean => ?_⟩
    exact absurd (leads₃.clean clean) dirty

/-- A roll behind its count, if the next token is a word; otherwise the count itself. -/
def countOrRoll (count : Node) : ParseM Node := do
  if (← Parser.nextKind) = .identifier then Parser.roll count else return count

/-- What is read behind a count is nothing, or dice of the grammar. -/
private theorem reads_countOrRoll (h : Regular s.upcoming) (count : Expr) :
    Reads s (countOrRoll count.toNode) fun node t =>
      ∃ e : Expr, node = e.toNode ∧ (t.Clean →
        (e = count ∧ t.upcoming = s.upcoming ∧ Grammar.Ends (· == .identifier) s.upcoming) ∨
        ∃ sides steps mid, e = .roll count sides steps ∧ Grammar.Dice s.upcoming sides mid ∧
          Grammar.Modifiers mid steps t.upcoming) := by
  refine .nextKind ?_
  by_cases word : s.next.kind = .identifier
  · rw [if_pos word]
    refine (reads_roll h count.toNode).mono fun node t leads found => ?_
    obtain ⟨sides, steps, hnode, derives⟩ := found
    refine ⟨.roll count sides steps, by rw [hnode, toNode], fun clean => ?_⟩
    obtain ⟨mid, dice, modifiers⟩ := derives clean
    exact .inr ⟨sides, steps, mid, rfl, dice, modifiers⟩
  · rw [if_neg word]
    exact .pure h ⟨count, rfl, fun _ => .inl ⟨rfl, rfl, ends_beq_iff.mpr word⟩⟩

/-- What is read as a factor is one of the grammar. -/
theorem reads_factor (hinner : ReadsPhrase .expression levels inner) :
    ReadsPhrase .factor (levels + 1) (Parser.factor inner) := by
  intro s h light
  refine .peek ?_
  -- One case for each token that a factor can begin with.
  split
  case h_1 kind =>
    split
    · refine (reads_roll h (.integer 1)).mono fun node t leads found => ?_
      obtain ⟨sides, steps, hnode, derives⟩ := found
      refine ⟨.roll (.literal 1) sides steps, hnode, fun clean => ?_⟩
      obtain ⟨mid, dice, modifiers⟩ := derives clean
      exact .dice dice modifiers
    · next word => exact reads_functionCall hinner h light kind (Bool.eq_false_iff.mpr word)
  case h_2 opens =>
    refine (reads_bracketed hinner h light opens).bind fun node t leads found => ?_
    obtain ⟨e, hnode, derives⟩ := found
    subst hnode
    refine (reads_countOrRoll leads.regular e).mono fun node u leads' found => ?_
    obtain ⟨e', hnode, derives'⟩ := found
    refine ⟨e', hnode, fun clean => ?_⟩
    obtain ⟨tokens, closing, hu, inside, closes⟩ := derives (leads'.clean clean)
    rw [hu]
    rcases derives' clean with ⟨rfl, same, ends⟩ | ⟨sides, steps, mid, rfl, dice, modifiers⟩
    · rw [same]
      exact .parentheses opens inside closes ends
    · exact .parenthesesDice opens inside closes dice modifiers
  case h_3 opens => exact reads_group hinner h light opens
  case h_4 kind =>
    refine (reads_literal h).bind fun node t leads found => ?_
    obtain ⟨n, hnode, derives⟩ := found
    have hnode : node = (Expr.literal n).toNode := by rw [hnode, toNode]
    subst hnode
    refine (reads_countOrRoll leads.regular (.literal n)).mono fun node u leads' found => ?_
    obtain ⟨e, hnode, derives'⟩ := found
    refine ⟨e, hnode, fun clean => ?_⟩
    have number := derives (leads'.clean clean)
    rcases derives' clean with ⟨rfl, same, ends⟩ | ⟨sides, steps, mid, rfl, dice, modifiers⟩
    · rw [same]
      exact .integer number ends
    · exact .integerDice number dice modifiers
  case h_5 notIdentifier notOpen notBrace notInteger =>
    -- Nothing that begins a factor: a diagnostic, and zero in its place.
    refine .record h ?_
    have dirty := not_clean_record (s := s) (.unexpectedToken s.next .integer) s.next.position
    split
    · have small : ¬s.next.IsOversized := fun big => notInteger big.1
      refine .advance h small (.pure (leads_advance h small).regular ⟨.literal 0, rfl, ?_⟩)
      exact fun clean => absurd clean dirty
    · exact .pure h ⟨.literal 0, rfl, fun clean => absurd clean dirty⟩

/-! ## Operators -/

/-- What is read as a power is one of the grammar, by induction on the steps. -/
private theorem reads_powerWithin (hinner : ReadsPhrase .expression levels inner) (steps : Nat)
    (h : Regular s.upcoming) (light : s.stream.weight ≤ levels + 1)
    (enough : s.stream.weight ≤ steps) :
    Reads s (Parser.powerWithin inner steps) (IsPhrase .power s) := by
  -- Powers group to the right, so the operand behind the sign is what the induction speaks about.
  induction steps generalizing s with
  | zero =>
    have := s.stream.weight_pos
    omega
  | succ steps ih =>
    rw [Parser.powerWithin]
    refine (reads_factor hinner s h light).bind fun node t leads found => ?_
    obtain ⟨base, hnode, derives⟩ := found
    have lighter := leads.weight
    refine .nextKind ?_
    by_cases raised : t.next.kind = .doubleAsterisk
    · have notEnd : t.next.kind ≠ .endOfInput := by rw [raised]; decide
      have small := Token.not_isOversized raised (by decide)
      have leads' := leads_advance leads.regular small
      have lighter' := weight_advance_lt leads.regular notEnd
      rw [if_pos raised]
      refine .advance leads.regular small ?_
      refine (ih leads'.regular (by omega) (by omega)).bind
        fun node' u leads'' found => ?_
      obtain ⟨exponent, hnode', derives'⟩ := found
      refine .pure leads''.regular ⟨.binary .exponent base exponent, ?_, fun clean => ?_⟩
      · rw [hnode, hnode', toNode]
      · have first := derives (leads'.clean (leads''.clean clean))
        rw [(upcoming_advance leads.regular notEnd).1] at first
        exact .exponent first raised (derives' clean)
    · rw [if_neg raised]
      refine .pure leads.regular ⟨base, hnode, fun clean => .base (derives clean) ?_⟩
      exact ends_beq_iff.mpr raised

/-- What is read as a power is one of the grammar. -/
theorem reads_power (hinner : ReadsPhrase .expression levels inner) :
    ReadsPhrase .power (levels + 1) (Parser.power inner) :=
  fun _ h light => .weight (reads_powerWithin hinner _ h light (Nat.le_refl _))

/-- A phrase that goes on with an operator and a further operand. -/
structure Chains (operator? : TokenKind → Option Operator) (operand : Phrase)
    (phrase : Expr → Phrase) : Prop where
  done : ∀ {tokens before}, Grammar.Ends (fun kind => (operator? kind).isSome) tokens →
    Derives (phrase before) tokens before tokens
  more : ∀ {sign tokens before op right mid e rest}, operator? sign.kind = some op →
    Derives operand tokens right mid → Derives (phrase (.binary op before right)) mid e rest →
    Derives (phrase before) (sign :: tokens) e rest
  sign : ∀ {kind op}, operator? kind = some op → kind ≠ .integer ∧ kind ≠ .endOfInput

/-- Products are chains of powers. -/
theorem chains_product : Chains multiplicative? .power .product where
  done := .productEnd
  more := .productMore
  sign h := by constructor <;> rintro rfl <;> cases h

/-- Sums are chains of terms. -/
theorem chains_sum : Chains additive? .term .sum where
  done := .sumEnd
  more := .sumMore
  sign h := by constructor <;> rintro rfl <;> cases h

/-- What is read as the rest of a chain is one of the grammar, by induction on the steps. -/
private theorem reads_tailWithin {operator? : TokenKind → Option Operator} {operand : Phrase}
    {phrase : Expr → Phrase} (chains : Chains operator? operand phrase) {p : ParseM Node}
    (hp : ReadsPhrase operand levels p) (steps : Nat) (h : Regular s.upcoming)
    (light : s.stream.weight ≤ levels) (enough : s.stream.weight ≤ steps) (before : Expr) :
    Reads s (Parser.tailWithin operator? p steps before.toNode) (IsPhrase (phrase before) s) := by
  -- Chains group to the left: what has been read becomes the left operand of the next operator.
  induction steps generalizing s before with
  | zero =>
    have := s.stream.weight_pos
    omega
  | succ steps ih =>
    rw [Parser.tailWithin]
    refine .nextKind ?_
    cases hop : operator? s.next.kind with
    | none =>
      exact .pure h ⟨before, rfl, fun _ => chains.done (ends_iff.mpr (by rw [hop]; rfl))⟩
    | some op =>
      obtain ⟨notInteger, notEnd⟩ := chains.sign hop
      have small := Token.not_isOversized rfl notInteger
      have leads := leads_advance h small
      have lighter := weight_advance_lt h notEnd
      refine .advance h small ?_
      refine (hp _ leads.regular (by omega)).bind fun node t leads' found => ?_
      obtain ⟨right, hnode, derives⟩ := found
      have lighter' := leads'.weight
      have := ih leads'.regular (by omega) (by omega) (.binary op before right)
      rw [toNode, ← hnode] at this
      refine this.mono fun node u leads'' found => ?_
      obtain ⟨e, he, derives'⟩ := found
      refine ⟨e, he, fun clean => ?_⟩
      rw [(upcoming_advance h notEnd).1]
      exact chains.more hop (derives (leads''.clean clean)) (derives' clean)

/-- What is read as a term is one of the grammar. -/
theorem reads_term (hinner : ReadsPhrase .expression levels inner) :
    ReadsPhrase .term (levels + 1) (Parser.term inner) := by
  intro s h light
  have hpower := reads_power hinner
  refine (hpower s h light).bind fun node t leads found => ?_
  obtain ⟨first, hnode, derives⟩ := found
  have lighter := leads.weight
  subst hnode
  -- The loop gets as many steps as there are tokens left, which is enough.
  refine .weight ?_
  refine (reads_tailWithin chains_product hpower _ leads.regular (by omega) (Nat.le_refl _)
    first).mono fun node u leads' found => ?_
  obtain ⟨e, he, derives'⟩ := found
  refine ⟨e, he, fun clean => ?_⟩
  exact .term (derives (leads'.clean clean)) (derives' clean)

/-- What is read as a sum is one of the grammar. -/
theorem reads_simple (hinner : ReadsPhrase .expression levels inner) :
    ReadsPhrase .simple (levels + 1) (Parser.simple inner) := by
  intro s h light
  have hterm := reads_term hinner
  -- The terms behind the sign, the first of which may be negated.
  have terms : ∀ {t : ParserState} (wrap : Expr → Expr) (wrapNode : Node → Node),
      (∀ e, wrapNode (toNode e) = (wrap e).toNode) → Regular t.upcoming →
      t.stream.weight ≤ levels + 1 →
      Reads t (Parser.term inner >>= fun first =>
        Parser.tail additive? (Parser.term inner) (wrapNode first)) fun node u =>
        ∃ e : Expr, node = e.toNode ∧ (u.Clean → ∃ first mid, Derives .term t.upcoming first mid ∧
          Derives (.sum (wrap first)) mid e u.upcoming) := by
    intro t wrap wrapNode hwrap h light
    refine (hterm t h light).bind fun node u leads found => ?_
    obtain ⟨first, hnode, derives⟩ := found
    have lighter := leads.weight
    rw [hnode, hwrap]
    refine .weight ?_
    refine (reads_tailWithin chains_sum hterm _ leads.regular (by omega) (Nat.le_refl _)
      (wrap first)).mono fun node v leads' found => ?_
    obtain ⟨e, he, derives'⟩ := found
    refine ⟨e, he, fun clean => ?_⟩
    exact ⟨first, u.upcoming, derives (leads'.clean clean), derives' clean⟩
  refine .nextKind ?_
  by_cases minus : s.next.kind = .minus
  · have notEnd : s.next.kind ≠ .endOfInput := by rw [minus]; decide
    have small := Token.not_isOversized minus (by decide)
    simp only [minus, additive?, Option.isSome_some, if_true]
    refine .advance h small ?_
    refine (terms .negate (fun node => .make .negate [] [node]) (fun e => by rw [toNode])
      (leads_advance h small).regular (Nat.le_succ_of_le (weight_advance_le h notEnd light))).mono
      fun node t leads found => ?_
    obtain ⟨e, he, derives⟩ := found
    refine ⟨e, he, fun clean => ?_⟩
    obtain ⟨first, mid, term, others⟩ := derives clean
    rw [(upcoming_advance h notEnd).1]
    exact .negative minus term others
  by_cases plus : s.next.kind = .plus
  · have notEnd : s.next.kind ≠ .endOfInput := by rw [plus]; decide
    have small := Token.not_isOversized plus (by decide)
    simp only [plus, additive?, Option.isSome_some, if_true, reduceCtorEq, if_false]
    refine .advance h small ?_
    refine (terms id id (fun e => rfl) (leads_advance h small).regular
      (Nat.le_succ_of_le (weight_advance_le h notEnd light))).mono
      fun node t leads found => ?_
    obtain ⟨e, he, derives⟩ := found
    refine ⟨e, he, fun clean => ?_⟩
    obtain ⟨first, mid, term, others⟩ := derives clean
    rw [(upcoming_advance h notEnd).1]
    exact .positive plus term others
  · -- No other token is a sign of the additive kind.
    have unsigned : additive? s.next.kind = none := by
      cases hk : s.next.kind <;> first | rfl | exact absurd hk plus | exact absurd hk minus
    simp only [unsigned, Option.isSome_none, Bool.false_eq_true, if_false, if_neg minus]
    refine (terms id id (fun e => rfl) h light).mono
      fun node t leads found => ?_
    obtain ⟨e, he, derives⟩ := found
    refine ⟨e, he, fun clean => ?_⟩
    obtain ⟨first, mid, term, others⟩ := derives clean
    exact .unsigned term others

/-- What is read as an expression is one of the grammar. -/
theorem reads_comparing (hinner : ReadsPhrase .expression levels inner) :
    ReadsPhrase .expression (levels + 1) (Parser.comparing inner) := by
  intro s h light
  have hsimple := reads_simple hinner
  refine (hsimple s h light).bind fun node t leads found => ?_
  obtain ⟨left, hnode, derives⟩ := found
  have lighter := leads.weight
  refine .nextKind ?_
  -- At most one comparison is read; a second sign is left for what comes behind.
  cases hop : comparison? t.next.kind with
  | none =>
    refine .pure leads.regular ⟨left, hnode, fun clean => .single (derives clean) ?_⟩
    exact ends_iff.mpr (by rw [hop]; rfl)
  | some op =>
    obtain ⟨notInteger, notEnd⟩ := kind_of_comparison? hop
    have small := Token.not_isOversized rfl notInteger
    have leads' := leads_advance leads.regular small
    have lighter' := leads'.weight
    refine .advance leads.regular small ?_
    refine (hsimple _ leads'.regular (by omega)).bind
      fun node' u leads'' found => ?_
    obtain ⟨right, hnode', derives'⟩ := found
    refine .pure leads''.regular ⟨.compare op left right, by rw [hnode, hnode', toNode], ?_⟩
    intro clean
    -- Both sides are clean if what is left is clean.
    have first := derives (leads'.clean (leads''.clean clean))
    rw [(upcoming_advance leads.regular notEnd).1] at first
    exact .compare first hop (derives' clean)

/-- The parser that goes down as many levels as there is text reads every expression. -/
private theorem reads_expressionWithin (levels : Nat) :
    ReadsPhrase .expression levels (Parser.expressionWithin levels) := by
  induction levels with
  | zero =>
    intro s _ light
    have := s.stream.weight_pos
    omega
  | succ levels ih => exact reads_comparing ih

/-- What the parser reads is an expression of the grammar. -/
theorem reads_expression (h : Regular s.upcoming) :
    Reads s Parser.expression (IsPhrase .expression s) :=
  .weight (reads_expressionWithin _ s h (Nat.le_refl _))

end DiceNotation
