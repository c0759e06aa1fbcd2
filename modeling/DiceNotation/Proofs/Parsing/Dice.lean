import DiceNotation.Proofs.Parsing.Step

/-! # Rolls are read as the grammar says

Soundness of the parser below the level of expressions: what it reads as sides, modifiers and
their arguments is derived by the grammar, as long as nothing is diagnosed.  In any case the
result is the tree of some roll.

* `reads_modifiers`   all modifiers of a roll
* `reads_roll`        sides and modifiers -/

namespace DiceNotation

open ParserState DiceNotation.Expr
open DiceNotation.Parser (comparison? Spelling)

variable {s : ParserState}

/-! ## Spellings -/

/-- The parser's table of spellings holds the spellings of the grammar. -/
inductive Spelled : Spelling → Prop where
  | counted (letters make) (mem : (letters, make) ∈ Grammar.counted) :
      Spelled ⟨letters, (make none).modifier, (make none).attributes⟩
  | conditional (letters make) (mem : (letters, make) ∈ Grammar.conditional) :
      Spelled ⟨letters, (make none).modifier, (make none).attributes⟩
  | plain (letters step) (mem : (letters, step) ∈ Grammar.plain) :
      Spelled ⟨letters, step.modifier, step.attributes⟩

/-- The parser's table holds no spelling that the grammar does not have. -/
theorem spelled_of_mem {sp : Spelling} (h : sp ∈ Parser.spellings) : Spelled sp := by
  simp only [Parser.spellings, List.mem_cons, List.not_mem_nil, or_false] at h
  -- Every entry of the table is in one of the three lists of the grammar.
  rcases h with rfl | rfl | rfl | rfl | rfl | rfl | rfl | rfl | rfl | rfl | rfl | rfl | rfl | rfl
  · exact .counted "kh" (.keep true) (by simp [Grammar.counted])
  · exact .counted "kl" (.keep false) (by simp [Grammar.counted])
  · exact .counted "k" (.keep true) (by simp [Grammar.counted])
  · exact .counted "dh" (.drop true) (by simp [Grammar.counted])
  · exact .counted "dl" (.drop false) (by simp [Grammar.counted])
  · exact .counted "d" (.drop false) (by simp [Grammar.counted])
  · exact .conditional "ro" (.reroll true) (by simp [Grammar.conditional])
  · exact .conditional "r" (.reroll false) (by simp [Grammar.conditional])
  · exact .conditional "cs" (.critical true) (by simp [Grammar.conditional])
  · exact .conditional "cf" (.critical false) (by simp [Grammar.conditional])
  · exact .conditional "c" (.critical true) (by simp [Grammar.conditional])
  · exact .plain "sa" (.sort false) (by simp [Grammar.plain])
  · exact .plain "sd" (.sort true) (by simp [Grammar.plain])
  · exact .plain "s" (.sort false) (by simp [Grammar.plain])

/-- The grammar's spellings are those of the parser's table. -/
theorem mem_spellings_iff (letters : String) :
    letters ∈ Grammar.spellings ↔ ∃ sp ∈ Parser.spellings, sp.letters = letters := by
  simp only [Grammar.spellings, Grammar.counted, Grammar.conditional, Grammar.plain,
    Parser.spellings, List.map_cons, List.map_nil, List.mem_append, List.mem_cons,
    List.not_mem_nil, or_false, exists_eq_or_imp, exists_eq_left, eq_comm (b := letters)]
  tauto

/-- In the parser's table no spelling is the beginning of a later one. -/
private theorem spellings_pairwise :
    Parser.spellings.Pairwise fun a b => ¬a.letters.toList <+: b.letters.toList := by
  simp only [Parser.spellings, List.pairwise_cons]
  decide

/-- The spelling that the parser takes is the longest one that fits. -/
theorem longest_of_spelling? {token : Token} {sp : Spelling}
    (h : Parser.spelling? token = some sp) :
    sp ∈ Parser.spellings ∧ sp.letters.toList <+: token.text.toList ∧
      ∀ other ∈ Parser.spellings, sp.letters.length < other.letters.length →
        ¬other.letters.toList <+: token.text.toList := by
  obtain ⟨fits, before, behind, hsplit, hbefore⟩ := List.find?_eq_some_iff_append.mp h
  have fits := (startsWith_iff _ _).mp fits
  refine ⟨List.mem_of_find?_eq_some h, fits, fun other hother longer fits' => ?_⟩
  rw [hsplit] at hother
  rcases List.mem_append.mp hother with hother | hother
  · -- The spellings before it do not fit.
    have := hbefore other hother
    rw [Bool.not_eq_true', ← Bool.not_eq_true] at this
    exact this ((startsWith_iff _ _).mpr fits')
  rcases List.mem_cons.mp hother with rfl | hother
  · omega
  · -- Of two that fit the shorter one is the beginning of the longer one.
    have shorter : sp.letters.toList <+: other.letters.toList := by
      refine List.prefix_of_prefix_length_le fits fits' ?_
      rw [String.length_toList, String.length_toList]
      omega
    have := spellings_pairwise
    rw [hsplit, List.pairwise_append, List.pairwise_cons] at this
    exact this.2.1.1 other hother shorter

/-- A word in which no modifier is found starts with no spelling. -/
theorem not_startsWith_of_spelling?_eq_none {token : Token}
    (h : Parser.spelling? token = none) {letters : String} (hl : letters ∈ Grammar.spellings) :
    ¬letters.toList <+: token.text.toList := by
  obtain ⟨sp, hsp, rfl⟩ := (mem_spellings_iff letters).mp hl
  have := List.find?_eq_none.mp h sp hsp
  exact fun fits => this ((startsWith_iff _ _).mpr fits)

/-! ## Arguments of modifiers -/

/-- A comparison sign is no numeral and not the end of the input. -/
theorem kind_of_comparison? {kind : TokenKind} {op : Comparison} (h : comparison? kind = some op) :
    kind ≠ .integer ∧ kind ≠ .endOfInput := by
  constructor <;> rintro rfl <;> cases h

/-- What is read as a condition is one of the grammar. -/
private theorem reads_condition (h : Regular s.upcoming) :
    Reads s Parser.condition fun node t =>
      ∃ bound : Option Bound, node = bound.map Bound.toNode ∧
        (t.Clean → Grammar.Condition s.upcoming bound t.upcoming) := by
  refine .nextKind ?_
  cases hc : comparison? s.next.kind with
  | none =>
    exact .pure h ⟨none, rfl, fun _ => .absent (ends_iff.mpr (by rw [hc]; rfl))⟩
  | some op =>
    obtain ⟨notInteger, notEnd⟩ := kind_of_comparison? hc
    have leads := leads_advance h fun big => notInteger big.1
    -- The sign is read, and a literal has to follow.
    refine .advance h (fun big => notInteger big.1) ?_
    refine (reads_literal leads.regular).bind fun node t leads' found => ?_
    obtain ⟨n, hnode, derives⟩ := found
    refine .pure leads'.regular ⟨some ⟨op, n⟩, by rw [hnode]; rfl, fun clean => ?_⟩
    rw [(upcoming_advance h notEnd).1]
    exact .given hc (derives clean)

/-- What is read as an amount is one of the grammar. -/
private theorem reads_amount (h : Regular s.upcoming) :
    Reads s Parser.amount fun node t =>
      ∃ amount : Option Nat, node = amount.map (fun n => .integer n) ∧
        (t.Clean → Grammar.Amount s.upcoming amount t.upcoming) := by
  refine .nextKind ?_
  by_cases kind : s.next.kind = .integer
  · rw [if_pos kind]
    refine (reads_literal h).bind fun node t leads found => ?_
    obtain ⟨n, hnode, derives⟩ := found
    exact .pure leads.regular ⟨some n, by rw [hnode]; rfl, fun clean => .given (derives clean)⟩
  · rw [if_neg kind]
    exact .pure h ⟨none, rfl, fun _ => .absent (ends_beq_iff.mpr kind)⟩

/-! ## Modifiers -/

/-- What reading a modifier of the roll `operand` leaves. -/
def IsModifier (s : ParserState) (operand node : Node) (t : ParserState) : Prop :=
  t.stream.weight < s.stream.weight ∧ ∃ step : Step, node = step.toNode operand ∧
    (t.Clean → Grammar.Modifier s.upcoming step t.upcoming)

/-- What is read as an explosion is one of the grammar. -/
theorem reads_explosion (h : Regular s.upcoming) (kind : s.next.kind = .exclamation)
    (operand : Node) : Reads s (Parser.explosion operand) (IsModifier s operand) := by
  have notEnd : s.next.kind ≠ .endOfInput := by rw [kind]; decide
  have small := Token.not_isOversized kind (by decide)
  have leads := leads_advance h small
  -- The mark is one token, so less is left behind it.
  have lighter := weight_advance_lt h notEnd
  have hu := (upcoming_advance h notEnd).1
  refine .advance h small (.peek ?_)
  -- The letter for a penetrating explosion stands at the front of the word behind the mark.
  by_cases letter : s.advance.next.kind = .identifier ∧ Parser.startsWith s.advance.next "p"
  · obtain ⟨derives, leads', -⟩ := letters_advanceBy "p" leads.regular letter.1
      ((startsWith_iff _ _).mp letter.2) (by decide)
    simp only [letter, and_self, if_true]
    refine .advanceBy leads' ?_
    refine (reads_condition leads'.regular).bind fun node t leads'' found => ?_
    obtain ⟨bound, hnode, derives'⟩ := found
    refine .pure leads''.regular ⟨?_, .explode true bound, by rw [hnode]; rfl, fun clean => ?_⟩
    · exact Nat.lt_of_le_of_lt (Nat.le_trans leads''.weight leads'.weight) lighter
    · rw [hu]
      exact .penetrate kind derives (derives' clean)
  · simp only [if_neg letter]
    refine (reads_condition leads.regular).bind fun node t leads' found => ?_
    obtain ⟨bound, hnode, derives⟩ := found
    refine .pure leads'.regular ⟨?_, .explode false bound, by rw [hnode]; rfl, fun clean => ?_⟩
    · exact Nat.lt_of_le_of_lt leads'.weight lighter
    · rw [hu]
      exact .explode kind (lacks_iff.mpr letter) (derives clean)

/-- The argument that a modifier takes. -/
def argumentOf : Modifier → ParseM (Option Node)
  | .keep | .drop => Parser.amount
  | .reroll | .critical => Parser.condition
  | _ => pure none

/-- A modifier is read in two steps, its letters and its argument. -/
theorem spelled_eq (sp : Spelling) (operand : Node) :
    Parser.spelled sp operand =
      Parser.advanceBy sp.letters.length >>= fun _ =>
      argumentOf sp.modifier >>= fun argument =>
      pure (.make (.modifier sp.modifier) sp.attributes (operand :: argument.toList)) := by
  obtain ⟨letters, modifier, attributes⟩ := sp
  cases modifier <;> rfl

/-- The modifiers that keep or drop dice take a number, which is all that varies in them. -/
theorem takes_counted {letters : String} {make : Option Nat → Step}
    (h : (letters, make) ∈ Grammar.counted) (amount : Option Nat) :
    (make amount).modifier = (make none).modifier ∧
      (make amount).attributes = (make none).attributes ∧
      (make amount).argument = amount.map (fun n => .integer n) ∧
      argumentOf (make none).modifier = Parser.amount := by
  obtain ⟨highest, rfl | rfl⟩ := Grammar.exists_of_counted h
  · exact ⟨rfl, rfl, rfl, rfl⟩
  · exact ⟨rfl, rfl, rfl, rfl⟩

/-- The modifiers that reroll or mark dice take a condition, which is all that varies in them. -/
theorem takes_conditional {letters : String} {make : Option Bound → Step}
    (h : (letters, make) ∈ Grammar.conditional) (bound : Option Bound) :
    (make bound).modifier = (make none).modifier ∧
      (make bound).attributes = (make none).attributes ∧
      (make bound).argument = bound.map Bound.toNode ∧
      argumentOf (make none).modifier = Parser.condition := by
  obtain ⟨variant, rfl | rfl⟩ := Grammar.exists_of_conditional h
  · exact ⟨rfl, rfl, rfl, rfl⟩
  · exact ⟨rfl, rfl, rfl, rfl⟩

/-- A plain modifier takes no argument. -/
theorem takes_plain {letters : String} {step : Step} (h : (letters, step) ∈ Grammar.plain) :
    step.argument = none ∧ argumentOf step.modifier = pure none := by
  obtain ⟨descending, rfl⟩ := Grammar.exists_of_plain h
  exact ⟨rfl, rfl⟩

/-- What is read as a modifier is one of the grammar, with the longest spelling that fits. -/
theorem reads_spelled {sp : Spelling} (h : Regular s.upcoming) (kind : s.next.kind = .identifier)
    (hsp : Parser.spelling? s.next = some sp) (operand : Node) :
    Reads s (Parser.spelled sp operand) (IsModifier s operand) := by
  obtain ⟨mem, fits, longest⟩ := longest_of_spelling? hsp
  -- The parser took the first spelling of its table that fits, and longer ones come first.
  have longest' : Grammar.Longest sp.letters s.upcoming := by
    intro other hother longer
    obtain ⟨sp', hsp', rfl⟩ := (mem_spellings_iff other).mp hother
    exact lacks_iff.mpr fun begins => longest sp' hsp' longer ((startsWith_iff _ _).mp begins.2)
  have ne : sp.letters ≠ "" := by
    have : ∀ sp ∈ Parser.spellings, sp.letters ≠ "" := by simp [Parser.spellings]
    exact this sp mem
  obtain ⟨letters, leads, lighter⟩ := letters_advanceBy sp.letters h kind fits ne
  rw [spelled_eq]
  refine .advanceBy leads ?_
  -- What is read behind the word depends on the list that the spelling is in.
  cases spelled_of_mem mem with
  | counted word make entry =>
    rw [(takes_counted entry none).2.2.2]
    refine (reads_amount leads.regular).bind fun node t leads' found => ?_
    obtain ⟨amount, hnode, derives⟩ := found
    refine .pure leads'.regular ⟨Nat.lt_of_le_of_lt leads'.weight lighter, make amount, ?_, ?_⟩
    · obtain ⟨modifier, attributes, argument, -⟩ := takes_counted entry amount
      rw [Step.toNode, modifier, attributes, argument, hnode]
    · exact fun clean => .counted entry longest' letters (derives clean)
  | conditional word make entry =>
    rw [(takes_conditional entry none).2.2.2]
    refine (reads_condition leads.regular).bind fun node t leads' found => ?_
    obtain ⟨bound, hnode, derives⟩ := found
    refine .pure leads'.regular ⟨Nat.lt_of_le_of_lt leads'.weight lighter, make bound, ?_, ?_⟩
    · obtain ⟨modifier, attributes, argument, -⟩ := takes_conditional entry bound
      rw [Step.toNode, modifier, attributes, argument, hnode]
    · exact fun clean => .conditional entry longest' letters (derives clean)
  | plain word step entry =>
    rw [(takes_plain entry).2]
    refine .pure leads.regular ⟨lighter, step, ?_, fun _ => .plain entry longest' letters⟩
    rw [Step.toNode, (takes_plain entry).1]

/-- All modifiers of a roll are read: each one makes the tokens lighter, so the steps suffice. -/
private theorem reads_modifiersWithin (steps : Nat) (h : Regular s.upcoming)
    (enough : s.stream.weight ≤ steps) (roll : Node) :
    Reads s (Parser.modifiersWithin steps roll) fun node t =>
      ∃ read : List Step, node = modified roll read ∧
        (t.Clean → Grammar.Modifiers s.upcoming read t.upcoming) := by
  induction steps generalizing s roll with
  | zero =>
    have := s.stream.weight_pos
    omega
  | succ steps ih =>
    -- A modifier first, the others by induction.
    have more : ∀ {p : ParseM Node}, Reads s p (IsModifier s roll) →
        Reads s (p >>= Parser.modifiersWithin steps) fun node t =>
          ∃ read : List Step, node = modified roll read ∧
            (t.Clean → Grammar.Modifiers s.upcoming read t.upcoming) := by
      intro p hp
      refine hp.bind fun node t leads found => ?_
      obtain ⟨lighter, step, hnode, derives⟩ := found
      refine (ih leads.regular (by omega) node).mono fun node' u leads' found => ?_
      obtain ⟨read, hread, derives'⟩ := found
      refine ⟨step :: read, by rw [hread, hnode]; rfl, fun clean => ?_⟩
      exact .more (derives (leads'.clean clean)) (derives' clean)
    rw [Parser.modifiersWithin]
    refine .peek ?_
    by_cases mark : s.next.kind = .exclamation
    · rw [if_pos mark]
      exact more (reads_explosion h mark roll)
    rw [if_neg mark]
    have noMark : Grammar.Ends (· == .exclamation) s.upcoming := ends_beq_iff.mpr mark
    by_cases kind : s.next.kind = .identifier
    · rw [if_pos kind]
      -- A word that is no spelling ends the modifiers, as any other token does.
      cases hsp : Parser.spelling? s.next with
      | some sp => exact more (reads_spelled h kind hsp roll)
      | none =>
        refine .pure h ⟨[], rfl, fun _ => .done noMark fun letters hl => lacks_iff.mpr ?_⟩
        rintro ⟨-, begins⟩
        exact not_startsWith_of_spelling?_eq_none hsp hl ((startsWith_iff _ _).mp begins)
    · rw [if_neg kind]
      refine .pure h ⟨[], rfl, fun _ => .done noMark fun letters _ => lacks_iff.mpr ?_⟩
      exact fun begins => kind begins.1

/-- What is read as modifiers are modifiers of the grammar. -/
theorem reads_modifiers (h : Regular s.upcoming) (roll : Node) :
    Reads s (Parser.modifiers roll) fun node t =>
      ∃ steps : List Step, node = modified roll steps ∧
        (t.Clean → Grammar.Modifiers s.upcoming steps t.upcoming) :=
  .weight (reads_modifiersWithin _ h (Nat.le_refl _) roll)

/-! ## Rolls -/

/-- What is read as the sides of dice are those of dice of the grammar. -/
private theorem reads_sides (h : Regular s.upcoming) :
    Reads s Parser.sides fun value t =>
      ∃ sides : Sides, value = sides.toValue ∧
        (t.Clean → Grammar.Dice s.upcoming sides t.upcoming) := by
  refine .peek ?_
  by_cases fate : s.next.kind = .identifier ∧ Parser.startsWith s.next "dF"
  · simp only [if_pos fate]
    obtain ⟨letters, leads, -⟩ :=
      letters_advanceBy "dF" h fate.1 ((startsWith_iff _ _).mp fate.2) (by decide)
    exact .advanceBy leads (.pure leads.regular ⟨.fate, rfl, fun _ => .fate letters⟩)
  simp only [if_neg fate]
  refine .expect h (by decide) (fun kind => ?_) fun t leads dirty =>
    .pure leads.regular ⟨.faces 0, rfl, fun clean => absurd clean dirty⟩
  have notEnd : s.next.kind ≠ .endOfInput := by rw [kind]; decide
  have leads := leads_advance h (Token.not_isOversized kind (by decide))
  have hu := (upcoming_advance h notEnd).1
  -- A word that only begins with the letter is reported, and then nothing is claimed about the
  -- tokens.
  by_cases text : s.next.text = "d"
  · simp only [text, ne_eq, not_true_eq_false, if_false]
    refine .nextKind ?_
    by_cases percent : s.advance.next.kind = .percent
    · have small := Token.not_isOversized percent (by decide)
      have leads' := leads_advance leads.regular small
      simp only [if_pos percent]
      refine .advance leads.regular small (.pure leads'.regular ⟨.faces 100, rfl, fun _ => ?_⟩)
      rw [hu, (upcoming_advance leads.regular (by rw [percent]; decide)).1]
      exact .hundred kind text percent
    · simp only [if_neg percent]
      refine (reads_integer leads.regular).bind fun n t leads' found => ?_
      obtain ⟨k, hk, derives⟩ := found
      refine .pure leads'.regular ⟨.faces k, by rw [hk]; rfl, fun clean => ?_⟩
      rw [hu]
      exact .faces kind text (derives clean)
  · simp only [ne_eq, text, not_false_eq_true, if_true]
    refine .record leads.regular (.pure leads.regular ⟨.faces 0, rfl, fun clean => ?_⟩)
    exact absurd clean (not_clean_record _ _)

/-- A roll is read with all its modifiers. -/
theorem reads_roll (h : Regular s.upcoming) (count : Node) :
    Reads s (Parser.roll count) fun node t =>
      ∃ sides steps, node = modified (plainRoll count sides) steps ∧
        (t.Clean → ∃ mid, Grammar.Dice s.upcoming sides mid ∧
          Grammar.Modifiers mid steps t.upcoming) := by
  -- First the dice without their modifiers, then these one after another.
  have plain : Reads s (Parser.plainRoll count) fun node t =>
      ∃ sides : Sides, node = plainRoll count sides ∧
        (t.Clean → Grammar.Dice s.upcoming sides t.upcoming) := by
    refine (reads_sides h).bind fun value t leads found => ?_
    obtain ⟨sides, hvalue, derives⟩ := found
    exact .pure leads.regular ⟨sides, by rw [hvalue]; rfl, derives⟩
  refine plain.bind fun node t leads found => ?_
  obtain ⟨sides, hnode, derives⟩ := found
  refine (reads_modifiers leads.regular node).mono fun node' u leads' found => ?_
  obtain ⟨steps, hsteps, derives'⟩ := found
  refine ⟨sides, steps, by rw [hsteps, hnode], fun clean => ?_⟩
  exact ⟨t.upcoming, derives (leads'.clean clean), derives' clean⟩

end DiceNotation
