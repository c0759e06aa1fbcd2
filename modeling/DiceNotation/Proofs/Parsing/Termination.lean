import DiceNotation.Proofs.Parsing.Recovery
import DiceNotation.Proofs.Parsing.Language

/-! # Every rule recovers

Each rule of the parser reads the tree of an expression from any tokens that can be read.  A rule
takes the parser of inner expressions as a parameter, and is compared with the same rule for another
such parser: two parsers that do the same on lighter tokens make rules that do the same.

The loops are given as rounds, so that the equations of the unbounded parser (`Unbounded`) can be
stated.

* `recovers_expressionWithin`   with enough levels the parser recovers from anything
* `parse_wellFormed`            whatever is read, the parser ends with a well-formed tree -/

namespace DiceNotation

open ParserState DiceNotation.Expr
open DiceNotation.Parser (comparison? additive? multiplicative?)

variable {s : ParserState}

/-- The tree of an expression. -/
def IsTree (node : Node) : Prop := ∃ e : Expr, node = e.toNode

/-- The tree of a roll. -/
def IsRollTree (node : Node) : Prop :=
  ∃ (count : Expr) (sides : Sides) (steps : List Step), node = (Expr.roll count sides steps).toNode

/-- The tree of a modified roll is the tree of an expression. -/
private theorem IsRollTree.isTree {node : Node} (h : IsRollTree node) : IsTree node := by
  obtain ⟨count, sides, steps, rfl⟩ := h
  exact ⟨_, rfl⟩

/-! ## Numerals -/

/-- A numeral is a natural number, also where a zero stands in for it. -/
private theorem recovers_integer (ready : s.Ready) :
    Recovers s Parser.integer Parser.integer fun n _ => ∃ k : Nat, n = k := by
  unfold Parser.integer
  apply Recovers.expect ready
  · intro kind
    obtain ⟨n, hn⟩ := ready.numerals s.next List.mem_cons_self kind
    have read : Parser.numeral s.next.text = pure (n : Int) := by rw [Parser.numeral, hn]
    dsimp only
    rw [read]
    exact .pure ready.advance ⟨n, rfl⟩
  · intro t ready' _
    exact .pure ready' ⟨0, rfl⟩

/-- A literal is the tree of a natural number. -/
private theorem recovers_literal (ready : s.Ready) :
    Recovers s Parser.literal Parser.literal fun node _ => ∃ k : Nat, node = .integer k := by
  apply (recovers_integer ready).bind
  rintro n t ready' _ ⟨k, rfl⟩
  exact .pure ready' ⟨k, rfl⟩

/-! ## Rolls and their modifiers -/

/-- A condition is the tree of one, or there is none. -/
private theorem recovers_condition (ready : s.Ready) :
    Recovers s Parser.condition Parser.condition fun node _ =>
      ∃ bound : Option Bound, node = bound.map Bound.toNode := by
  unfold Parser.condition
  apply Recovers.nextKind
  cases comparison? s.next.kind with
  | none => exact .pure ready ⟨none, rfl⟩
  | some op =>
    apply Recovers.advance ready
    apply (recovers_literal ready.advance).bind
    rintro node t ready' _ ⟨k, rfl⟩
    exact .pure ready' ⟨some ⟨op, k⟩, rfl⟩

/-- An amount is the tree of one, or there is none. -/
private theorem recovers_amount (ready : s.Ready) :
    Recovers s Parser.amount Parser.amount fun node _ =>
      ∃ amount : Option Nat, node = amount.map fun n : Nat => .integer n := by
  unfold Parser.amount
  apply Recovers.nextKind
  split
  · apply (recovers_literal ready).bind
    rintro node t ready' _ ⟨k, rfl⟩
    exact .pure ready' ⟨some k, rfl⟩
  · exact .pure ready ⟨none, rfl⟩

/-- What reading a modifier of `operand` leaves: lighter tokens, and the tree of the modifier. -/
def IsStep (s : ParserState) (operand node : Node) (t : ParserState) : Prop :=
  t.weight < s.weight ∧ ∃ step : Step, node = step.toNode operand

/-- An explosion is the tree of a modifier, and something was read. -/
private theorem recovers_explosion (ready : s.Ready) (kind : s.next.kind = .exclamation)
    (operand : Node) :
    Recovers s (Parser.explosion operand) (Parser.explosion operand) (IsStep s operand) := by
  have lighter := ready.weight_advance_lt (by rw [kind]; decide)
  -- The condition behind the letter, if there is one.
  have conditional {t : ParserState} (ready : t.Ready) (light : t.weight < s.weight)
      (penetrating : Bool) :
      Recovers t
        (Parser.condition >>= fun limit => pure (Node.make (.modifier .explode)
          [("penetrate", if penetrating then "yes" else "no")] (operand :: limit.toList)))
        (Parser.condition >>= fun limit => pure (Node.make (.modifier .explode)
          [("penetrate", if penetrating then "yes" else "no")] (operand :: limit.toList)))
        (IsStep s operand) := by
    obtain ⟨node, u, hrun, -, ready', light', bound, rfl⟩ := recovers_condition ready
    refine ⟨_, u, ?_, ?_, ready', light', by omega, .explode penetrating bound, rfl⟩ <;>
      rw [EStateM.run_bind, hrun] <;> rfl
  unfold Parser.explosion
  apply Recovers.advance ready
  apply Recovers.peek
  -- The letter is cut off the word behind the mark, which leaves less to be read.
  by_cases letter : s.advance.next.kind = .identifier ∧ Parser.startsWith s.advance.next "p"
  · simp only [letter, and_self, if_true]
    have cut := ready.advance.advanceBy letter.1 (n := 1) (by decide)
    apply Recovers.advanceBy ready.advance letter.1 (by decide)
    exact conditional cut.1 (by omega) true
  · simp only [if_neg letter]
    exact conditional ready.advance lighter false

/-- A modifier that is spelled with letters is the tree of one, and something was read. -/
private theorem recovers_spelled {sp : Parser.Spelling} (ready : s.Ready)
    (kind : s.next.kind = .identifier) (mem : sp ∈ Parser.spellings) (operand : Node) :
    Recovers s (Parser.spelled sp operand) (Parser.spelled sp operand) (IsStep s operand) := by
  -- No spelling is empty, so letters are taken in any case.
  have positive : 0 < sp.letters.length := by
    have : ∀ sp ∈ Parser.spellings, 0 < sp.letters.length := by decide
    exact this sp mem
  obtain ⟨ready', lighter⟩ := ready.advanceBy kind positive
  rw [spelled_eq]
  apply Recovers.advanceBy ready kind positive
  -- Whatever argument the modifier takes, the letters have been taken already.
  cases spelled_of_mem mem with
  | counted word make entry =>
    rw [(takes_counted entry none).2.2.2]
    apply (recovers_amount ready').bind
    rintro node t ready'' light ⟨amount, rfl⟩
    obtain ⟨modifier, attributes, argument, -⟩ := takes_counted entry amount
    refine .pure ready'' ⟨by omega, make amount, ?_⟩
    rw [Step.toNode, modifier, attributes, argument]
  | conditional word make entry =>
    rw [(takes_conditional entry none).2.2.2]
    apply (recovers_condition ready').bind
    rintro node t ready'' light ⟨bound, rfl⟩
    obtain ⟨modifier, attributes, argument, -⟩ := takes_conditional entry bound
    refine .pure ready'' ⟨by omega, make bound, ?_⟩
    rw [Step.toNode, modifier, attributes, argument]
  | plain word step entry =>
    rw [(takes_plain entry).2]
    refine .pure ready' ⟨lighter, step, ?_⟩
    rw [Step.toNode, (takes_plain entry).1]

/-- A further modifier makes a roll of a roll. -/
theorem IsRollTree.step {node : Node} (h : IsRollTree node) (step : Step) :
    IsRollTree (step.toNode node) := by
  obtain ⟨count, sides, steps, rfl⟩ := h
  refine ⟨count, sides, steps ++ [step], ?_⟩
  rw [Expr.toNode, Expr.toNode, modified_append]

/-- Read one modifier and go on, if there is one. -/
def modifiersRound (next : Node → ParseM Node) (roll : Node) : ParseM Node := do
  let token ← Parser.peek
  if token.kind = .exclamation then
    next (← Parser.explosion roll)
  else if token.kind = .identifier then
    match Parser.spelling? token with
    | some sp => next (← Parser.spelled sp roll)
    | none => return roll
  else return roll

/-- Each round of modifiers reads something, and leaves the tree of a modified roll. -/
private theorem isRound_modifiers (bound : Nat) :
    IsRound bound IsRollTree IsRollTree modifiersRound modifiersRound := by
  intro s next next' ready _ hnext roll hroll
  -- A modifier takes tokens away, so the next round has less to do.
  have more {p : ParseM Node} (hp : Recovers s p p (IsStep s roll)) :
      Recovers s (p >>= next) (p >>= next') fun node _ => IsRollTree node := by
    apply hp.bind
    rintro node t ready' _ ⟨lighter, step, rfl⟩
    exact hnext t _ ready' lighter (hroll.step step)
  unfold modifiersRound
  apply Recovers.peek
  split
  · next kind => exact more (recovers_explosion ready kind roll)
  · split
    · next kind =>
      split
      · next sp found =>
        exact more (recovers_spelled ready kind (List.mem_of_find?_eq_some found) roll)
      · exact .pure ready hroll
    · exact .pure ready hroll

/-- Modifiers end with the tree of a modified roll. -/
private theorem recovers_modifiers (ready : s.Ready) {roll : Node} (hroll : IsRollTree roll) :
    Recovers s (Parser.modifiers roll) (Parser.modifiers roll) fun node _ => IsRollTree node := by
  show Recovers s (Parser.modifiersWithin s.weight roll) (Parser.modifiersWithin s.weight roll) _
  exact recovers_loop (isRound_modifiers s.weight) (fun _ => rfl) (fun _ => rfl) _ _ ready
    (Nat.le_refl _) (Nat.le_refl _) (Nat.le_refl _) hroll

/-- The sides of dice are a number or those of fate dice, also where they are wrong. -/
private theorem recovers_sides (ready : s.Ready) :
    Recovers s Parser.sides Parser.sides fun value _ => ∃ sides : Sides, value = sides.toValue := by
  unfold Parser.sides
  apply Recovers.peek
  by_cases fate : s.next.kind = .identifier ∧ Parser.startsWith s.next "dF"
  · simp only [if_pos fate]
    apply Recovers.advanceBy ready fate.1 (by decide)
    exact .pure (ready.advanceBy fate.1 (by decide)).1 ⟨.fate, rfl⟩
  · simp only [if_neg fate]
    -- A letter has to come first; without one the dice have no sides.
    apply Recovers.expect ready
    · intro kind
      by_cases text : s.next.text = "d"
      · simp only [text, ne_eq, not_true_eq_false, if_false]
        apply Recovers.nextKind
        split
        · apply Recovers.advance ready.advance
          exact .pure ready.advance.advance ⟨.faces 100, rfl⟩
        · apply (recovers_integer ready.advance).bind
          rintro n t ready' _ ⟨k, rfl⟩
          exact .pure ready' ⟨.faces k, rfl⟩
      · -- Another word is stepped over, with a diagnostic.
        simp only [ne_eq, text, not_false_eq_true, if_true]
        apply Recovers.record
        exact .pure (ready.advance.record _ _) ⟨.faces 0, rfl⟩
    · intro t ready' _
      exact .pure ready' ⟨.faces 0, rfl⟩

/-- A roll is the tree of an expression. -/
private theorem recovers_roll (ready : s.Ready) (count : Expr) :
    Recovers s (Parser.roll count.toNode) (Parser.roll count.toNode) fun node _ =>
      IsTree node := by
  have plain : Recovers s (Parser.plainRoll count.toNode) (Parser.plainRoll count.toNode)
      fun node _ => IsRollTree node := by
    apply (recovers_sides ready).bind
    rintro value t ready' _ ⟨sides, rfl⟩
    exact .pure ready' ⟨count, sides, [], rfl⟩
  apply plain.bind
  intro node t ready' _ hnode
  exact (recovers_modifiers ready' hnode).mono fun _ _ => IsRollTree.isTree

/-! ## Lists -/

/-- The two parsers recover from tokens of at most the given weight, and do the same there. -/
def RecoversAll (bound : Nat) (p q : ParseM Node) : Prop :=
  ∀ s : ParserState, s.Ready → s.weight ≤ bound → Recovers s p q fun node _ => IsTree node

/-- The trees of several expressions. -/
def IsTrees (nodes : List Node) : Prop := ∃ es : List Expr, nodes = es.map toNode

/-- Trees of expressions with one more behind them. -/
private theorem IsTrees.snoc {nodes : List Node} {node : Node} (h : IsTrees nodes)
    (hnode : IsTree node) : IsTrees (nodes ++ [node]) := by
  obtain ⟨es, rfl⟩ := h
  obtain ⟨e, rfl⟩ := hnode
  exact ⟨es ++ [e], by rw [List.map_append, List.map_singleton]⟩

section Rules

variable {bound : Nat} {inner inner' : ParseM Node}

/-- Read a comma and one member and go on, if there is a comma. -/
def membersRound (inner : ParseM Node) (next : List Node → ParseM (List Node))
    (members : List Node) : ParseM (List Node) := do
  if (← Parser.nextKind) = .comma then
    Parser.advance
    let member ← inner
    next (members ++ [member])
  else return members

/-- Each round of a list reads something, and adds the tree of an expression. -/
private theorem isRound_members (hinner : RecoversAll bound inner inner') :
    IsRound bound IsTrees IsTrees (membersRound inner) (membersRound inner') := by
  intro s next next' ready light hnext members hmembers
  unfold membersRound
  apply Recovers.nextKind
  split
  · next comma =>
    have lighter := ready.weight_advance_lt (by rw [comma]; decide)
    apply Recovers.advance ready
    apply (hinner _ ready.advance (by omega)).bind
    intro member t ready' light' hmember
    exact hnext t _ ready' (by omega) (hmembers.snoc hmember)
  · exact .pure ready hmembers

/-- A list is a list of trees of expressions. -/
private theorem recovers_members (hinner : RecoversAll bound inner inner') (ready : s.Ready)
    (light : s.weight ≤ bound) (closing : TokenKind) :
    Recovers s (Parser.members inner closing) (Parser.members inner' closing) fun nodes _ =>
      IsTrees nodes := by
  unfold Parser.members
  apply Recovers.nextKind
  split
  · exact .pure ready ⟨[], rfl⟩
  · apply (hinner s ready light).bind
    rintro first t ready' light' ⟨e, rfl⟩
    show Recovers t (Parser.membersWithin inner t.weight [e.toNode])
      (Parser.membersWithin inner' t.weight [e.toNode]) _
    exact recovers_loop (isRound_members hinner) (fun _ => rfl) (fun _ => rfl) _ _ ready'
      (Nat.le_trans light' light) (Nat.le_refl _) (Nat.le_refl _) ⟨[e], rfl⟩

/-! ## Factors -/

/-- A call is the tree of an expression. -/
private theorem recovers_functionCall (hinner : RecoversAll bound inner inner') (ready : s.Ready)
    (light : s.weight ≤ bound + 1) (kind : s.next.kind = .identifier) :
    Recovers s (Parser.functionCall inner) (Parser.functionCall inner') fun node _ =>
      IsTree node := by
  have lighter := ready.weight_advance_lt (by rw [kind]; decide)
  unfold Parser.functionCall
  apply Recovers.peek
  apply Recovers.advance ready
  apply Recovers.expect ready.advance
  · intro opens
    have lighter' := ready.advance.weight_advance_le
    apply (recovers_members hinner ready.advance.advance (by omega) _).bind
    rintro nodes t ready' _ ⟨es, rfl⟩
    -- The call is what was read, whether it is closed or not.
    have call : IsTree (.make .function [("name", .text s.next.text)] (es.map toNode)) :=
      ⟨.call s.next.text es, by rw [toNode, toNodes_eq_map]⟩
    apply Recovers.expect ready'
    · exact fun _ => .pure ready'.advance call
    · exact fun u ready'' _ => .pure ready'' call
  · exact fun t ready' _ => .pure ready' ⟨.call s.next.text [], rfl⟩

/-- What stands in parentheses is the tree of an expression. -/
private theorem recovers_bracketed (hinner : RecoversAll bound inner inner') (ready : s.Ready)
    (light : s.weight ≤ bound + 1) (opens : s.next.kind = .parenthesisOpen) :
    Recovers s (Parser.bracketed inner) (Parser.bracketed inner') fun node _ => IsTree node := by
  have lighter := ready.weight_advance_lt (by rw [opens]; decide)
  unfold Parser.bracketed
  apply Recovers.advance ready
  apply (hinner _ ready.advance (by omega)).bind
  intro root t ready' _ hroot
  apply Recovers.expect ready'
  · exact fun _ => .pure ready'.advance hroot
  · exact fun u ready'' _ => .pure ready'' hroot

/-- A group is the tree of an expression, with its repeats or without. -/
private theorem recovers_closeGroup (ready : s.Ready) (es : List Expr) :
    Recovers s (closeGroup (es.map toNode)) (closeGroup (es.map toNode)) fun node _ =>
      IsTree node := by
  have isGroup (repeats : Option Nat) :
      IsTree (.make .group (groupAttributes repeats) (es.map toNode)) :=
    ⟨.group es repeats, by rw [toNode, toNodes_eq_map]⟩
  unfold closeGroup
  apply Recovers.nextKind
  split
  · apply Recovers.advance ready
    apply (recovers_integer ready.advance).bind
    rintro n t ready' _ ⟨k, rfl⟩
    exact .pure ready' (isGroup (some k))
  · exact .pure ready (isGroup none)

/-- A group is the tree of an expression. -/
private theorem recovers_group (hinner : RecoversAll bound inner inner') (ready : s.Ready)
    (light : s.weight ≤ bound + 1) (opens : s.next.kind = .braceOpen) :
    Recovers s (Parser.group inner) (Parser.group inner') fun node _ => IsTree node := by
  have lighter := ready.weight_advance_lt (by rw [opens]; decide)
  unfold Parser.group
  apply Recovers.advance ready
  apply (recovers_members hinner ready.advance (by omega) _).bind
  rintro nodes t ready' _ ⟨es, rfl⟩
  apply Recovers.expect ready'
  · exact fun _ => recovers_closeGroup ready'.advance es
  · exact fun u ready'' _ => recovers_closeGroup ready'' es

/-- A count or a roll is the tree of an expression. -/
private theorem recovers_countOrRoll (ready : s.Ready) (count : Expr) :
    Recovers s (countOrRoll count.toNode) (countOrRoll count.toNode) fun node _ =>
      IsTree node := by
  unfold countOrRoll
  apply Recovers.nextKind
  split
  · exact recovers_roll ready count
  · exact .pure ready ⟨count, rfl⟩

/-- A factor is the tree of an expression, also where a zero stands in for it. -/
private theorem recovers_factor (hinner : RecoversAll bound inner inner') :
    RecoversAll (bound + 1) (Parser.factor inner) (Parser.factor inner') := by
  intro s ready light
  unfold Parser.factor
  apply Recovers.peek
  -- One case for each token that a factor can begin with.
  split
  case h_1 kind =>
    split
    · exact recovers_roll ready (.literal 1)
    · exact recovers_functionCall hinner ready light kind
  case h_2 opens =>
    apply (recovers_bracketed hinner ready light opens).bind
    rintro root t ready' _ ⟨e, rfl⟩
    exact recovers_countOrRoll ready' e
  case h_3 opens => exact recovers_group hinner ready light opens
  case h_4 kind =>
    apply (recovers_literal ready).bind
    rintro number t ready' _ ⟨n, rfl⟩
    exact recovers_countOrRoll ready' (.literal n)
  case h_5 =>
    -- Nothing begins here.  A token that closes something is left to the rule that opened it.
    have recorded := ready.record (.unexpectedToken s.next .integer) s.next.position
    apply Recovers.record
    split
    · apply Recovers.advance recorded
      exact .pure recorded.advance ⟨.literal 0, rfl⟩
    · exact .pure recorded ⟨.literal 0, rfl⟩

/-! ## Operators -/

/-- Read a factor, and behind the sign of a power go on with the exponent. -/
def powerRound (inner : ParseM Node) (next : Unit → ParseM Node) (_ : Unit) : ParseM Node := do
  let base ← Parser.factor inner
  if (← Parser.nextKind) = .doubleAsterisk then
    Parser.advance
    let exponent ← next ()
    return .make (.operator .exponent) [] [base, exponent]
  else return base

/-- Each round of a power reads something, and ends with the tree of an expression. -/
private theorem isRound_power (hinner : RecoversAll bound inner inner') :
    IsRound (bound + 1) (fun _ => True) IsTree (powerRound inner) (powerRound inner') := by
  intro s next next' ready light hnext _ _
  unfold powerRound
  apply (recovers_factor hinner s ready light).bind
  rintro base t ready' light' ⟨e, rfl⟩
  apply Recovers.nextKind
  split
  · next raised =>
    -- The sign is taken away, so the next round has less to do.
    have lighter := ready'.weight_advance_lt (by rw [raised]; decide)
    apply Recovers.advance ready'
    apply (hnext _ () ready'.advance (by omega) trivial).bind
    rintro exponent u ready'' _ ⟨e', rfl⟩
    exact .pure ready'' ⟨.binary .exponent e e', rfl⟩
  · exact .pure ready' ⟨e, rfl⟩

/-- The exponents behind a factor, which no roll is handed on to. -/
def powerLoop (inner : ParseM Node) (steps : Nat) (_ : Unit) : ParseM Node :=
  Parser.powerWithin inner steps

/-- A power is the tree of an expression. -/
private theorem recovers_power (hinner : RecoversAll bound inner inner') :
    RecoversAll (bound + 1) (Parser.power inner) (Parser.power inner') := by
  intro s ready light
  show Recovers s (powerLoop inner s.weight ()) (powerLoop inner' s.weight ()) _
  exact recovers_loop (isRound_power hinner) (fun _ => rfl) (fun _ => rfl) _ _ ready light
    (Nat.le_refl _) (Nat.le_refl _) trivial

/-- Read an operator and one operand and go on, if there is an operator. -/
def tailRound (operator? : TokenKind → Option Operator) (operand : ParseM Node)
    (next : Node → ParseM Node) (left : Node) : ParseM Node := do
  match operator? (← Parser.nextKind) with
  | none => return left
  | some op =>
    Parser.advance
    let right ← operand
    next (.make (.operator op) [] [left, right])

/-- Each round of a chain reads something, and adds an operand. -/
private theorem isRound_tail {operator? : TokenKind → Option Operator}
    {operand operand' : ParseM Node}
    (notEnd : operator? .endOfInput = none) (h : RecoversAll bound operand operand') :
    IsRound bound IsTree IsTree (tailRound operator? operand) (tailRound operator? operand') := by
  intro s next next' ready light hnext left hleft
  unfold tailRound
  apply Recovers.nextKind
  cases hop : operator? s.next.kind with
  | none => exact .pure ready hleft
  | some op =>
    -- No operator is the end of the input, so there is a token to be taken away.
    have notEnd : s.next.kind ≠ .endOfInput := by
      intro atEnd
      rw [atEnd, notEnd] at hop
      cases hop
    have lighter := ready.weight_advance_lt notEnd
    obtain ⟨e, rfl⟩ := hleft
    apply Recovers.advance ready
    apply (h _ ready.advance (by omega)).bind
    rintro right t ready' light' ⟨e', rfl⟩
    exact hnext t _ ready' (by omega) ⟨.binary op e e', rfl⟩

/-- The rest of a chain ends with the tree of an expression. -/
private theorem recovers_tail {operator? : TokenKind → Option Operator}
    {operand operand' : ParseM Node}
    (notEnd : operator? .endOfInput = none) (h : RecoversAll bound operand operand')
    (ready : s.Ready) (light : s.weight ≤ bound) {first : Node} (hfirst : IsTree first) :
    Recovers s (Parser.tail operator? operand first) (Parser.tail operator? operand' first)
      fun node _ => IsTree node := by
  show Recovers s (Parser.tailWithin operator? operand s.weight first)
    (Parser.tailWithin operator? operand' s.weight first) _
  exact recovers_loop (isRound_tail notEnd h) (fun _ => rfl) (fun _ => rfl) _ _ ready light
    (Nat.le_refl _) (Nat.le_refl _) hfirst

/-- A term is the tree of an expression. -/
private theorem recovers_term (hinner : RecoversAll bound inner inner') :
    RecoversAll (bound + 1) (Parser.term inner) (Parser.term inner') := by
  intro s ready light
  have hpower := recovers_power hinner
  apply (hpower s ready light).bind
  intro first t ready' light' hfirst
  exact recovers_tail rfl hpower ready' (by omega) hfirst

/-- A sum is the tree of an expression, with its sign or without. -/
private theorem recovers_simple (hinner : RecoversAll bound inner inner') :
    RecoversAll (bound + 1) (Parser.simple inner) (Parser.simple inner') := by
  intro s ready light
  have hterm := recovers_term hinner
  -- The terms behind the sign, the first of which may be negated.
  have terms {t : ParserState} (ready : t.Ready) (light : t.weight ≤ bound + 1)
      (wrap : Node → Node) (hwrap : ∀ node, IsTree node → IsTree (wrap node)) :
      Recovers t
        (Parser.term inner >>= fun first => Parser.tail additive? (Parser.term inner) (wrap first))
        (Parser.term inner' >>= fun first =>
          Parser.tail additive? (Parser.term inner') (wrap first))
        fun node _ => IsTree node := by
    apply (hterm t ready light).bind
    intro first u ready' light' hfirst
    exact recovers_tail rfl hterm ready' (by omega) (hwrap first hfirst)
  -- The sign itself is stepped over.
  have signed (wrap : Node → Node) (hwrap : ∀ node, IsTree node → IsTree (wrap node)) :
      Recovers s
        (Parser.advance >>= fun _ => Parser.term inner >>= fun first =>
          Parser.tail additive? (Parser.term inner) (wrap first))
        (Parser.advance >>= fun _ => Parser.term inner' >>= fun first =>
          Parser.tail additive? (Parser.term inner') (wrap first))
        fun node _ => IsTree node := by
    apply Recovers.advance ready
    have lighter := ready.weight_advance_le
    exact terms ready.advance (by omega) wrap hwrap
  have negated (node : Node) (h : IsTree node) : IsTree (.make .negate [] [node]) := by
    obtain ⟨e, rfl⟩ := h
    exact ⟨.negate e, rfl⟩
  unfold Parser.simple
  apply Recovers.nextKind
  -- Whether there is a sign, and which, decides how the first term is wrapped.
  split
  · dsimp only
    split
    · exact signed _ negated
    · exact terms ready light _ negated
  · dsimp only
    split
    · exact signed _ fun _ => id
    · exact terms ready light _ fun _ => id

/-- A comparison is the tree of an expression. -/
private theorem recovers_comparing (hinner : RecoversAll bound inner inner') :
    RecoversAll (bound + 1) (Parser.comparing inner) (Parser.comparing inner') := by
  intro s ready light
  have hsimple := recovers_simple hinner
  unfold Parser.comparing
  apply (hsimple s ready light).bind
  rintro left t ready' light' ⟨e, rfl⟩
  apply Recovers.nextKind
  -- At most one comparison is read, so there is no round to repeat.
  cases comparison? t.next.kind with
  | none => exact .pure ready' ⟨e, rfl⟩
  | some op =>
    have lighter := ready'.weight_advance_le
    apply Recovers.advance ready'
    apply (hsimple _ ready'.advance (by omega)).bind
    rintro right u ready'' _ ⟨e', rfl⟩
    exact .pure ready'' ⟨.compare op e e', rfl⟩

end Rules

/-! ## Expressions -/

/-- Expressions that go down so many levels. -/
def expressionLoop (levels : Nat) (_ : Unit) : ParseM Node := Parser.expressionWithin levels

/-- One level, given what reads the levels below. -/
def expressionRound (next : Unit → ParseM Node) (_ : Unit) : ParseM Node :=
  Parser.comparing (next ())

/-- A level reads the levels below only behind an opening token, where the tokens are lighter. -/
private theorem isRound_expression (bound : Nat) :
    IsRound bound (fun _ => True) IsTree expressionRound expressionRound := by
  intro s next next' ready _ hnext _ _
  have positive : 0 < s.weight := s.stream.weight_pos
  obtain ⟨below, hbelow⟩ : ∃ k, s.weight = k + 1 := Nat.exists_eq_add_one.mpr positive
  have hinner : RecoversAll below (next ()) (next' ()) := by
    intro t ready' light
    exact hnext t () ready' (by omega) trivial
  exact recovers_comparing hinner s ready (by omega)

/-- An expression is read from any tokens that can be read. -/
theorem recovers_expression (bound : Nat) :
    RecoversAll bound Parser.expression Parser.expression := by
  intro s ready light
  show Recovers s (expressionLoop s.weight ()) (expressionLoop s.weight ()) _
  exact recovers_loop (isRound_expression bound) (fun _ => rfl) (fun _ => rfl) _ _ ready light
    (Nat.le_refl _) (Nat.le_refl _) trivial

/-- Further members of a list, as long as there are any. -/
def furtherMembers (members : List Node) : ParseM (List Node) := do
  Parser.membersWithin Parser.expression (← Parser.weight) members

/-- In this state the loops and the recursion of the parser go on as if the number of their rounds
    and levels had no bound. -/
structure Unbounded (s : ParserState) : Prop where
  expression : Parser.expression.run s = (Parser.comparing Parser.expression).run s
  power : (Parser.power Parser.expression).run s =
    (powerRound Parser.expression (fun _ => Parser.power Parser.expression) ()).run s
  product : ∀ first, IsTree first →
    (Parser.tail multiplicative? (Parser.power Parser.expression) first).run s =
      (tailRound multiplicative? (Parser.power Parser.expression)
        (Parser.tail multiplicative? (Parser.power Parser.expression)) first).run s
  sum : ∀ first, IsTree first →
    (Parser.tail additive? (Parser.term Parser.expression) first).run s =
      (tailRound additive? (Parser.term Parser.expression)
        (Parser.tail additive? (Parser.term Parser.expression)) first).run s
  members : ∀ nodes, IsTrees nodes →
    (furtherMembers nodes).run s = (membersRound Parser.expression furtherMembers nodes).run s
  modifiers : ∀ roll, IsRollTree roll →
    (Parser.modifiers roll).run s = (modifiersRound Parser.modifiers roll).run s

/-- No bound on rounds or levels cuts the parser off. -/
private theorem unbounded (ready : s.Ready) : Unbounded s where
  -- Each loop is a round of the parser, repeated as often as the weight allows.
  expression := by
    have round := isRound_expression s.weight
    exact recovers_unrolled expressionLoop (fun _ => Parser.expression) round (fun _ => rfl)
      (fun _ _ => rfl) ready (Nat.le_refl _) (b := ()) trivial
  power := by
    have round := isRound_power (recovers_expression s.weight)
    exact recovers_unrolled (powerLoop Parser.expression) (fun _ => Parser.power Parser.expression)
      round (fun _ => rfl) (fun _ _ => rfl) ready (Nat.le_succ _) (b := ()) trivial
  product first hfirst := by
    have operand := recovers_power (recovers_expression s.weight)
    exact recovers_unrolled (Parser.tailWithin multiplicative? _) (Parser.tail multiplicative? _)
      (isRound_tail rfl operand) (fun _ => rfl) (fun _ _ => rfl) ready (Nat.le_succ _) hfirst
  sum first hfirst := by
    have operand := recovers_term (recovers_expression s.weight)
    exact recovers_unrolled (Parser.tailWithin additive? _) (Parser.tail additive? _)
      (isRound_tail rfl operand) (fun _ => rfl) (fun _ _ => rfl) ready (Nat.le_succ _) hfirst
  members nodes hnodes := by
    have round := isRound_members (recovers_expression s.weight)
    exact recovers_unrolled (Parser.membersWithin Parser.expression) furtherMembers round
      (fun _ => rfl) (fun _ _ => rfl) ready (Nat.le_refl _) hnodes
  modifiers roll hroll := by
    have round := isRound_modifiers s.weight
    exact recovers_unrolled Parser.modifiersWithin Parser.modifiers round (fun _ => rfl)
      (fun _ _ => rfl) ready (Nat.le_refl _) hroll

/-! ## Whole inputs -/

/-- A numeral token as the parser needs it: a run of digits, and not too many of them. -/
def Token.IsReadable (token : Token) : Prop :=
  token.kind = .integer → Numeral.IsDigits token.text ∧ token.text.length ≤ Numeral.maxDigits

/-- A numeral that is readable is read. -/
private theorem Token.IsReadable.read {token : Token} (h : token.IsReadable)
    (kind : token.kind = .integer) : ∃ n : Nat, Numeral.read token.text = .ok n := by
  obtain ⟨digits, short⟩ := h kind
  rw [Numeral.read_of_isDigits digits, if_neg (Nat.not_lt.mpr short)]
  exact ⟨_, rfl⟩

/-- A stream over any list of tokens ends somewhere. -/
theorem ready_ofTokens {tokens : List Token} (readable : ∀ token ∈ tokens, token.IsReadable)
    (diagnostics : List Diagnostic) : ParserState.Ready ⟨.ofTokens tokens, diagnostics⟩ := by
  have upcoming : (TokenStream.ofTokens tokens).upcoming = TokenStream.withEnd tokens ∧
      (∃ token ∈ TokenStream.withEnd tokens, token.kind = .endOfInput) ∧
      ∀ token ∈ TokenStream.withEnd tokens, token.kind = .integer → token ∈ tokens := by
    unfold TokenStream.ofTokens TokenStream.withEnd
    -- An end of input is appended unless the list has one; no numeral is added.
    cases hlast : tokens.getLast? with
    | none => simp [TokenStream.upcoming, Token.endAt]
    | some last =>
      have mem : last ∈ tokens := List.mem_of_getLast? hlast
      have ne : tokens ≠ [] := List.ne_nil_of_mem mem
      by_cases atEnd : last.kind = .endOfInput
      · simp only [atEnd, if_true]
        obtain ⟨first, rest, rfl⟩ := List.exists_cons_of_ne_nil ne
        exact ⟨rfl, ⟨last, mem, atEnd⟩, fun _ ht _ => ht⟩
      · simp only [atEnd, if_false]
        obtain ⟨first, rest, rfl⟩ := List.exists_cons_of_ne_nil ne
        refine ⟨rfl, ⟨_, List.mem_append_right _ List.mem_cons_self, rfl⟩, ?_⟩
        intro token ht hk
        rcases List.mem_append.mp ht with ht | ht
        · exact ht
        · rw [List.mem_singleton.mp ht] at hk
          cases hk
  -- These are the three things that readiness asks for.
  obtain ⟨same, ends, kept⟩ := upcoming
  refine ⟨?_, fun token ht hk => ?_⟩
  · show ∃ token ∈ (TokenStream.ofTokens tokens).upcoming, _
    rw [same]
    exact ends
  · change token ∈ (TokenStream.ofTokens tokens).upcoming at ht
    rw [same] at ht
    exact (readable token (kept token ht hk)).read hk

/-- What is read in a state that is ready is the tree of an expression. -/
theorem recovers_whole (ready : s.Ready) :
    Recovers s Parser.whole Parser.whole fun result _ => IsTree result.root := by
  unfold Parser.whole
  apply (recovers_expression s.weight s ready (Nat.le_refl _)).bind
  intro root t ready' _ hroot
  apply Recovers.peek
  split
  · apply Recovers.record
    apply Recovers.get
    exact .pure (ready'.record _ _) hroot
  · apply Recovers.get
    exact .pure ready' hroot

/-- Any text and any list of tokens whose numerals are not too long is read to a well-formed tree,
    whatever is diagnosed, and no bound on the parser's rounds and levels plays a part in it. -/
theorem parse_wellFormed :
    (∀ text, (∀ token ∈ lex text, token.kind = .integer →
        token.text.length ≤ Numeral.maxDigits) →
      ∃ result, parse text = .ok result ∧ result.root.WellFormed) ∧
    (∀ tokens : List Token, (∀ token ∈ tokens, token.IsReadable) →
      ∃ result state, Parser.whole.run (.ofTokens tokens) = .ok result state ∧
        result.root.WellFormed) ∧
    ∀ s : ParserState, s.Ready → Unbounded s := by
  -- The parser never looks at the text, so that the claim on tokens gives the one on texts.
  have readAll (tokens : List Token) (readable : ∀ token ∈ tokens, token.IsReadable)
      (diagnostics : List Diagnostic) :
      ∃ result state, Parser.whole.run ⟨.ofTokens tokens, diagnostics⟩ = .ok result state ∧
        result.root.WellFormed := by
    have ready := ready_ofTokens readable diagnostics
    obtain ⟨result, state, hrun, -, -, -, e, hroot⟩ := recovers_whole ready
    exact ⟨result, state, hrun, hroot ▸ toNode_wellFormed e⟩
  refine ⟨fun text short => ?_, fun tokens readable => readAll tokens readable [],
    fun s ready => unbounded ready⟩
  have readable : ∀ token ∈ lex text, token.IsReadable := fun token ht kind =>
    ⟨(regular_lex text).numerals token ht kind, short token ht kind⟩
  obtain ⟨result, state, hrun, wellFormed⟩ :=
    readAll (lex text) readable (lexDiagnostics (lex text))
  refine ⟨result, ?_, wellFormed⟩
  have started : ParserState.ofText text =
      ⟨.ofTokens (lex text), lexDiagnostics (lex text)⟩ := rfl
  rw [parse, started, hrun]

/-- A garbled text, tokens that go on behind their end, and a text that ends too early. -/
theorem parse_wellFormed_garbled :
    (∃ result, parse "(1 +* 2d6khx>\x7b, abs -" = .ok result ∧ result.root.WellFormed) ∧
    (∃ result state, Parser.whole.run (.ofTokens
        [⟨.identifier, 0, "dFkhd"⟩, ⟨.endOfInput, 5, ""⟩, ⟨.integer, 5, "007"⟩]) =
          .ok result state ∧ result.root.WellFormed) ∧
    Unbounded (.ofText "2d") := by
  obtain ⟨text, tokens, states⟩ := parse_wellFormed
  refine ⟨text _ (by decide), tokens _ ?_, states _ (ready_ofTokens ?_ _)⟩
  · simp [Token.IsReadable, Numeral.IsDigits]
    decide
  · intro token ht kind
    exact ⟨(regular_lex "2d").numerals token ht kind, by revert token; decide⟩

end DiceNotation
