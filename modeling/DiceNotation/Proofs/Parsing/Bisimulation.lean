import DiceNotation.Proofs.Parsing.Language
import DiceNotation.Proofs.Printing.Legible
import DiceNotation.Proofs.Printing.Showable

/-! # Two runs of the parser, side by side

The parser looks at the kind and the letters of the next token and at nothing else, and it does only
four things to its state: it steps over a token, it cuts a word, it records that another token was
expected in the place of the next one, and it steps over a word that is no letter `d` and records
that.  A relation between states that allows for no other difference than the parser can see, and
that these four things keep, is an `IsBisimulation`.  Two runs from related states come to the same
result, or to the same error, and their states stay related.

With states that are the same and a property of them, this says that the property is kept.

The results are followed so far that every tree that is read turns out to be printable.

* `Matches.bind`           steps one after the other
* `respects_expression`    two runs read the same expression -/

namespace DiceNotation

open ParserState
open Node (Printable printable_make printable_integer shown_int)
open DiceNotation.Parser (comparison? additive? multiplicative?)

/-! ## Numerals -/

namespace Numeral

/-- The digits of a numeral are digits. -/
private theorem lt_ten_of_digits? {cs : List Char} {digits : List Nat}
    (h : digits? cs = some digits) : ∀ d ∈ digits, d < 10 := by
  have single {c : Char} {d : Nat} (h : Text.digit? c = some d) : d < 10 := by
    obtain ⟨start, found, rfl⟩ := Option.map_eq_some_iff.mp h
    have bounds := List.find?_some found
    simp only [Bool.and_eq_true, decide_eq_true_eq] at bounds
    omega
  -- The cases are those of reading digits: the last one, one behind another, and one behind an
  -- underscore.
  fun_induction digits? cs generalizing digits with
  | case1 => cases h
  | case2 c =>
    obtain ⟨d, found, rfl⟩ := Option.map_eq_some_iff.mp h
    exact List.forall_mem_singleton.mpr (single found)
  | case3 c rest d ds behind found ih =>
    cases h
    exact List.forall_mem_cons.mpr ⟨single found, ih behind⟩
  | case4 => cases h
  | case5 c rest _ _ d ds behind found ih =>
    cases h
    exact List.forall_mem_cons.mpr ⟨single found, ih behind⟩
  | case6 => cases h

/-- What is read can be written. -/
private theorem isWritable_of_read {text : String} {n : Int} (h : read text = .ok n) :
    (Value.int n).isWritable = true := by
  simp only [read] at h
  split at h
  · cases h
  · next digits found =>
    split at h
    · cases h
    · next short =>
      have lt : Expr.Writable (ofDigits digits) :=
        Nat.lt_of_lt_of_le (ofDigits_lt (lt_ten_of_digits? found))
          (Nat.pow_le_pow_right (by decide) (Nat.not_lt.mp short))
      have unsigned := Expr.writable_iff.mp lt
      cases h
      split
      · -- A sign does not make a number longer.
        simp only [Value.isWritable, Number.isWritable] at unsigned ⊢
        rw [Int.natAbs_neg]
        exact unsigned
      · exact unsigned

/-- The zero that stands in for a missing operand can be written. -/
private theorem isWritable_zero : (Value.int 0).isWritable = true := by
  decide +kernel

end Numeral

/-! ## Stepping over tokens and their parts -/

namespace ParserState

/-- Reading stays at the last token, or moves on by one. -/
theorem advance_cases (s : ParserState) :
    s.advance = s ∨ ∃ first later, s.stream.later = first :: later ∧
      s.advance = ⟨⟨s.next :: s.stream.read, first, later⟩, s.diagnostics⟩ := by
  obtain ⟨⟨read, next, later⟩, diagnostics⟩ := s
  by_cases atEnd : next.kind = .endOfInput
  · exact .inl (advance_of_endOfInput atEnd)
  · -- Without a token behind the next one the stream does not move either.
    cases later with
    | nil =>
      left
      simp [advance, TokenStream.advance]
    | cons first later =>
      right
      refine ⟨first, later, rfl, ?_⟩
      simp only [advance, TokenStream.advance]
      rw [if_neg atEnd]

end ParserState

/-! ## Related states -/

/-- What the parser sees of related states is the same, and they stay related whatever it does to
    both of them. -/
structure IsBisimulation (R : ParserState → ParserState → Prop) : Prop where
  kind : ∀ {s s'}, R s s' → s'.next.kind = s.next.kind
  text : ∀ {s s'}, R s s' → s'.next.text = s.next.text
  weight : ∀ {s s'}, R s s' → s'.stream.weight = s.stream.weight
  advance : ∀ {s s'}, R s s' → R s.advance s'.advance
  cut : ∀ {s s'}, R s s' → s.next.kind = .identifier → ∀ {n : Nat}, 0 < n →
    R (s.advanceBy n) (s'.advanceBy n)
  missing : ∀ {s s'}, R s s' → ∀ expected,
    R (s.record (.unexpectedToken s.next expected) s.next.position)
      (s'.record (.unexpectedToken s'.next expected) s'.next.position)
  unknownDice : ∀ {s s'}, R s s' → s.next.kind = .identifier →
    R (s.advance.record (.unknownDiceType s.next.text) s.next.position)
      (s'.advance.record (.unknownDiceType s'.next.text) s'.next.position)

/-- Both steps end well with the same result, which is as `post` says, and in related states, or
    both fail with the same error. -/
def Matches {α : Type} (R : ParserState → ParserState → Prop) (s s' : ParserState)
    (p p' : ParseM α) (post : α → Prop) : Prop :=
  match p.run s, p'.run s' with
  | .ok a t, .ok a' t' => a' = a ∧ post a ∧ R t t'
  | .error e _, .error e' _ => e' = e
  | _, _ => False

/-- From related states on, a step does the same twice. -/
def Respects {α : Type} (R : ParserState → ParserState → Prop) (p : ParseM α)
    (post : α → Prop) : Prop :=
  ∀ s s', R s s' → Matches R s s' p p post

variable {α β : Type} {R : ParserState → ParserState → Prop} {s s' : ParserState}

namespace Matches

variable {p p' : ParseM α} {f f' : α → ParseM β} {post : β → Prop}

/-- The same result on both sides. -/
theorem pure {b : β} (h : R s s') (hb : post b) :
    Matches R s s' (Pure.pure b) (Pure.pure b) post := ⟨rfl, hb, h⟩

/-- The same error on both sides. -/
theorem throw {e : Numeral.ReadError} :
    Matches R s s' (throw e : ParseM β) (throw e) post := rfl

/-- Two steps one after the other. -/
theorem bind {mid : α → Prop} (h : Matches R s s' p p' mid)
    (hf : ∀ a t t', R t t' → mid a → Matches R t t' (f a) (f' a) post) :
    Matches R s s' (p >>= f) (p' >>= f') post := by
  unfold Matches at h ⊢
  rw [EStateM.run_bind, EStateM.run_bind]
  split at h
  · next a t a' t' run run' =>
    obtain ⟨rfl, ha, related⟩ := h
    rw [run, run']
    exact hf a' t t' related ha
  · next e t e' t' run run' =>
    rw [run, run']
    exact h
  · exact h.elim

/-- Both sides look at their own next token. -/
theorem peek {f f' : Token → ParseM β} (h : Matches R s s' (f s.next) (f' s'.next) post) :
    Matches R s s' (Parser.peek >>= f) (Parser.peek >>= f') post := h

/-- Both sides step over their next token. -/
theorem advance {f f' : Unit → ParseM β}
    (h : Matches R s.advance s'.advance (f ()) (f' ()) post) :
    Matches R s s' (Parser.advance >>= f) (Parser.advance >>= f') post := h

/-- Both sides step over as many characters. -/
theorem advanceBy {n : Nat} {f f' : Unit → ParseM β}
    (h : Matches R (s.advanceBy n) (s'.advanceBy n) (f ()) (f' ()) post) :
    Matches R s s' (Parser.advanceBy n >>= f) (Parser.advanceBy n >>= f') post := h

/-- Both sides record a diagnostic, and the two may differ. -/
theorem record {cause cause' : DiagnosticCause} {position position' : Int}
    {f f' : Unit → ParseM β}
    (h : Matches R (s.record cause position) (s'.record cause' position') (f ()) (f' ()) post) :
    Matches R s s' (Parser.record cause position >>= f) (Parser.record cause' position' >>= f')
      post := h

end Matches

namespace IsBisimulation

variable {post : β → Prop}

/-- The next tokens are of the same kind. -/
theorem nextKind (bisim : IsBisimulation R) (h : R s s') {f f' : TokenKind → ParseM β}
    (hf : Matches R s s' (f s.next.kind) (f' s.next.kind) post) :
    Matches R s s' (Parser.nextKind >>= f) (Parser.nextKind >>= f') post := by
  show Matches R s s' (f s.next.kind) (f' s'.next.kind) post
  rw [bisim.kind h]
  exact hf

/-- There is as much to read on both sides, so that loops take as many steps. -/
private theorem loop (bisim : IsBisimulation R) (h : R s s') {f f' : Nat → ParseM β}
    (hf : ∀ steps, Matches R s s' (f steps) (f' steps) post) :
    Matches R s s' (Parser.weight >>= f) (Parser.weight >>= f') post := by
  show Matches R s s' (f s.stream.weight) (f' s'.stream.weight) post
  rw [bisim.weight h]
  exact hf _

/-- A token is read in both runs, or its absence is recorded in both. -/
theorem expect (bisim : IsBisimulation R) (h : R s s') {kind : TokenKind}
    {f f' : Option Token → ParseM β}
    (found : s.next.kind = kind →
      Matches R s.advance s'.advance (f (some s.next)) (f' (some s'.next)) post)
    (missing : ∀ t t', R t t' → Matches R t t' (f none) (f' none) post) :
    Matches R s s' (Parser.expect kind >>= f) (Parser.expect kind >>= f') post := by
  unfold Matches
  rw [EStateM.run_bind, EStateM.run_bind, run_expect, run_expect, bisim.kind h]
  by_cases hk : s.next.kind = kind
  · rw [if_pos hk, if_pos hk]
    exact found hk
  · rw [if_neg hk, if_neg hk]
    exact missing _ _ (bisim.missing h kind)

/-- A token is read or not, and nothing depends on it. -/
theorem skip (bisim : IsBisimulation R) (h : R s s') {kind : TokenKind} {q q' : ParseM β}
    (hq : ∀ t t', R t t' → Matches R t t' q q' post) :
    Matches R s s' (Parser.expect kind >>= fun _ => q) (Parser.expect kind >>= fun _ => q') post :=
  bisim.expect h (fun _ => hq _ _ (bisim.advance h)) hq

/-- The next tokens start with the same letters. -/
private theorem startsWith (bisim : IsBisimulation R) (h : R s s') (letters : String) :
    Parser.startsWith s'.next letters = Parser.startsWith s.next letters := by
  rw [Parser.startsWith, Parser.startsWith, bisim.text h]

end IsBisimulation

section

variable (bisim : IsBisimulation R)

include bisim

/-! ## Rolls and their modifiers -/

/-- Numerals are read alike, and can be written. -/
private theorem respects_integer :
    Respects R Parser.integer fun n => (Value.int n).isWritable = true := by
  intro s s' h
  unfold Parser.integer
  apply bisim.expect h
  · intro _
    show Matches R s.advance s'.advance (Parser.numeral s.next.text)
      (Parser.numeral s'.next.text) _
    rw [bisim.text h, Parser.numeral]
    cases read : Numeral.read s.next.text with
    | ok n => exact .pure (bisim.advance h) (Numeral.isWritable_of_read read)
    | error e => exact .throw
  · exact fun t t' related => .pure related Numeral.isWritable_zero

/-- Literals are read alike. -/
private theorem respects_literal : Respects R Parser.literal Printable := by
  intro s s' h
  apply (respects_integer bisim s s' h).bind
  exact fun n t t' related small => .pure related (printable_integer small)

/-- Conditions are read alike. -/
private theorem respects_condition :
    Respects R Parser.condition fun node => ∀ limit ∈ node.toList, limit.Printable := by
  intro s s' h
  unfold Parser.condition
  apply bisim.nextKind h
  cases comparison? s.next.kind with
  | none => exact .pure h nofun
  | some op =>
    apply Matches.advance
    apply (respects_literal bisim _ _ (bisim.advance h)).bind
    intro limit t t' related printable
    refine .pure related (List.forall_mem_singleton.mpr ?_)
    exact printable_make (.inl rfl) (List.forall_mem_singleton.mpr printable)

/-- Amounts are read alike. -/
private theorem respects_amount :
    Respects R Parser.amount fun node => ∀ amount ∈ node.toList, amount.Printable := by
  intro s s' h
  unfold Parser.amount
  apply bisim.nextKind h
  split
  · apply (respects_literal bisim s s' h).bind
    exact fun amount t t' related printable =>
      .pure related (List.forall_mem_singleton.mpr printable)
  · exact .pure h nofun

/-- The arguments of modifiers are read alike. -/
private theorem respects_argumentOf (m : Modifier) :
    Respects R (argumentOf m) fun node => ∀ argument ∈ node.toList, argument.Printable := by
  cases m with
  | keep | drop => exact respects_amount bisim
  | reroll | critical => exact respects_condition bisim
  | explode | sort => exact fun s s' h => .pure h nofun

omit bisim in
/-- A modifier can be printed if its operand and its argument can. -/
private theorem printable_modifier {m : Modifier} {attributes : List (String × Value)}
    {operand : Node}
    {argument : List Node} (h : operand.Printable) (hargument : ∀ node ∈ argument, node.Printable) :
    (Node.make (.modifier m) attributes (operand :: argument)).Printable :=
  printable_make (Nat.succ_pos _) (List.forall_mem_cons.mpr ⟨h, hargument⟩)

/-- Explosions are read alike. -/
private theorem respects_explosion {operand : Node} (hoperand : operand.Printable) :
    Respects R (Parser.explosion operand) Printable := by
  intro s s' h
  have ahead := bisim.advance h
  -- The condition behind the letter, if there is one.
  have conditional {t t' : ParserState} (related : R t t') (attributes : List (String × Value)) :
      Matches R t t'
        (Parser.condition >>= fun limit => pure (Node.make (.modifier .explode) attributes
          (operand :: limit.toList)))
        (Parser.condition >>= fun limit => pure (Node.make (.modifier .explode) attributes
          (operand :: limit.toList))) Printable := by
    apply (respects_condition bisim t t' related).bind
    exact fun limit u u' related' hlimit => .pure related' (printable_modifier hoperand hlimit)
  unfold Parser.explosion
  apply Matches.advance
  apply Matches.peek
  rw [bisim.kind ahead, bisim.startsWith ahead]
  -- Related states see the same letter, so they take the same branch.
  by_cases letter : s.advance.next.kind = .identifier ∧ Parser.startsWith s.advance.next "p"
  · simp only [letter, and_self, if_true]
    apply Matches.advanceBy
    exact conditional (bisim.cut ahead letter.1 (by decide)) _
  · simp only [if_neg letter]
    exact conditional ahead _

/-- Modifiers that are spelled with letters are read alike. -/
private theorem matches_spelled {sp : Parser.Spelling} (mem : sp ∈ Parser.spellings)
    {operand : Node}
    (hoperand : operand.Printable) (h : R s s') (kind : s.next.kind = .identifier) :
    Matches R s s' (Parser.spelled sp operand) (Parser.spelled sp operand) Printable := by
  have positive : 0 < sp.letters.length := by
    have : ∀ sp ∈ Parser.spellings, 0 < sp.letters.length := by decide
    exact this sp mem
  rw [spelled_eq]
  apply Matches.advanceBy
  apply (respects_argumentOf bisim _ _ _ (bisim.cut h kind positive)).bind
  exact fun argument t t' related hargument => .pure related (printable_modifier hoperand hargument)

/-- Several modifiers are read alike, by induction on the steps. -/
private theorem respects_modifiersWithin (steps : Nat) {roll : Node} (hroll : roll.Printable) :
    Respects R (Parser.modifiersWithin steps roll) Printable := by
  intro s s' h
  -- By induction on the steps: both runs go on alike from states that are related again.
  induction steps generalizing s s' roll with
  | zero => exact .pure h hroll
  | succ steps ih =>
    -- The spelling is found by the letters alone.
    have same : Parser.spelling? s'.next = Parser.spelling? s.next := by
      simp only [Parser.spelling?, bisim.startsWith h]
    unfold Parser.modifiersWithin
    apply Matches.peek
    rw [bisim.kind h, same]
    split
    · apply (respects_explosion bisim hroll s s' h).bind
      exact fun node t t' related hnode => ih hnode t t' related
    · split
      · next kind =>
        split
        · next sp found =>
          apply (matches_spelled bisim (List.mem_of_find?_eq_some found) hroll h kind).bind
          exact fun node t t' related hnode => ih hnode t t' related
        · exact .pure h hroll
      · exact .pure h hroll

/-- The modifiers behind a roll are read alike. -/
private theorem respects_modifiers {roll : Node} (hroll : roll.Printable) :
    Respects R (Parser.modifiers roll) Printable :=
  fun s s' h => bisim.loop h fun steps => respects_modifiersWithin bisim steps hroll s s' h

/-- The sides of dice are read alike. -/
private theorem respects_sides :
    Respects R Parser.sides fun value => (Node.diceSides value).Printable := by
  have number {n : Int} (small : (Value.int n).isWritable = true) :
      (Node.diceSides (.int n)).Printable :=
    printable_make (.inr (shown_int small)) nofun
  intro s s' h
  unfold Parser.sides
  apply Matches.peek
  rw [bisim.kind h, bisim.startsWith h]
  -- Fate dice are recognized first, as their word begins with the letter of other dice.
  by_cases fate : s.next.kind = .identifier ∧ Parser.startsWith s.next "dF"
  · simp only [if_pos fate]
    apply Matches.advanceBy
    exact .pure (bisim.cut h fate.1 (by decide)) (printable_make (.inl rfl) nofun)
  · simp only [if_neg fate]
    apply bisim.expect h
    · intro kind
      dsimp only
      rw [bisim.text h]
      by_cases text : s.next.text = "d"
      · simp only [text, ne_eq, not_true_eq_false, if_false]
        have ahead := bisim.advance h
        apply bisim.nextKind ahead
        split
        · apply Matches.advance
          exact .pure (bisim.advance ahead) (number (by decide +kernel))
        · apply (respects_integer bisim _ _ ahead).bind
          exact fun n t t' related small => .pure related (number small)
      · -- Another word is stepped over, with a diagnostic.
        simp only [ne_eq, text, not_false_eq_true, if_true]
        apply Matches.record
        have related := bisim.unknownDice h kind
        rw [bisim.text h] at related
        exact .pure related (number Numeral.isWritable_zero)
    · exact fun t t' related => .pure related (number Numeral.isWritable_zero)

/-- Rolls with their modifiers are read alike. -/
private theorem respects_roll {count : Node} (hcount : count.Printable) :
    Respects R (Parser.roll count) Printable := by
  intro s s' h
  have plain : Matches R s s' (Parser.plainRoll count) (Parser.plainRoll count) Printable := by
    apply (respects_sides bisim s s' h).bind
    intro value t t' related hsides
    refine .pure related (printable_make trivial ?_)
    exact List.forall_mem_cons.mpr ⟨hcount, List.forall_mem_singleton.mpr hsides⟩
  apply plain.bind
  exact fun node t t' related hnode => respects_modifiers bisim hnode t t' related

/-! ## Lists and factors -/

section

variable {inner : ParseM Node} (hinner : Respects R inner Printable)

include hinner

/-- The members of a list are read alike, by induction on the steps. -/
private theorem respects_membersWithin (steps : Nat) {members : List Node}
    (hmembers : ∀ member ∈ members, member.Printable) :
    Respects R (Parser.membersWithin inner steps members) fun nodes =>
      ∀ node ∈ nodes, node.Printable := by
  intro s s' h
  -- By induction on the steps; the members that were read so far are printable.
  induction steps generalizing s s' members with
  | zero => exact .pure h hmembers
  | succ steps ih =>
    unfold Parser.membersWithin
    apply bisim.nextKind h
    split
    · apply Matches.advance
      apply (hinner _ _ (bisim.advance h)).bind
      intro member t t' related hmember
      refine ih ?_ t t' related
      exact List.forall_mem_append.mpr ⟨hmembers, List.forall_mem_singleton.mpr hmember⟩
    · exact .pure h hmembers

/-- Lists are read alike, up to what closes them. -/
private theorem respects_members (closing : TokenKind) :
    Respects R (Parser.members inner closing) fun nodes => ∀ node ∈ nodes, node.Printable := by
  intro s s' h
  unfold Parser.members
  apply bisim.nextKind h
  split
  · exact .pure h nofun
  · apply (hinner s s' h).bind
    intro first t t' related hfirst
    apply bisim.loop related
    intro steps
    exact respects_membersWithin bisim hinner steps (List.forall_mem_singleton.mpr hfirst) t t'
      related

/-- Calls are read alike. -/
private theorem respects_functionCall : Respects R (Parser.functionCall inner) Printable := by
  intro s s' h
  have call (arguments : List Node) (harguments : ∀ node ∈ arguments, node.Printable) :
      (Node.make .function [("name", .text s.next.text)] arguments).Printable :=
    printable_make (Rendering.shown_valueText rfl) harguments
  unfold Parser.functionCall
  apply Matches.peek
  apply Matches.advance
  rw [bisim.text h]
  apply bisim.expect (bisim.advance h)
  · intro _
    apply (respects_members bisim hinner _ _ _ (bisim.advance (bisim.advance h))).bind
    intro arguments t t' related harguments
    exact bisim.skip related fun u u' related' => .pure related' (call arguments harguments)
  · -- Without a parenthesis the name stands for a call with no arguments.
    exact fun t t' related => .pure related (call [] nofun)

/-- Expressions in parentheses are read alike. -/
private theorem respects_bracketed : Respects R (Parser.bracketed inner) Printable := by
  intro s s' h
  unfold Parser.bracketed
  apply Matches.advance
  apply (hinner _ _ (bisim.advance h)).bind
  intro root t t' related hroot
  exact bisim.skip related fun u u' related' => .pure related' hroot

/-- Groups are read alike. -/
private theorem respects_group : Respects R (Parser.group inner) Printable := by
  intro s s' h
  unfold Parser.group
  apply Matches.advance
  apply (respects_members bisim hinner _ _ _ (bisim.advance h)).bind
  intro items t t' related hitems
  apply bisim.skip related
  intro u u' related
  apply bisim.nextKind related
  -- The repeats are an integer, which is short enough to be written.
  split
  · apply Matches.advance
    apply (respects_integer bisim _ _ (bisim.advance related)).bind
    intro n v v' related small
    exact .pure related (printable_make (Rendering.shown_some small) hitems)
  · exact .pure related (printable_make (Rendering.shown_valueText rfl) hitems)

omit hinner in
/-- What stands behind a count is read alike. -/
private theorem respects_countOrRoll {count : Node} (hcount : count.Printable) :
    Respects R (countOrRoll count) Printable := by
  intro s s' h
  unfold countOrRoll
  apply bisim.nextKind h
  split
  · exact respects_roll bisim hcount s s' h
  · exact .pure h hcount

/-- Factors are read alike, and so is what is taken in their place. -/
private theorem respects_factor : Respects R (Parser.factor inner) Printable := by
  intro s s' h
  have one : (Node.integer 1).Printable := printable_integer (by decide +kernel)
  have zero : (Node.integer 0).Printable := printable_integer Numeral.isWritable_zero
  have word : Parser.isDiceWord s'.next = Parser.isDiceWord s.next := by
    rw [Parser.isDiceWord, Parser.isDiceWord, bisim.text h, bisim.startsWith h]
  unfold Parser.factor
  apply Matches.peek
  rw [bisim.kind h, word]
  -- One case for each kind of factor; the last one is that of a missing operand.
  split
  case h_1 kind =>
    split
    · exact respects_roll bisim one s s' h
    · exact respects_functionCall bisim hinner s s' h
  case h_2 opens =>
    apply (respects_bracketed bisim hinner s s' h).bind
    exact fun root t t' related hroot => respects_countOrRoll bisim hroot t t' related
  case h_3 opens => exact respects_group bisim hinner s s' h
  case h_4 kind =>
    apply (respects_literal bisim s s' h).bind
    exact fun number t t' related hnumber => respects_countOrRoll bisim hnumber t t' related
  case h_5 =>
    -- Zero is put in place of the operand, and a token that closes something is not stepped over.
    have recorded := bisim.missing h .integer
    apply Matches.record
    split
    · apply Matches.advance
      exact .pure (bisim.advance recorded) zero
    · exact .pure recorded zero

/-! ## Operators -/

omit bisim hinner in
/-- An operation can be printed if its operands can. -/
private theorem printable_binary {op : Operator} {left right : Node} (hleft : left.Printable)
    (hright : right.Printable) : (Node.make (.operator op) [] [left, right]).Printable :=
  printable_make rfl (List.forall_mem_cons.mpr ⟨hleft, List.forall_mem_singleton.mpr hright⟩)

/-- Powers are read alike, by induction on the steps. -/
private theorem respects_powerWithin (steps : Nat) :
    Respects R (Parser.powerWithin inner steps) Printable := by
  intro s s' h
  -- By induction on the steps; the exponent is read in a state that is further on.
  induction steps generalizing s s' with
  | zero => exact respects_factor bisim hinner s s' h
  | succ steps ih =>
    unfold Parser.powerWithin
    apply (respects_factor bisim hinner s s' h).bind
    intro base t t' related hbase
    apply bisim.nextKind related
    split
    · apply Matches.advance
      apply (ih _ _ (bisim.advance related)).bind
      exact fun exponent u u' related' hexponent =>
        .pure related' (printable_binary hbase hexponent)
    · exact .pure related hbase

/-- A power is read alike. -/
private theorem respects_power : Respects R (Parser.power inner) Printable :=
  fun s s' h => bisim.loop h fun steps => respects_powerWithin bisim hinner steps s s' h

omit hinner in
/-- The rest of a sum or of a product is read alike. -/
private theorem respects_tail {operator? : TokenKind → Option Operator} {operand : ParseM Node}
    (hoperand : Respects R operand Printable) {first : Node} (hfirst : first.Printable) :
    Respects R (Parser.tail operator? operand first) Printable := by
  -- Each round takes an operator and an operand, and its result is the next left operand.
  have within (steps : Nat) {left : Node} (hleft : left.Printable) :
      Respects R (Parser.tailWithin operator? operand steps left) Printable := by
    intro s s' h
    induction steps generalizing s s' left with
    | zero => exact .pure h hleft
    | succ steps ih =>
      unfold Parser.tailWithin
      apply bisim.nextKind h
      cases operator? s.next.kind with
      | none => exact .pure h hleft
      | some op =>
        apply Matches.advance
        apply (hoperand _ _ (bisim.advance h)).bind
        exact fun right t t' related hright => ih (printable_binary hleft hright) t t' related
  exact fun s s' h => bisim.loop h fun steps => within steps hfirst s s' h

/-- Terms are read alike. -/
private theorem respects_term : Respects R (Parser.term inner) Printable := by
  intro s s' h
  have hpower := respects_power bisim hinner
  apply (hpower s s' h).bind
  exact fun first t t' related hfirst => respects_tail bisim hpower hfirst t t' related

/-- Sums are read alike, with their sign. -/
private theorem respects_simple : Respects R (Parser.simple inner) Printable := by
  intro s s' h
  have hterm := respects_term bisim hinner
  -- The terms behind the sign, the first of which may be negated.
  have terms (wrap : Node → Node) (hwrap : ∀ node, node.Printable → (wrap node).Printable) :
      Respects R (Parser.term inner >>= fun first =>
        Parser.tail additive? (Parser.term inner) (wrap first)) Printable := by
    intro t t' related
    apply (hterm t t' related).bind
    exact fun first u u' related' hfirst =>
      respects_tail bisim hterm (hwrap first hfirst) u u' related'
  have negated (node : Node) (hnode : node.Printable) :
      (Node.make .negate [] [node]).Printable :=
    printable_make (Nat.succ_pos _) (List.forall_mem_singleton.mpr hnode)
  unfold Parser.simple
  apply bisim.nextKind h
  -- A sign is stepped over on both sides or on neither.
  split
  · dsimp only
    split
    · exact .advance (terms _ negated _ _ (bisim.advance h))
    · exact terms _ negated s s' h
  · dsimp only
    split
    · exact .advance (terms _ (fun _ => id) _ _ (bisim.advance h))
    · exact terms _ (fun _ => id) s s' h

/-- Comparisons are read alike. -/
private theorem respects_comparing : Respects R (Parser.comparing inner) Printable := by
  intro s s' h
  have hsimple := respects_simple bisim hinner
  unfold Parser.comparing
  apply (hsimple s s' h).bind
  intro left t t' related hleft
  apply bisim.nextKind related
  -- Only one sign of comparison is read, so there is no loop here.
  cases comparison? t.next.kind with
  | none => exact .pure related hleft
  | some op =>
    apply Matches.advance
    apply (hsimple _ _ (bisim.advance related)).bind
    intro right u u' related' hright
    refine .pure related' (printable_make (.inr rfl) ?_)
    exact List.forall_mem_cons.mpr ⟨hleft, List.forall_mem_singleton.mpr hright⟩

end

/-! ## Expressions -/

/-- Expressions are read alike, by induction on the levels. -/
private theorem respects_expressionWithin (levels : Nat) :
    Respects R (Parser.expressionWithin levels) Printable := by
  induction levels with
  | zero => exact fun s s' h => .pure h (printable_integer Numeral.isWritable_zero)
  | succ levels ih => exact respects_comparing bisim ih

/-- From related states on, two runs read the same expression, and it can be written. -/
theorem respects_expression : Respects R Parser.expression Printable :=
  fun s s' h => bisim.loop h fun levels => respects_expressionWithin bisim levels s s' h

end

/-! ## Whole texts -/

/-- What is returned for a text is the expression at its beginning. -/
theorem expression_of_parse {text : String} {result : ParseResult} (h : parse text = .ok result) :
    ∃ t : ParserState, Parser.expression.run (ofText text) = .ok result.root t ∧
      Parser.whole.run (ofText text) = .ok result ⟨t.stream, result.diagnostics⟩ ∧
      result.diagnostics = t.diagnostics ++ t.closing := by
  have run := run_whole (ofText text)
  unfold parse at h
  cases read : Parser.expression.run (ofText text) with
  | error e t =>
    rw [run, read] at h
    cases h
  | ok root t =>
    rw [read] at run
    rw [run] at h
    cases h
    exact ⟨t, rfl, run, rfl⟩

/-- Equal states are related. -/
private theorem isBisimulation_eq : IsBisimulation fun s s' => s' = s where
  -- Equal states answer every question alike.
  kind := by
    rintro s _ rfl
    rfl
  text := by
    rintro s _ rfl
    rfl
  weight := by
    rintro s _ rfl
    rfl
  advance := by
    rintro s _ rfl
    rfl
  cut := by
    rintro s _ rfl _ n _
    rfl
  missing := by
    rintro s _ rfl expected
    rfl
  unknownDice := by
    rintro s _ rfl _
    rfl

/-- Whatever is read can be written, also if something is diagnosed. -/
theorem printable_of_parse {text : String} {result : ParseResult} (h : parse text = .ok result) :
    result.root.Printable := by
  obtain ⟨t, read, -⟩ := expression_of_parse h
  have inStep := respects_expression isBisimulation_eq (ofText text) _ rfl
  unfold Matches at inStep
  rw [read] at inStep
  exact inStep.2.1

end DiceNotation
