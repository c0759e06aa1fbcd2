import DiceNotation.Proofs.Parsing.Bisimulation
import DiceNotation.Proofs.Parsing.Termination
import DiceNotation.Proofs.Trees.Consistency

/-! # Rendering does not fail

Every tree that is read from a text can be written, and so can the tree that its evaluation leaves,
whatever was suppressed, left out, rolled again or marked on the way.  What the text of a node
depends on is not touched by marks, and where an evaluation stores a value, it does so on nodes
whose text does not show it; only dice show numbers that were drawn, and these have to be short
enough.

* `Showable.mark`       a mark leaves a node showable
* `Expands.printable`   by induction on how the tree was expanded
* `render_ok`           parsed texts, before and after their evaluation -/

namespace DiceNotation

open Node (Showable Printable StandsOn printable_iff shown_int)
open Rendering (Shown)

/-- Every answer has at most four thousand digits. -/
def Source.IsShort (source : Source) : Prop :=
  ∀ request faces, (source request faces).natAbs < 10 ^ 4000

/-- A short number can be written, and so can the one before it. -/
private theorem Value.isWritable_of_short {n : Int} (h : n.natAbs < 10 ^ 4000) :
    (Value.int n).isWritable = true ∧ (Value.int (n - 1)).isWritable = true := by
  have room : 10 ^ 4000 < Number.writableBound := by decide +kernel
  generalize 10 ^ 4000 = bound at h room
  simp only [Value.isWritable, Number.isWritable, decide_eq_true_eq]
  omega

namespace Node

variable {node roll other : Node} {c : Condition}

/-! ## Changes that no text shows -/

/-- The text of a node is that of its number, its name or its repeats, and of its children. -/
private theorem Showable.of_same {node' : Node} (h : node.Showable) (kind : node'.kind = node.kind)
    (children : node'.children.length = node.children.length)
    (shown : ∀ name ∈ ["value", "name", "repeat"], node'.get? name = node.get? name) :
    node'.Showable := by
  have value : node'.value? = node.value? := shown "value" (by simp)
  have name := shown "name" (by simp)
  have repeats := shown "repeat" (by simp)
  unfold Showable at h ⊢
  rw [kind, children, value, name, repeats]
  exact h

/-- Where no number is shown, storing one changes nothing. -/
theorem Showable.store (h : node.Showable)
    (hidden : node.kind ∉ [.integer, .diceRoll, .diceSides])
    (n : Number) : (node.store n).Showable := by
  have name : (node.store n).get? "name" = _ := get?_store node n (by decide)
  have repeats : (node.store n).get? "repeat" = _ := get?_store node n (by decide)
  obtain ⟨kind, attributes, children⟩ := node
  -- Storing a value changes what is shown of a leaf only.
  cases kind with
  | integer | diceRoll | diceSides => exact absurd (by simp) hidden
  | function =>
    show Shown (Rendering.valueText _)
    rw [name]
    exact h
  | group =>
    show Shown (Rendering.valueText _)
    rw [repeats]
    exact h
  | _ => exact h

/-- An attribute that is not printed leaves the node printable. -/
private theorem Printable.set (h : node.Printable) {key : String} (value : Value)
    (hidden : key ∉ ["value", "name", "repeat"]) : (node.set key value).Printable := by
  have showable := (printable_iff.mp h).1
  refine printable_iff.mpr ⟨showable.of_same rfl rfl fun name hname => ?_, fun _ => h.child⟩
  rw [get?_set, if_neg]
  rintro rfl
  exact hidden hname

/-- A mark leaves the node printable. -/
private theorem Printable.mark (h : node.Printable) : (c.mark node).Printable :=
  h.set _ (by decide)

/-! ## Rolls -/

/-- A roll is printable if its dice are. -/
private theorem printable_of_dice (kind : roll.kind = .dice)
    (h : ∀ die ∈ roll.children, die.Printable) : roll.Printable := by
  refine printable_iff.mpr ⟨?_, h⟩
  unfold Showable
  rw [kind]
  trivial

/-- Dice that show numbers which can be written stay so as long as no others are drawn. -/
private theorem keptWithin_printable :
    KeptWithin (fun n => (Value.int n).isWritable = true) fun die =>
      die.IsDiceRoll ∧ die.Printable where
  thrown sides face small := by
    have isDie : (Dice.die sides face).IsDiceRoll := kept_isDiceRoll.thrown sides face
    refine ⟨isDie, printable_iff.mpr ⟨?_, by rw [isDie.leaf]; exact List.forall_mem_nil _⟩⟩
    exact shown_int small
  again {die} face small h := by
    -- A die that is thrown again shows a face that the source has answered.
    have isDie : (die.set "value" (.int face)).IsDiceRoll :=
      kept_isDiceRoll.set _ _ h.1 fun _ => ⟨face, rfl⟩
    refine ⟨isDie, printable_iff.mpr ⟨?_, by rw [isDie.leaf]; exact List.forall_mem_nil _⟩⟩
    unfold Showable
    rw [isDie.kind]
    show Shown (Rendering.numberText ((die.set "value" (.int face)).get? "value"))
    rw [get?_set, if_pos rfl]
    exact shown_int small
  mark {die} key value isMark h := by
    -- The marks of modifiers are not among the attributes that are shown.
    have hidden : key ∉ ["value", "name", "repeat"] := by
      have : ∀ key ∈ Dice.marks, key ∉ ["value", "name", "repeat"] := by decide
      exact this key isMark
    refine ⟨kept_isDiceRoll.mark h.1 value ?_, h.2.set value hidden⟩
    rintro rfl
    exact hidden List.mem_cons_self

namespace StandsOn

/-- The roll below printable modifiers is printable. -/
private theorem printable (stands : StandsOn roll node) (h : node.Printable) : roll.Printable := by
  induction stands with
  | roll _ => exact h
  | modifier _ ih => exact ih (h.child List.mem_cons_self)

/-- Another roll can be put below modifiers if it is printable. -/
private theorem printable_replaceDice (stands : StandsOn roll node) (h : node.Printable)
    (inside : other.Printable) : (node.replaceDice other).Printable := by
  apply stands.everywhere _ h inside
  exact fun _ _ _ _ _ _ showable => showable

end StandsOn

/-- Marking the targets of a comparison leaves the left side printable. -/
private theorem Printable.mapTargets (h : node.Printable)
    (rolls : node.kind.isRoll = true → ∃ roll, StandsOn roll node) (c : Condition) :
    (node.mapTargets c.mark).Printable := by
  rcases target_cases rolls with ⟨roll, stands⟩ | isGroup | ⟨plain, single⟩
  · rw [mapTargets_of_standsOn stands]
    -- In a roll it is the dice that are marked, below all its modifiers.
    refine stands.printable_replaceDice h (printable_of_dice stands.kind fun die hdie => ?_)
    obtain ⟨old, hold, rfl⟩ := List.mem_map.mp hdie
    have below := (stands.printable h).child hold
    split
    · exact below
    · exact below.mark
  · rw [mapTargets_of_group isGroup]
    have showable := (printable_iff.mp h).1
    refine printable_iff.mpr ⟨showable.of_same rfl (List.length_map _) fun _ _ => rfl, ?_⟩
    intro child hchild
    obtain ⟨member, hmember, rfl⟩ := List.mem_map.mp hchild
    exact (h.child hmember).mark
  · rw [mapTargets_of_single plain single]
    exact h.mark

end Node

/-! ## Expanded trees -/

variable {limits : Limits} {source : Source}

/-- The evaluation of a printable tree leaves a printable one. -/
theorem Expands.printable (short : source.IsShort) {before after : Node} {n : Number}
    {trace trace' : Trace} (h : Expands limits source before trace after n trace')
    (hbefore : before.Printable) : after.Printable := by
  -- The answers to all requests can be shown, also by dice that penetrate.
  have answers (request : Nat) (faces : Faces) := Value.isWritable_of_short (short request faces)
  -- By induction on the expansion.  Of the arguments that are not evaluated it is only known that
  -- they were printable before.
  induction h with
  | literal _ => exact hbefore
  | negate _ ih =>
    have operand := ih (hbefore.child List.mem_cons_self)
    exact printable_iff.mpr ⟨Nat.succ_pos _, List.forall_mem_singleton.mpr operand⟩
  | operator _ _ _ ih ih' =>
    have left := ih (hbefore.child List.mem_cons_self)
    have right := ih' (hbefore.child (List.mem_cons_of_mem _ List.mem_cons_self))
    refine printable_iff.mpr ⟨rfl, ?_⟩
    exact List.forall_mem_cons.mpr ⟨left, List.forall_mem_singleton.mpr right⟩
  | untested _ _ _ ih =>
    have left := ih (hbefore.child List.mem_cons_self)
    have right := hbefore.child (List.mem_cons_of_mem _ List.mem_cons_self)
    refine printable_iff.mpr ⟨.inr rfl, ?_⟩
    exact List.forall_mem_cons.mpr ⟨left, List.forall_mem_singleton.mpr right⟩
  | @tested op _ _ _ _ _ _ b _ _ _ _ _ hleft _ _ _ _ ih ih' =>
    have left := ih (hbefore.child List.mem_cons_self)
    have right := ih' (hbefore.child (List.mem_cons_of_mem _ List.mem_cons_self))
    have marked := left.mapTargets hleft.exists_standsOn ⟨op, .number b⟩
    refine printable_iff.mpr ⟨.inr rfl, ?_⟩
    exact List.forall_mem_cons.mpr ⟨marked, List.forall_mem_singleton.mpr right⟩
  | call named _ _ _ ih =>
    have argument := ih (hbefore.child List.mem_cons_self)
    refine printable_iff.mpr ⟨?_, List.forall_mem_singleton.mpr argument⟩
    have shown : Showable ⟨.function, _, [_]⟩ := (printable_iff.mp hbefore).1
    exact shown.store (by simp) _
  | miscall named _ _ _ _ =>
    refine printable_iff.mpr ⟨?_, fun _ => hbefore.child⟩
    exact (printable_iff.mp hbefore).1.store (by simp) _
  | @group _ unfolded visits _ _ _ _ kind unfolds members _ _ _ ih =>
    -- The copies of the members have been written out, so that no repeats are shown.
    let rebuilt := unfolded.withChildren (visits.map Visit.after)
    have isGroup : rebuilt.kind = .group := unfolds.kind.trans kind
    have single : rebuilt.get? "repeat" = none := unfolds.single
    refine printable_iff.mpr ⟨?_, fun child hchild => ?_⟩
    · refine Showable.store ?_ (by rw [isGroup]; simp) _
      unfold Showable
      rw [isGroup, single]
      exact Rendering.shown_valueText rfl
    · obtain ⟨visit, hvisit, rfl⟩ := List.mem_map.mp hchild
      exact ih visit hvisit (hbefore.child (unfolds.before_mem members hvisit))
  | roll _ _ _ _ _ _ threw _ =>
    refine Node.printable_of_dice rfl fun die hdie => ?_
    exact (keptWithin_throwDice Node.keptWithin_printable
      (fun _ request => (answers request _).1) threw die hdie).2
  | modifier h stands _ alters ih =>
    have operand := ih (hbefore.child List.mem_cons_self)
    -- The dice that the modifier leaves are old ones with marks, or show what was drawn for them.
    have thrown := h.isThrown stands
    have dice := alters.keptWithin Node.keptWithin_printable
      (fun _ _ faces _ _ request =>
        ⟨(answers request faces).1, fun _ _ => (answers request faces).2⟩)
      fun die hdie => ⟨thrown.dice die hdie, (stands.printable operand).child hdie⟩
    have renewed : (Node.renewed _ _).Printable :=
      Node.printable_of_dice stands.kind fun die hdie => (dice die hdie).2
    refine printable_iff.mpr ⟨Nat.succ_pos _, List.forall_mem_cons.mpr ⟨?_, ?_⟩⟩
    · exact stands.printable_replaceDice operand renewed
    · exact fun argument hargument => hbefore.child (List.mem_cons_of_mem _ hargument)

/-! ## Parsed texts -/

/-- Rendering never fails.  Every text whose numerals are not too long is read to a tree that can
    be written, whatever is diagnosed.  If nothing is diagnosed, a tree that an evaluation leaves
    can be written as well, provided that the numbers drawn for it are short. -/
theorem render_ok :
    (∀ text, (∀ token ∈ lex text, token.kind = .integer →
        token.text.length ≤ Numeral.maxDigits) →
      ∃ result written, parse text = .ok result ∧ result.root.render = .ok written) ∧
    ∀ (text : String) (root : Node), parse text = .ok ⟨root, []⟩ →
      ∀ (limits : Limits) (source : Source) (record : Record), source.IsShort → ∀ outcome,
        (interpret ⟨limits, .default, source⟩ root record).1 = .ok outcome →
          ∃ written, outcome.tree.render = .ok written := by
  constructor
  · intro text short
    -- Every numeral is short enough to be read, so the parser finishes.
    have readable : ∀ token ∈ lex text, token.IsReadable := fun token mem kind =>
      ⟨(regular_lex text).numerals token mem kind, short token mem kind⟩
    obtain ⟨result, state, run, -⟩ :=
      recovers_whole (ready_ofTokens readable (lexDiagnostics (lex text)))
    have parsed : parse text = .ok result := by
      rw [parse, show ParserState.ofText text =
        ⟨.ofTokens (lex text), lexDiagnostics (lex text)⟩ from rfl, run]
    obtain ⟨written, rendered⟩ := Node.shown_render (printable_of_parse parsed)
    exact ⟨result, written, parsed, rendered⟩
  · intro text root parsed limits source record short outcome finished
    -- The tree is printable before it is evaluated, and the evaluation keeps it so.
    have before : root.Printable := printable_of_parse parsed
    obtain ⟨e, rfl, -⟩ := accepts_of_parse parsed
    obtain ⟨n, -, expands⟩ := interpret_expands e.toNode_wellFormed (Prod.ext finished rfl)
    exact Node.shown_render (expands.printable short before)

/-- A garbled text; and one with dice that penetrate and are critical, a roll that is not allowed, a
    call whose arguments are not evaluated and a group whose members are left out. -/
theorem render_ok_suppressed :
    let limits : Limits := { maxSides := some 6, maxRolls := some 8 }
    let source : Source := fun request _ => if request = 0 then 6 else 1
    (∃ result written, parse "(1 +* 2d6khx>\x7b, abs -" = .ok result ∧
      result.root.render = .ok written) ∧
    ∃ root outcome written,
      parse "\x7b2d6!pcs, 1d8r, abs(1d8, 2), \x7b1d4\x7d...9\x7d > 3" = .ok ⟨root, []⟩ ∧
        (interpret ⟨limits, .default, source⟩ root {}).1 = .ok outcome ∧
          outcome.tree.render = .ok written := by
  intro limits source
  let root := (Expr.compare .greater (.group
    [.roll (.literal 2) (.faces 6) [.explode true none, .critical true none],
      .roll (.literal 1) (.faces 8) [.reroll false none],
      .call "abs" [.roll (.literal 1) (.faces 8) [], .literal 2],
      .group [.roll (.literal 1) (.faces 4) []] (some 9)] none) (.literal 3)).toNode
  have read : parse "\x7b2d6!pcs, 1d8r, abs(1d8, 2), \x7b1d4\x7d...9\x7d > 3" =
      .ok ⟨root, []⟩ := rfl
  -- The answers are small numbers, the first six and all others one.
  have short : source.IsShort := by
    intro request faces
    by_cases first : request = 0
    · simp only [source, first, if_true]
      decide +kernel
    · simp only [source, first, if_false]
      decide +kernel
  -- Computed is only that there is an outcome; that it is rendered follows in general.
  have answered : (interpret ⟨limits, .default, source⟩ root {}).1.isOk = true := by
    decide +kernel
  obtain ⟨outcome, record', returned⟩ := exists_outcome answered
  have finished : (interpret ⟨limits, .default, source⟩ root {}).1 = .ok outcome := by
    rw [returned]
  obtain ⟨written, rendered⟩ := render_ok.2 _ root read limits source {} short outcome finished
  exact ⟨render_ok.1 _ (by decide), root, outcome, written, read, finished, rendered⟩

end DiceNotation
