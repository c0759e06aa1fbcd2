import DiceNotation.Proofs.Printing.Text
import DiceNotation.Proofs.Trees.Printable
import DiceNotation.Proofs.Trees.Rolled

/-! # Breakdowns

A roll that was thrown is written as the list of its dice, such as `[6, 4*, (1), (-1*)]`: critical
dice with a star, dropped dice in parentheses.  This breakdown can be read back.  No die is written
with a comma or a space, so that the list falls apart at the commas, and a number has neither a
parenthesis nor a star, so that these tell the marks of its die.

* `ShownDie.ofText?_text`   a die is read back from its text
* `ofBreakdown?_ok`         a list of dice is read back from its text
* `Node.render_dice`        a roll is rendered as the breakdown of its dice
* `breakdown_readBack`      it tells rolls apart, and it determines the dice of every answer -/

namespace DiceNotation

open DiceNotation.Expr (listText parenthesized)

/-! ## Reading dice -/

/-- What a breakdown shows of a die. -/
structure ShownDie where
  value : Int
  critical : Bool
  dropped : Bool
deriving DecidableEq, Repr

namespace ShownDie

/-- The text of a number. -/
def number (n : Int) : List Char := n.repr.toList

/-- The text of the number, with a star behind it if the die is critical. -/
def starred (die : ShownDie) : List Char :=
  if die.critical then number die.value ++ ['*'] else number die.value

/-- The text of a die. -/
def text (die : ShownDie) : List Char :=
  if die.dropped then parenthesized die.starred else die.starred

/-- Read a number that may have a star behind it. -/
def ofStarred? (dropped : Bool) (text : List Char) : Option ShownDie :=
  if text.getLast? = some '*' then
    (String.ofList text.dropLast).toInt?.map fun n => ⟨n, true, dropped⟩
  else (String.ofList text).toInt?.map fun n => ⟨n, false, dropped⟩

/-- Read a die, which may be in parentheses. -/
def ofText? (text : List Char) : Option ShownDie :=
  if text.head? = some '(' then ofStarred? true text.tail.dropLast else ofStarred? false text

variable {die : ShownDie} {c : Char} {n : Int}

/-- An integer is written in digits, with a minus in front if it is negative. -/
private theorem mem_number (h : c ∈ number n) : c = '-' ∨ c.isDigit := by
  have digit {k : Nat} (h : c ∈ k.repr.toList) : c.isDigit := by
    rw [← Nat.toString_eq_repr] at h
    exact (Numeral.isDigits_toString k).2 c h
  rw [number, Int.repr_eq_if] at h
  split at h
  · exact .inr (digit h)
  · rw [String.toList_append, List.mem_append] at h
    rcases h with sign | h
    · exact .inl (by simpa using sign)
    · exact .inr (digit h)

/-- An integer is written in one character at least. -/
private theorem number_ne_nil (n : Int) : number n ≠ [] := by
  rw [number, Int.repr_eq_if]
  split
  · exact fun empty => Nat.repr_ne_empty (String.toList_eq_nil_iff.mp empty)
  · simp

/-- No character of a number is a mark of a die or of a list. -/
private theorem notMem_number (mark : c ≠ '-') (notDigit : ¬c.isDigit) : c ∉ number n := by
  intro h
  rcases mem_number h with minus | digit
  · exact mark minus
  · exact notDigit digit

/-- A die is read back from its text without the parentheses. -/
private theorem ofStarred?_starred (die : ShownDie) :
    ofStarred? die.dropped die.starred = some die := by
  obtain ⟨value, critical, dropped⟩ := die
  have read : (String.ofList (number value)).toInt? = some value := by
    rw [number, String.ofList_toList, Int.toInt?_repr]
  cases critical with
  | true => simp [ofStarred?, starred, read]
  | false =>
    have plain : (number value).getLast? ≠ some '*' := fun last =>
      notMem_number (by decide) (by decide) (List.mem_of_getLast? last)
    simp [ofStarred?, starred, plain, read]

/-- A die is read back from its text. -/
theorem ofText?_text (die : ShownDie) : ofText? die.text = some die := by
  have read := ofStarred?_starred die
  unfold ofText? text
  cases dropped : die.dropped with
  | true =>
    rw [dropped] at read
    simp [parenthesized, read]
  | false =>
    -- A die that was not dropped does not begin with a parenthesis, as no number does.
    have plain : die.starred.head? ≠ some '(' := by
      intro first
      have mem := List.mem_of_head? first
      unfold starred at mem
      have outside : '(' ∉ number die.value := notMem_number (by decide) (by decide)
      split at mem <;> simp [outside] at mem
    rw [dropped] at read
    simp [plain, read]

/-- The separators of a list stand in no die. -/
private theorem notMem_text (separator : c = ',' ∨ c = ' ') : c ∉ die.text := by
  have outside : c ∉ number die.value := by
    rcases separator with rfl | rfl <;> exact notMem_number (by decide) (by decide)
  unfold text starred parenthesized
  rcases separator with rfl | rfl <;> split <;> split <;> simp [outside]

/-- A die is shown in one character at least. -/
private theorem text_ne_nil (die : ShownDie) : die.text ≠ [] := by
  have := number_ne_nil die.value
  unfold text starred parenthesized
  split <;> split <;> simp [this]

end ShownDie

/-! ## Reading lists of dice -/

/-- The breakdown of a roll with these dice. -/
def breakdown (dice : List ShownDie) : List Char :=
  '[' :: (listText (dice.map ShownDie.text) ++ [']'])

/-- Read a breakdown. -/
def ofBreakdown? (text : String) : Option (List ShownDie) :=
  let inside := text.toList.tail.dropLast
  if inside = [] then some []
  else ((inside.filter (· ≠ ' ')).splitOn ',').mapM ShownDie.ofText?

/-- Without spaces, a list is its parts with commas between them. -/
private theorem filter_listText {texts : List (List Char)} (h : ∀ text ∈ texts, ' ' ∉ text) :
    (listText texts).filter (· ≠ ' ') = List.intercalate [','] texts := by
  have kept {text : List Char} (h : ' ' ∉ text) : text.filter (· ≠ ' ') = text := by
    refine List.filter_eq_self.mpr fun c mem => decide_eq_true ?_
    rintro rfl
    exact h mem
  rw [← Expr.intercalate_eq_listText]
  -- Each text stays as it is, and of what stands between two of them only the comma is left.
  induction texts with
  | nil => rfl
  | cons text texts ih =>
    obtain ⟨first, behind⟩ := List.forall_mem_cons.mp h
    cases texts with
    | nil => simpa using kept first
    | cons text' texts =>
      rw [List.intercalate_cons_cons, List.intercalate_cons_cons, List.filter_append,
        List.filter_append, kept first, ih behind]
      rfl

/-- Dice are shown in one character at least. -/
private theorem listText_ne_nil {dice : List ShownDie} (h : dice ≠ []) :
    listText (dice.map ShownDie.text) ≠ [] := by
  cases dice with
  | nil => exact absurd rfl h
  | cons die dice => simp [listText, die.text_ne_nil]

/-- A list of dice is read back from its text. -/
theorem ofBreakdown?_ok (dice : List ShownDie) :
    ofBreakdown? (String.ofList (breakdown dice)) = some dice := by
  have inside : (String.ofList (breakdown dice)).toList.tail.dropLast =
      listText (dice.map ShownDie.text) := by
    simp [breakdown]
  rw [ofBreakdown?, inside]
  by_cases empty : dice = []
  · rw [empty]
    rfl
  -- The text of a die has no comma and no blank in it, so the list is cut where it was joined.
  have outside {c : Char} (separator : c = ',' ∨ c = ' ') :
      ∀ text ∈ dice.map ShownDie.text, c ∉ text := by
    intro text mem
    obtain ⟨die, -, rfl⟩ := List.mem_map.mp mem
    exact ShownDie.notMem_text separator
  have parts : ((listText (dice.map ShownDie.text)).filter (· ≠ ' ')).splitOn ',' =
      dice.map ShownDie.text := by
    rw [filter_listText (outside (.inr rfl))]
    exact List.splitOn_intercalate _ (outside (.inl rfl)) (by simpa using empty)
  -- Each text is read back to its die.
  have read (dice : List ShownDie) :
      (dice.map ShownDie.text).mapM ShownDie.ofText? = some dice := by
    induction dice with
    | nil => rfl
    | cons die dice ih =>
      rw [List.map_cons, List.mapM_cons, ShownDie.ofText?_text, ih]
      rfl
  simp only [if_neg (listText_ne_nil empty), parts, read]

/-! ## Rendering dice -/

namespace Node

/-- The node is a die that is shown as stated, with a number that can be written. -/
structure ShowsDie (node : Node) (die : ShownDie) : Prop where
  kind : node.kind = .diceRoll
  value : node.value? = some (.int die.value)
  writable : (Value.int die.value).isWritable = true
  critical : node.has "critical" = die.critical
  dropped : node.isDropped = die.dropped

/-- The node is a die with an integer that can be written.  Every integer of at most four thousand
    digits can (`Value.isWritable_of_short`). -/
structure IsWritableDie (node : Node) : Prop where
  kind : node.kind = .diceRoll
  face : ∃ n : Int, node.value? = some (.int n) ∧ (Value.int n).isWritable = true

/-- The dice have the same value, both or neither of them is dropped, and both or neither of them
    has an attribute that says that it is critical. -/
structure LooksLike (die die' : Node) : Prop where
  value : die.value? = die'.value?
  dropped : die.isDropped = die'.isDropped
  critical : die.has "critical" = die'.has "critical"

variable {node node' roll roll' : Node} {nodes nodes' : List Node} {die die' : ShownDie}
  {dice dice' : List ShownDie}

/-- A node whose value can be written shows a die. -/
private theorem IsWritableDie.exists_showsDie (h : node.IsWritableDie) :
    ∃ die, node.ShowsDie die := by
  obtain ⟨n, value, writable⟩ := h.face
  exact ⟨⟨n, node.has "critical", node.isDropped⟩, h.kind, value, writable, rfl, rfl⟩

/-- Nodes whose values can be written show dice. -/
private theorem exists_showDice (h : ∀ node ∈ nodes, node.IsWritableDie) :
    ∃ dice, List.Forall₂ ShowsDie nodes dice := by
  induction nodes with
  | nil => exact ⟨[], .nil⟩
  | cons node nodes ih =>
    obtain ⟨first, behind⟩ := List.forall_mem_cons.mp h
    obtain ⟨die, shows⟩ := first.exists_showsDie
    obtain ⟨dice, others⟩ := ih behind
    exact ⟨die :: dice, .cons shows others⟩

/-- Nodes look alike if and only if they show the same die. -/
private theorem looksLike_iff (h : node.ShowsDie die) (h' : node'.ShowsDie die') :
    node.LooksLike node' ↔ die = die' := by
  obtain ⟨value, critical, dropped⟩ := die
  obtain ⟨value', critical', dropped'⟩ := die'
  -- What is shown of a die is its value and its two marks.
  rw [ShownDie.mk.injEq]
  constructor
  · rintro ⟨sameValue, sameDropped, sameCritical⟩
    rw [h.value, h'.value] at sameValue
    rw [h.dropped, h'.dropped] at sameDropped
    rw [h.critical, h'.critical] at sameCritical
    injection sameValue with sameValue
    injection sameValue with sameValue
    injection sameValue with sameValue
    exact ⟨sameValue, sameCritical, sameDropped⟩
  · rintro ⟨rfl, rfl, rfl⟩
    exact ⟨h.value.trans h'.value.symm, h.dropped.trans h'.dropped.symm,
      h.critical.trans h'.critical.symm⟩

/-- Rolls look alike, die by die, if they show the same dice. -/
private theorem lookAlike_iff (h : List.Forall₂ ShowsDie nodes dice)
    (h' : List.Forall₂ ShowsDie nodes' dice') :
    List.Forall₂ LooksLike nodes nodes' ↔ dice = dice' := by
  induction h generalizing nodes' dice' with
  | nil => cases h' <;> simp
  | cons first _ ih =>
    cases h' with
    | nil => simp
    | cons first' behind' =>
      rw [List.forall₂_cons, looksLike_iff first first', ih behind', List.cons.injEq]

/-- A die is rendered without looking at its children. -/
private theorem render_of_diceRoll (kind : node.kind = .diceRoll) :
    node.render = Rendering.die node := by
  obtain ⟨_, attributes, children⟩ := node
  obtain rfl := kind
  rfl

/-- A die is rendered as it is shown. -/
private theorem render_die (h : node.ShowsDie die) : node.render = .ok
    (String.ofList die.text) := by
  have face : Rendering.numberText node.value? =
      .ok (String.ofList (ShownDie.number die.value)) := by
    rw [h.value, Rendering.numberText, Number.normalize_int, Rendering.valueText, Option.all_some,
      if_pos h.writable, ShownDie.number, String.ofList_toList]
    rfl
  rw [render_of_diceRoll h.kind, Rendering.die, face, h.critical, h.dropped]
  change Except.ok _ = Except.ok _
  refine congrArg Except.ok ?_
  unfold ShownDie.text ShownDie.starred
  cases die.critical <;> cases die.dropped <;>
    simp [Expr.ofList_parenthesized, String.ofList_append]

/-- If all children are dice, they are written as a list: the second one is not taken for sides. -/
private theorem render_eq_list (kind : roll.kind = .dice)
    (h : ∀ die ∈ roll.children, die.kind = .diceRoll) :
    roll.render = Rendering.listText (roll.children.map render) >>= fun items =>
      .ok ("[" ++ items ++ "]") := by
  obtain ⟨_, attributes, children⟩ := roll
  obtain rfl := kind
  replace h : ∀ die ∈ children, die.kind = .diceRoll := h
  rw [render, renderAll_eq_map]
  change Rendering.dice children (children.map render) = _
  unfold Rendering.dice
  split
  · cases h _ (List.mem_cons_of_mem _ List.mem_cons_self)
  · rfl

/-- Dice are rendered as they are shown. -/
private theorem map_render_dice (h : List.Forall₂ ShowsDie nodes dice) :
    nodes.map render = (dice.map ShownDie.text).map fun text => .ok (String.ofList text) := by
  induction h with
  | nil => rfl
  | cons first _ ih => rw [List.map_cons, render_die first, ih, List.map_cons, List.map_cons]

/-- What shows a die is one. -/
private theorem kind_of_showDice (h : List.Forall₂ ShowsDie nodes dice) :
    ∀ node ∈ nodes, node.kind = .diceRoll := by
  induction h with
  | nil => exact nofun
  | cons first _ ih => exact List.forall_mem_cons.mpr ⟨first.kind, ih⟩

/-- A roll is rendered as the breakdown of the dice that it shows. -/
theorem render_dice (kind : roll.kind = .dice) (h : List.Forall₂ ShowsDie roll.children dice) :
    roll.render = .ok (String.ofList (breakdown dice)) := by
  rw [render_eq_list kind (kind_of_showDice h), map_render_dice h, Expr.listText_ok]
  refine congrArg Except.ok (String.toList_inj.mp ?_)
  simp [breakdown]

/-- A die that was rendered has a value that can be written. -/
private theorem isWritableDie_of_shown (kind : node.kind = .diceRoll) (face : node.IsDie)
    (h : Rendering.Shown node.render) : node.IsWritableDie := by
  obtain ⟨n, value⟩ := face
  rw [render_of_diceRoll kind, Rendering.die, value] at h
  exact ⟨kind, n, value, isWritable_of_shown_int h.of_bind⟩

/-- Where a roll has a text, the numbers of its dice can be written. -/
private theorem isWritableDie_of_render (kind : roll.kind = .dice)
    (h : ∀ die ∈ roll.children, die.kind = .diceRoll ∧ die.IsDie)
    (shown : Rendering.Shown roll.render) : ∀ die ∈ roll.children, die.IsWritableDie := by
  intro die mem
  rw [render_eq_list kind fun die mem => (h die mem).1] at shown
  have text := Rendering.shown_of_listText shown.of_bind die.render (List.mem_map_of_mem mem)
  exact isWritableDie_of_shown (h die mem).1 (h die mem).2 text

end Node

/-! ## Reading rolls -/

/-- The dice of a roll are read back from its text. -/
private theorem exists_breakdown {roll : Node} (kind : roll.kind = .dice)
    (h : ∀ die ∈ roll.children, die.IsWritableDie) : ∃ written dice, roll.render = .ok written ∧
      ofBreakdown? written = some dice ∧ List.Forall₂ Node.ShowsDie roll.children dice := by
  obtain ⟨dice, shown⟩ := Node.exists_showDice h
  exact ⟨_, dice, Node.render_dice kind shown, ofBreakdown?_ok dice, shown⟩

/-- What an expanded roll has below it are dice with numbers. -/
private theorem Expands.dice_of_evaluated {limits : Limits} {source : Source}
    {before after roll : Node}
    {n : Number} {trace trace' : Trace} (h : Expands limits source before trace after n trace')
    (wellFormed : before.WellFormed) (mem : roll ∈ after.preorder) (kind : roll.kind = .dice)
    (evaluated : roll.value? ≠ none) :
    ∀ die ∈ roll.children, die.kind = .diceRoll ∧ die.IsDie := by
  have spread := h.spread (Node.self_mem_preorder _)
  rcases spread.everywhere roll mem with ⟨-, rolled⟩ | ⟨outer, -, part, -, stands, inside⟩
  · intro die below
    have isDiceRoll := (rolled kind).dice die below
    exact ⟨isDiceRoll.kind, isDiceRoll.face⟩
  · -- What was skipped stands as it was written, and has no value.
    have skipped := wellFormed.written roll (Node.mem_preorder_trans inside stands)
    rcases skipped.quiet with new | literal | sides
    · exact absurd new evaluated
    · rw [kind] at literal; cases literal
    · rw [kind] at sides; cases sides

/-- A breakdown can be read back: it tells which values the dice have, which of them are dropped and
    which of them are critical.  So two rolls have the same breakdown if and only if they look alike
    die by die.  Every roll that was expanded has dice of this kind: if it has a text, its dice are
    read back from the text, and it has one if the numbers that were drawn are short. -/
theorem breakdown_readBack :
    (∀ roll roll' : Node, roll.kind = .dice → roll'.kind = .dice →
      (∀ die ∈ roll.children, die.IsWritableDie) → (∀ die ∈ roll'.children, die.IsWritableDie) →
        (∃ written dice, roll.render = .ok written ∧ ofBreakdown? written = some dice ∧
          List.Forall₂ Node.ShowsDie roll.children dice) ∧
        (roll.render = roll'.render ↔
          List.Forall₂ Node.LooksLike roll.children roll'.children)) ∧
    ∀ (text : String) (root : Node), parse text = .ok ⟨root, []⟩ →
      ∀ (limits : Limits) (source : Source) (record : Record) (outcome : Outcome),
        (interpret ⟨limits, .default, source⟩ root record).1 = .ok outcome →
          ∀ roll ∈ outcome.tree.preorder, roll.kind = .dice → roll.value? ≠ none →
            (source.IsShort → ∃ written, roll.render = .ok written) ∧
              ∀ written, roll.render = .ok written → ∃ dice, ofBreakdown? written = some dice ∧
                List.Forall₂ Node.ShowsDie roll.children dice := by
  constructor
  · intro roll roll' kind kind' writable writable'
    obtain ⟨written, dice, rendered, read, shown⟩ := exists_breakdown kind writable
    obtain ⟨written', dice', rendered', read', shown'⟩ := exists_breakdown kind' writable'
    refine ⟨⟨written, dice, rendered, read, shown⟩, ?_⟩
    rw [Node.lookAlike_iff shown shown']
    constructor
    · -- What is rendered alike is read back to the same dice.
      intro same
      rw [rendered, rendered'] at same
      obtain rfl := Except.ok.inj same
      exact Option.some.inj (read.symm.trans read')
    · rintro rfl
      rw [Node.render_dice kind shown, Node.render_dice kind' shown']
  · -- What evaluation leaves of a parsed text are dice that can be written.
    intro text root parsed limits source record outcome finished roll mem kind evaluated
    have before : root.Printable := printable_of_parse parsed
    obtain ⟨e, rfl, -⟩ := accepts_of_parse parsed
    obtain ⟨n, -, expands⟩ := interpret_expands e.toNode_wellFormed (Prod.ext finished rfl)
    have dice := expands.dice_of_evaluated e.toNode_wellFormed mem kind evaluated
    constructor
    · intro short
      have printable : roll.Printable := fun node below =>
        expands.printable short before node (Node.mem_preorder_trans below mem)
      exact Node.shown_render printable
    · intro written rendered
      obtain ⟨_, dice, rendered', read⟩ :=
        exists_breakdown kind (Node.isWritableDie_of_render kind dice ⟨written, rendered⟩)
      obtain rfl := Except.ok.inj (rendered.symm.trans rendered')
      exact ⟨dice, read⟩

/-- Two rolls of which different dice are dropped; and a text with critical dice. -/
theorem breakdown_readBack_dropped :
    let die (n : Int) (marks : List (String × Value)) :=
      Node.make .diceRoll (("value", .int n) :: marks) []
    let dropped : List (String × Value) := [("drop", "yes")]
    let roll := Node.make .dice [] [die (-1) dropped, die (-1) []]
    let roll' := Node.make .dice [] [die (-1) [], die (-1) dropped]
    let source : Source := fun request _ => if request = 0 then -1 else 1
    roll.render ≠ roll'.render ∧ ∃ root outcome, parse "3dFcs>0" = .ok ⟨root, []⟩ ∧
      (interpret ⟨{}, .default, source⟩ root {}).1 = .ok outcome ∧
      ∃ thrown ∈ outcome.tree.preorder, thrown.kind = .dice ∧
        ∃ written dice, thrown.render = .ok written ∧ ofBreakdown? written = some dice ∧
          List.Forall₂ Node.ShowsDie thrown.children dice := by
  intro die dropped roll roll' source
  constructor
  · -- Two rolls of the same faces, in which another die was dropped, are written differently.
    have short : (Value.int (-1)).isWritable = true := by decide +kernel
    have writable : (die (-1) dropped).IsWritableDie := ⟨rfl, -1, rfl, short⟩
    have writable' : (die (-1) []).IsWritableDie := ⟨rfl, -1, rfl, short⟩
    have all : ∀ die ∈ roll.children, die.IsWritableDie := by
      simp [roll, Node.make, writable, writable']
    have all' : ∀ die ∈ roll'.children, die.IsWritableDie := by
      simp [roll', Node.make, writable, writable']
    rw [Ne, (breakdown_readBack.1 roll roll' rfl rfl all all').2]
    rintro (_ | ⟨first, -⟩)
    exact absurd first.dropped (by decide)
  · -- The second half is read off a roll that one source makes of a text.
    let root := (Expr.roll (.literal 3) .fate [.critical true (some ⟨.greater, 0⟩)]).toNode
    have parsed : parse "3dFcs>0" = .ok ⟨root, []⟩ := rfl
    have short : source.IsShort := by
      intro request faces
      by_cases first : request = 0
      · simp only [source, first, if_true]
        decide +kernel
      · simp only [source, first, if_false]
        decide +kernel
    -- Nothing but the existence of an evaluated roll is computed; the rest is the general result.
    have found : (interpret ⟨{}, .default, source⟩ root {}).1.toOption.any (fun outcome =>
        outcome.tree.preorder.any fun node => node.kind == .dice && node.value?.isSome) = true := by
      decide +kernel
    cases finished : (interpret ⟨{}, .default, source⟩ root {}).1 with
    | error fault =>
      rw [finished] at found
      cases found
    | ok outcome =>
      rw [finished] at found
      obtain ⟨thrown, mem, isRoll⟩ := List.any_eq_true.mp found
      obtain ⟨kind, evaluated⟩ := Bool.and_eq_true_iff.mp isRoll
      have kind := beq_iff_eq.mp kind
      have evaluated := Option.isSome_iff_ne_none.mp evaluated
      obtain ⟨text, read⟩ :=
        breakdown_readBack.2 _ root parsed {} source {} outcome finished thrown mem kind evaluated
      obtain ⟨written, rendered⟩ := text short
      obtain ⟨dice, back⟩ := read written rendered
      exact ⟨root, outcome, parsed, finished, thrown, mem, kind, written, dice, rendered, back⟩

end DiceNotation
