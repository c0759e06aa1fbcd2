import DiceNotation.Proofs.Semantics.Requests
import DiceNotation.Proofs.Trees.Consistency

/-! # Dice show their faces

Every die in an expanded tree shows a face of the roll that it belongs to, if the source of random
numbers answers within the ranges that it is asked for.  The one exception is a die that penetrated:
it shows one less than was drawn, so that it can fall below the least face.

The faces of a roll can be read off the tree at any time.  Modifiers draw from the same faces that
the dice were thrown from, and later modifiers roll penetrating dice again like any other.

* `Node.OnFaces`          the dice of a tree show their faces
* `Expands.onFaces`       by induction on how the tree was expanded
* `interpret_onFaces`     parsed texts: what is asked for, and what the dice show -/

namespace DiceNotation

open Node (Everywhere Written StandsOn everywhere_iff)

/-- Every answer is in the range that was asked for, if there is a number in it. -/
def Source.AnswersInRange (source : Source) : Prop :=
  ∀ request faces, faces.low ≤ faces.high →
    faces.low ≤ source request faces ∧ source request faces ≤ faces.high

/-- A die with these faces can show this number; one less than the least face only if dice have
    penetrated. -/
structure Faces.CanShow (faces : Faces) (penetrated : Bool) (shown : Int) : Prop where
  possible : faces.low ≤ faces.high
  atMost : shown ≤ faces.high
  atLeast : faces.low ≤ shown ∨ penetrated = true ∧ shown = faces.low - 1

/-- What dice can show they can show when they may have penetrated. -/
theorem Faces.CanShow.mono {faces : Faces} {penetrated penetrated' : Bool} {shown : Int}
    (h : faces.CanShow penetrated shown) (le : penetrated = true → penetrated' = true) :
    faces.CanShow penetrated' shown :=
  ⟨h.possible, h.atMost, h.atLeast.imp_right fun below => ⟨le below.1, below.2⟩⟩

namespace Node

/-- The node is a die that shows a number that dice with these faces can show. -/
structure ShowsFace (faces : Faces) (penetrated : Bool) (die : Node) : Prop where
  kind : die.kind = .diceRoll
  leaf : die.children = []
  face : ∃ shown, die.value? = some (.int shown) ∧ faces.CanShow penetrated shown

/-- Whether the node lets dice explode and counts each extra die one less than was drawn. -/
def penetrates (node : Node) : Bool :=
  node.kind == .modifier .explode && node.hasText "penetrate" "yes"

/-- Every die in the tree belongs to a roll and shows a number that dice with the faces of this roll
    can show.  What the modifiers above the root say of penetrating is given; it is carried down
    from modifier to modifier and does not concern other parts of the tree. -/
inductive OnFaces : (penetrated : Bool) → Node → Prop where
  | rolled {penetrated : Bool} {attributes : OrderedMap Value} {dice : List Node} {sides : Value}
      {faces : Faces} (hsides : attributes.get? "sides" = some sides)
      (hfaces : Dice.faces sides = .ok (some faces))
      (h : ∀ die ∈ dice, die.ShowsFace faces penetrated) :
      OnFaces penetrated ⟨.dice, attributes, dice⟩
  | modifier {penetrated : Bool} {m : Modifier} {attributes : OrderedMap Value} {operand : Node}
      {argument : List Node}
      (h : OnFaces (penetrated || penetrates ⟨.modifier m, attributes, operand :: argument⟩)
        operand)
      (hargument : ∀ node ∈ argument, OnFaces false node) :
      OnFaces penetrated ⟨.modifier m, attributes, operand :: argument⟩
  | other {penetrated : Bool} {kind : NodeKind} {attributes : OrderedMap Value}
      {children : List Node} (plain : kind ≠ .diceRoll)
      (h : ∀ child ∈ children, OnFaces false child) :
      OnFaces penetrated ⟨kind, attributes, children⟩

/-- A die that shows a face shows one when dice may have penetrated. -/
theorem ShowsFace.mono {faces : Faces} {penetrated penetrated' : Bool} {die : Node}
    (h : die.ShowsFace faces penetrated) (le : penetrated = true → penetrated' = true) :
    die.ShowsFace faces penetrated' where
  kind := h.kind
  leaf := h.leaf
  face := by
    obtain ⟨shown, stored, canShow⟩ := h.face
    exact ⟨shown, stored, canShow.mono le⟩

/-- A property of what dice can show is kept as long as nothing else is drawn. -/
private theorem keptWithin_showsFace (faces : Faces) (penetrated : Bool) :
    KeptWithin (faces.CanShow penetrated) (ShowsFace faces penetrated) where
  thrown _ face canShow := ⟨rfl, rfl, face, rfl, canShow⟩
  again face canShow h := ⟨h.kind, h.leaf, face, by simp [value?], canShow⟩
  mark key value isMark h := by
    obtain ⟨shown, stored, canShow⟩ := h.face
    refine ⟨h.kind, h.leaf, shown, ?_, canShow⟩
    have other : "value" ≠ key := by
      rintro rfl
      simp [Dice.marks] at isMark
    rw [value?, get?_set, if_neg other]
    exact stored

namespace OnFaces

variable {node roll other : Node} {penetrated penetrated' : Bool}

/-- Dice are on their faces in a tree with no die at its root if they are below. -/
private theorem of_children (plain : node.kind ≠ .diceRoll)
    (h : ∀ child ∈ node.children, OnFaces false child) : OnFaces penetrated node := by
  obtain ⟨kind, attributes, children⟩ := node
  exact .other plain h

/-- Nothing that was written is a die. -/
private theorem of_written (h : Everywhere Written node) : OnFaces penetrated node := by
  induction node using induct generalizing penetrated with
  | node kind attributes children ih =>
    exact .other h.here.plain fun child hchild => ih child hchild (h.child hchild)

/-- Where dice may have penetrated, they need not have. -/
theorem mono (h : OnFaces penetrated node) (le : penetrated = true → penetrated' = true) :
    OnFaces penetrated' node := by
  induction h generalizing penetrated' with
  | rolled hsides hfaces h => exact .rolled hsides hfaces fun die hdie => (h die hdie).mono le
  | modifier _ hargument ih _ =>
    refine .modifier (ih fun above => ?_) hargument
    rw [Bool.or_eq_true] at above ⊢
    exact above.imp_left le
  | other plain h _ => exact .other plain h

/-- The faces of a roll that was thrown are those of its sides. -/
theorem dice {sides : Option Int} (h : OnFaces penetrated roll) (thrown : roll.IsThrown)
    (kind : roll.kind = .dice) (hsides : roll.get? "sides" = some (shownSides sides)) :
    ∀ die ∈ roll.children, die.ShowsFace (Roll.facesOf sides) penetrated := by
  cases h with
  | rolled hsides' hfaces h =>
    obtain rfl : shownSides sides = _ := Option.some.inj (hsides.symm.trans hsides')
    rw [faces_shownSides] at hfaces
    cases hfaces
    exact h
  | modifier => cases kind
  | other plain h =>
    -- There are no dice, for a die belongs to a roll with faces.
    intro die hdie
    cases h die hdie with
    | rolled => cases (thrown.dice _ hdie).kind
    | modifier => cases (thrown.dice _ hdie).kind
    | other plain => exact absurd (thrown.dice _ hdie).kind plain

/-- Dice are on their faces in a roll if each of them shows one of the faces of the roll. -/
private theorem of_dice {sides : Option Int} (kind : roll.kind = .dice)
    (hsides : roll.get? "sides" = some (shownSides sides))
    (h : ∀ die ∈ roll.children, die.ShowsFace (Roll.facesOf sides) penetrated) :
    OnFaces penetrated roll := by
  obtain ⟨_, attributes, children⟩ := roll
  cases kind
  exact .rolled hsides (faces_shownSides sides) h

/-- Another roll can be put below modifiers, if its dice can show what these allow. -/
theorem replaceDice (h : OnFaces penetrated node) (stands : StandsOn roll node)
    (change : ∀ penetrated' : Bool, (penetrated = true → penetrated' = true) →
      OnFaces penetrated' roll → OnFaces penetrated' other) :
    OnFaces penetrated (node.replaceDice other) := by
  -- The path to the roll goes through modifiers, each of which may penetrate.
  induction stands generalizing penetrated with
  | roll kind =>
    rw [replaceDice_of_kind kind]
    exact change penetrated id h
  | @modifier m attributes operand rest stands ih =>
    rw [replaceDice_modifier]
    have below : OnFaces (penetrated || penetrates ⟨.modifier m, attributes, operand :: rest⟩)
        operand ∧ ∀ node ∈ rest, OnFaces false node := by
      cases h with
      | modifier h hrest => exact ⟨h, hrest⟩
      | other _ h =>
        obtain ⟨h, hrest⟩ := List.forall_mem_cons.mp h
        exact ⟨h.mono nofun, hrest⟩
    refine .modifier (ih below.1 fun penetrated' le => change penetrated' fun above => ?_) below.2
    exact le (Bool.or_eq_true_iff.mpr (.inl above))

/-! ## Values and marks -/

/-- Sides and the kind of an explosion are attributes that no value or mark overwrites. -/
private theorem set {key : String} (value : Value) (free : key ≠ "sides" ∧ key ≠ "penetrate")
    (h : OnFaces penetrated node) : OnFaces penetrated (node.set key value) := by
  -- Neither the sides nor the letters of a modifier are stored under this key.
  cases h with
  | @rolled _ attributes dice sides _ hsides hfaces h =>
    have same := get?_set ⟨.dice, attributes, dice⟩ key "sides" value
    rw [if_neg (Ne.symm free.1)] at same
    exact .rolled (same.trans hsides) hfaces h
  | @modifier _ m attributes operand argument h hargument =>
    have same : penetrates ⟨.modifier m, attributes, operand :: argument⟩ =
        penetrates (set ⟨.modifier m, attributes, operand :: argument⟩ key value) := by
      simp [penetrates, hasText, Ne.symm free.2]
    rw [same] at h
    exact .modifier h hargument
  | other plain h => exact .other plain h

/-- Storing a value leaves the dice on their faces. -/
private theorem store (n : Number) (h : OnFaces penetrated node) : OnFaces penetrated
    (node.store n) :=
  h.set _ (by decide)

/-- A mark leaves the dice on their faces. -/
private theorem mark (c : Condition) (h : OnFaces penetrated node) : OnFaces penetrated
    (c.mark node) :=
  h.set _ (by decide)

/-- Marking the live dice of a roll leaves them on their faces. -/
private theorem markLive (c : Condition) (thrown : roll.IsThrown) (kind : roll.kind = .dice)
    (h : OnFaces penetrated roll) : OnFaces penetrated (roll.markLive c) := by
  obtain ⟨sides, hsides⟩ := thrown.sides
  refine of_dice kind hsides fun die hdie => ?_
  obtain ⟨old, hold, rfl⟩ := List.mem_map.mp hdie
  have shows := h.dice thrown kind hsides old hold
  by_cases dropped : old.isDropped
  · simp only [dropped, if_true]
    exact shows
  · simp only [dropped, Bool.false_eq_true, if_false]
    exact ⟨shows.kind, shows.leaf, by simpa using shows.face⟩

/-- Marking the targets of a comparison leaves the dice on their faces. -/
private theorem mapTargets (c : Condition) (h : OnFaces penetrated node)
    (rolls : node.kind.isRoll = true → ∃ roll, StandsOn roll node)
    (thrown : ∀ {roll}, StandsOn roll node → roll.IsThrown) :
    OnFaces penetrated (node.mapTargets c.mark) := by
  -- The marks go to the dice of a roll, to the members of a group, or to the node itself.
  rcases target_cases rolls with ⟨roll, stands⟩ | isGroup | ⟨plain, single⟩
  · rw [mapTargets_of_standsOn stands]
    exact h.replaceDice stands fun _ _ onFaces => onFaces.markLive c (thrown stands) stands.kind
  · rw [mapTargets_of_group isGroup]
    have members : ∀ member ∈ node.children, OnFaces false member := by
      cases h with
      | rolled => cases isGroup
      | modifier => cases isGroup
      | other _ h => exact h
    apply of_children
    · rw [show (node.withChildren _).kind = node.kind from rfl, isGroup]
      nofun
    · intro child hchild
      obtain ⟨member, hmember, rfl⟩ := List.mem_map.mp hchild
      exact (members member hmember).mark c
  · rw [mapTargets_of_single plain single]
    exact h.mark c

end OnFaces

end Node

/-! ## Expanded trees -/

section

variable {limits : Limits} {source : Source}

/-- What an evaluation leaves shows its faces. -/
theorem Expands.onFaces (inRange : source.AnswersInRange) {before after : Node} {n : Number}
    {trace trace' : Trace} (h : Expands limits source before trace after n trace') :
    after.OnFaces false := by
  induction h with
  -- Only the rules for rolls and modifiers add dice; all others put together what is below.
  | literal stored => exact .other nofun nofun
  | negate _ ih => exact .of_children nofun (List.forall_mem_singleton.mpr ih)
  | operator _ _ _ ih ih' =>
    refine .of_children nofun ?_
    exact List.forall_mem_cons.mpr ⟨ih, List.forall_mem_singleton.mpr ih'⟩
  | untested _ _ hright ih =>
    refine .of_children nofun ?_
    have unrolled : Node.OnFaces false _ := .of_written hright.written
    exact List.forall_mem_cons.mpr ⟨ih, List.forall_mem_singleton.mpr unrolled⟩
  | @tested op _ _ _ _ _ _ b _ _ _ _ _ hleft _ _ _ _ ih ih' =>
    refine .of_children nofun ?_
    have marked := ih.mapTargets ⟨op, .number b⟩ hleft.exists_standsOn hleft.isThrown
    exact List.forall_mem_cons.mpr ⟨marked, List.forall_mem_singleton.mpr ih'⟩
  | call _ _ _ _ ih => exact .of_children nofun (List.forall_mem_singleton.mpr ih)
  | miscall _ _ _ harguments _ =>
    refine .of_children nofun ?_
    exact fun argument hargument => .of_written (harguments argument hargument).written
  | group kind unfolds _ _ _ _ ih =>
    apply Node.OnFaces.of_children
    · rw [Node.kind_store, show (Node.withChildren _ _).kind = _ from unfolds.kind.trans kind]
      nofun
    · intro child hchild
      obtain ⟨visit, hvisit, rfl⟩ := List.mem_map.mp hchild
      exact ih visit hvisit
  | @roll _ _ _ _ _ _ _ sides _ _ _ _ _ _ _ _ _ _ _ _ _ sidesChecked threw =>
    refine .of_dice rfl ((Node.get?_store _ _ (by decide)).trans (Node.get?_sides_thrown ..)) ?_
    apply keptWithin_throwDice (Node.keptWithin_showsFace (Roll.facesOf sides) false) _ threw
    intro allowed k
    -- Dice are thrown only if their sides are allowed.
    rw [(Bool.and_eq_true_iff.mp allowed).2] at sidesChecked
    have possible := (permits_of_sidesAllowed sidesChecked).low_le_high
    have answer := inRange k _ possible
    exact ⟨possible, answer.2, .inl answer.1⟩
  | @modifier m attributes operand operand' roll argument dice _ _ _ _ h stands hargument alters
      ih =>
    have thrown := h.isThrown stands
    obtain ⟨sides, hsides⟩ := thrown.sides
    apply Node.OnFaces.store
    refine .modifier ?_ fun node hnode => .of_written (hargument.written node hnode)
    apply (ih.mono nofun).replaceDice stands
    intro penetrated le onFaces
    have shows := onFaces.dice thrown stands.kind hsides
    refine .of_dice stands.kind ((Node.get?_store _ _ (by decide)).trans hsides) ?_
    apply alters.keptWithin (Node.keptWithin_showsFace (Roll.facesOf sides) penetrated) _ shows
    intro dice sides' faces hsides' hfaces k
    obtain rfl : shownSides sides = sides' := Option.some.inj (hsides.symm.trans hsides')
    rw [faces_shownSides] at hfaces
    cases hfaces
    -- There is a die, and so the range is not empty.
    obtain ⟨die, hdie⟩ := List.exists_mem_of_ne_nil _ dice
    obtain ⟨_, -, canShow⟩ := (shows die hdie).face
    have possible := canShow.possible
    have answer := inRange k _ possible
    refine ⟨⟨possible, answer.2, .inl answer.1⟩, fun explode penetrates => ?_⟩
    have penetrated : penetrated = true := by
      subst explode
      have marked : Node.penetrates ⟨.modifier .explode, attributes, operand :: argument⟩ := by
        simp [Node.penetrates, penetrates]
      exact le marked
    -- The least face is reduced to the number below the range, which penetrating dice may show.
    rcases Int.lt_or_eq_of_le answer.1 with above | least
    · exact ⟨possible, by omega, .inl (by omega)⟩
    · exact ⟨possible, by omega, .inr ⟨penetrated, by omega⟩⟩

/-- Interpreting a text asks for numbers from permitted ranges only, and never from an empty one,
    whatever it comes to.  If the source answers within these ranges, each die in the tree that is
    left shows a face of its roll, or one less than the least face where dice have penetrated. -/
theorem interpret_onFaces {text : String} {root : Node} (parsed : parse text = .ok ⟨root, []⟩)
    (limits : Limits) (source : Source) (record : Record) :
    (∃ made, (interpret ⟨limits, .default, source⟩ root record).2.requests.toList =
        record.requests.toList ++ made ∧
      ∀ faces ∈ made, limits.Permits faces ∧ faces.low ≤ faces.high) ∧
    (source.AnswersInRange → ∀ outcome,
      (interpret ⟨limits, .default, source⟩ root record).1 = .ok outcome →
        outcome.tree.OnFaces false) := by
  obtain ⟨e, rfl, -⟩ := accepts_of_parse parsed
  constructor
  · obtain ⟨made, hmade, permitted⟩ := requests_interpret limits source e record
    exact ⟨made, hmade, fun faces h => ⟨permitted faces h, (permitted faces h).low_le_high⟩⟩
  · intro inRange outcome finished
    obtain ⟨n, -, expands⟩ := interpret_expands e.toNode_wellFormed (Prod.ext finished rfl)
    exact expands.onFaces inRange

/-- Two dice of which the first one penetrates, a roll that is not allowed, and fate dice. -/
theorem interpret_onFaces_penetrating :
    let root := (Expr.group [.roll (.literal 2) (.faces 6) [.explode true none],
      .roll (.literal 1) (.faces 8) [.reroll false none], .roll (.literal 1) .fate []] none).toNode
    let limits : Limits := { maxSides := some 6 }
    let source : Source := fun request faces => if request = 0 then faces.high else faces.low
    parse "\x7b2d6!p, 1d8r, 1dF\x7d" = .ok ⟨root, []⟩ ∧ source.AnswersInRange ∧
      ∃ outcome, (interpret ⟨limits, .default, source⟩ root {}).1 = .ok outcome ∧
        outcome.tree.OnFaces false ∧
          ∃ made, (interpret ⟨limits, .default, source⟩ root {}).2.requests.toList = [] ++ made ∧
            ∀ faces ∈ made, limits.Permits faces ∧ faces.low ≤ faces.high := by
  intro root limits source
  have read : parse "\x7b2d6!p, 1d8r, 1dF\x7d" = .ok ⟨root, []⟩ := rfl
  have inRange : source.AnswersInRange := by
    intro request faces possible
    by_cases first : request = 0
    · simp only [source, first, if_true]
      exact ⟨possible, Int.le_refl _⟩
    · simp only [source, first, if_false]
      exact ⟨Int.le_refl _, possible⟩
  have answered : (interpret ⟨limits, .default, source⟩ root {}).1.isOk = true := by
    decide +kernel
  obtain ⟨outcome, record', returned⟩ := exists_outcome answered
  have finished : (interpret ⟨limits, .default, source⟩ root {}).1 = .ok outcome := by
    rw [returned]
  -- The general result is applied to the outcome, of which only the existence is computed.
  have both := interpret_onFaces read limits source {}
  exact ⟨read, inRange, outcome, finished, both.2 inRange outcome finished, both.1⟩

end

end DiceNotation
