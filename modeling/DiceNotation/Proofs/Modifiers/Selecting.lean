import DiceNotation.Proofs.Modifiers.Operand
import DiceNotation.Proofs.Modifiers.Ranking

/-! # Keeping and dropping dice

Both modifiers mark the dice at the selected places (`Roll.Selects`), or the others, as dropped
(`Dice.Marked`).  Everything else follows from the marks: which dice count afterwards, how many they
are, and what their sum is. -/

namespace DiceNotation

open DiceNotation.EvalM (evaluateWithin)

namespace Dice

/-- One die is left as it is but for its mark. -/
structure MarkedAs (dropped : Prop) (die after : Node) : Prop where
  kind : after.kind = die.kind
  children : after.children = die.children
  others : ∀ name, name ≠ "drop" → after.get? name = die.get? name
  dropped : after.isDropped = true ↔ die.isDropped = true ∨ dropped

/-- The dice that are not at these places are dropped, or those that are.  Dice that were dropped
    before stay dropped, and nothing else is changed. -/
structure Marked (keep : Bool) (places : Finset Nat) (dice after : List Node) : Prop where
  length : after.length = dice.length
  each : ∀ i die die', dice[i]? = some die → after[i]? = some die' →
    MarkedAs (if keep then i ∉ places else i ∈ places) die die'

section

variable {keep : Bool} {places : Finset Nat} {dice after : List Node} {die : Node}

/-- A mark leaves the face of a die as it is. -/
private theorem MarkedAs.face {dropped : Prop} {die' : Node} (h : MarkedAs dropped die die') :
    (Die.ofNode die').face = (Die.ofNode die).face := by
  unfold Die.ofNode Node.number? Node.value?
  rw [h.others "value" (by decide)]

/-- A die that is dropped already may stay as it is. -/
private theorem markedAs_self {dropped : Prop} (h : dropped → die.isDropped = true) :
    MarkedAs dropped die die :=
  ⟨rfl, rfl, fun _ _ => rfl, (or_iff_left_of_imp h).symm⟩

/-- A die is marked by setting its mark. -/
private theorem markedAs_set {dropped : Prop} (text : String)
    (h : text = "yes" ↔ die.isDropped = true ∨ dropped) :
    MarkedAs dropped die (die.set "drop" text) := by
  refine ⟨rfl, rfl, fun name other => ?_, ?_⟩
  · rw [Node.get?_set, if_neg other]
  · have mark : (die.set "drop" text).isDropped = (text == "yes") :=
      congrArg Die.dropped (ofNode_set_drop die text)
    rw [mark, beq_iff_eq, h]

/-! ## What follows from the marks -/

/-- The places that count are those of nodes that are not dropped. -/
private theorem mem_counting_nodes {i : Nat} :
    i ∈ Roll.counting (dice.map Die.ofNode) ↔
      ∃ die, dice[i]? = some die ∧ die.isDropped = false := by
  rw [Roll.mem_counting, List.getElem?_map]
  constructor
  · rintro ⟨_, here, live⟩
    obtain ⟨die, inside, rfl⟩ := Option.map_eq_some_iff.mp here
    exact ⟨die, inside, live⟩
  · rintro ⟨die, here, live⟩
    exact ⟨Die.ofNode die, by rw [here]; rfl, live⟩

/-- There are as many live nodes as places that count. -/
private theorem length_live_nodes (dice : List Node) :
    (live dice).length = (Roll.counting (dice.map Die.ofNode)).card := by
  rw [← Roll.length_live, ← ofNode_live, List.length_map]

/-- At each place there is the die that was there, with its mark. -/
theorem Marked.exists_marked (h : Marked keep places dice after) {i : Nat}
    (here : dice[i]? = some die) : ∃ die', after[i]? = some die' ∧
      MarkedAs (if keep then i ∉ places else i ∈ places) die die' := by
  obtain ⟨inside, -⟩ := List.getElem?_eq_some_iff.mp here
  rw [← h.length] at inside
  have there : after[i]? = some after[i] := List.getElem?_eq_getElem inside
  exact ⟨_, there, h.each i _ _ here there⟩

/-- The places that count afterwards are those that counted before and are not dropped now. -/
private theorem Marked.mem_counting (h : Marked keep places dice after) {i : Nat} :
    i ∈ Roll.counting (after.map Die.ofNode) ↔
      i ∈ Roll.counting (dice.map Die.ofNode) ∧ ¬(if keep then i ∉ places else i ∈ places) := by
  rw [mem_counting_nodes, mem_counting_nodes]
  constructor
  · -- A die that counts behind has counted before, since no mark is taken away.
    rintro ⟨die', there, live⟩
    obtain ⟨inside, -⟩ := List.getElem?_eq_some_iff.mp there
    rw [h.length] at inside
    have here : dice[i]? = some dice[i] := List.getElem?_eq_getElem inside
    have dropped := (h.each i _ _ here there).dropped
    rw [live] at dropped
    have spared := not_or.mp (dropped.not.mp Bool.false_ne_true)
    exact ⟨⟨_, here, Bool.eq_false_of_not_eq_true spared.1⟩, spared.2⟩
  · -- A die that was spared is not dropped behind unless it was before.
    rintro ⟨⟨die, here, live⟩, spared⟩
    obtain ⟨die', there, marked⟩ := h.exists_marked here
    refine ⟨die', there, Bool.eq_false_of_not_eq_true fun dropped => ?_⟩
    rcases marked.dropped.mp dropped with before | now
    · rw [live] at before
      cases before
    · exact spared now

/-- The dice that count afterwards are the selected ones, or the others. -/
private theorem Marked.counting (h : Marked keep places dice after)
    (inside : places ⊆ Roll.counting (dice.map Die.ofNode)) :
    Roll.counting (after.map Die.ofNode) =
      if keep then places else Roll.counting (dice.map Die.ofNode) \ places := by
  ext i
  rw [h.mem_counting]
  cases keep with
  | true =>
    rw [if_pos rfl, if_pos rfl, not_not]
    exact ⟨And.right, fun selected => ⟨inside selected, selected⟩⟩
  | false =>
    rw [if_neg Bool.false_ne_true, if_neg Bool.false_ne_true, Finset.mem_sdiff]

/-- The faces are the same at all places. -/
private theorem Marked.faceAt (h : Marked keep places dice after) (i : Nat) :
    Roll.faceAt (after.map Die.ofNode) i = Roll.faceAt (dice.map Die.ofNode) i := by
  unfold Roll.faceAt
  rw [List.getElem?_map, List.getElem?_map]
  -- Marks keep the number of dice, so a place is inside both lists or outside of both.
  cases here : dice[i]? with
  | none =>
    have outside : after[i]? = none := by
      rw [List.getElem?_eq_none_iff] at here ⊢
      exact h.length ▸ here
    rw [outside]
  | some die =>
    obtain ⟨die', there, marked⟩ := h.exists_marked here
    rw [there]
    exact marked.face

/-- The sum of the dice that count afterwards. -/
private theorem Marked.total (h : Marked keep places dice after)
    (inside : places ⊆ Roll.counting (dice.map Die.ofNode)) :
    Dice.total after = ∑ i ∈ if keep then places else Roll.counting (dice.map Die.ofNode) \ places,
      Roll.faceAt (dice.map Die.ofNode) i := by
  unfold Dice.total
  rw [Roll.total_eq_sum, h.counting inside]
  exact Finset.sum_congr rfl fun i _ => h.faceAt i

/-- The number of dice that count afterwards. -/
private theorem Marked.length_live (h : Marked keep places dice after)
    (inside : places ⊆ Roll.counting (dice.map Die.ofNode)) :
    ((live after).length : Int) =
      if keep then (places.card : Int) else (live dice).length - places.card := by
  rw [length_live_nodes, h.counting inside, length_live_nodes]
  cases keep with
  | true => rfl
  | false =>
    rw [if_neg Bool.false_ne_true, if_neg Bool.false_ne_true, Finset.card_sdiff_of_subset inside,
      Nat.cast_sub (Finset.card_le_card inside)]

/-! ## The marks -/

/-- Keeping marks each live die according to its place. -/
private theorem getElem?_keep (highest : Bool) (amount : Int) (dice : List Node) (i : Nat) :
    (Dice.keep highest amount dice)[i]? = dice[i]?.map fun die =>
      if die.isDropped then die
      else die.set "drop" (if (selection highest amount dice).contains i then "no" else "yes") := by
  simp only [Dice.keep, List.getElem?_map, List.getElem?_zipIdx, Option.map_map, Nat.zero_add]
  rfl

/-- Dropping marks the selected dice and no others. -/
private theorem getElem?_drop (highest : Bool) (amount : Int) (dice : List Node) (i : Nat) :
    (Dice.drop highest amount dice)[i]? = dice[i]?.map fun die =>
      if (selection highest amount dice).contains i then die.set "drop" "yes" else die := by
  simp only [Dice.drop, List.getElem?_map, List.getElem?_zipIdx, Option.map_map, Nat.zero_add]
  rfl

/-- Keeping drops all dice that are not selected. -/
theorem marked_keep (highest : Bool) (amount : Int) (dice : List Node) :
    Marked true (selection highest amount dice).toFinset dice (Dice.keep highest amount dice) where
  length := length_keep highest amount dice
  each i die die' here there := by
    rw [getElem?_keep, here, Option.map_some, Option.some_inj] at there
    subst there
    rw [if_pos rfl, List.mem_toFinset]
    -- A die that was dropped before stays so, selected or not.
    by_cases dropped : die.isDropped = true
    · rw [if_pos dropped]
      exact markedAs_self fun _ => dropped
    · rw [if_neg dropped]
      by_cases selected : i ∈ selection highest amount dice
      · rw [if_pos (List.contains_iff_mem.mpr selected)]
        exact markedAs_set "no" (by simp [dropped, selected])
      · rw [if_neg (mt List.contains_iff_mem.mp selected)]
        exact markedAs_set "yes" (by simp [selected])

/-- Dropping drops the dice that are selected. -/
theorem marked_drop (highest : Bool) (amount : Int) (dice : List Node) :
    Marked false (selection highest amount dice).toFinset dice (Dice.drop highest amount dice) where
  length := length_drop highest amount dice
  each i die die' here there := by
    rw [getElem?_drop, here, Option.map_some, Option.some_inj] at there
    subst there
    rw [if_neg Bool.false_ne_true, List.mem_toFinset]
    by_cases selected : i ∈ selection highest amount dice
    · rw [if_pos (List.contains_iff_mem.mpr selected)]
      exact markedAs_set "yes" (by simp [selected])
    · rw [if_neg (mt List.contains_iff_mem.mp selected)]
      exact markedAs_self fun now => absurd now selected

end

end Dice

/-! ## The modifiers -/

section

variable {rules : Rules} {levels : Nat} {attributes : OrderedMap Value} {operand roll : Node}
  {argument : List Node} {record : Record} {rolled : Focus} {amount : Int}

/-- Keeping and dropping are one step with a parameter. -/
theorem modifier_select (rules : Rules) (evaluate : EvalM Value) (keep : Bool) :
    EvalM.modifier rules evaluate (if keep then .keep else .drop) = EvalM.select keep evaluate := by
  cases keep <;> rfl

/-- What marks do not take away is kept by both. -/
theorem Kept.select {P : Node → Prop} (kept : Kept P) (keep highest : Bool) (amount : Int)
    {dice : List Node} (h : ∀ die ∈ dice, P die) :
    ∀ die ∈ (if keep then Dice.keep else Dice.drop) highest amount dice, P die := by
  cases keep with
  | true => exact kept.keep highest amount h
  | false => exact kept.drop highest amount h

/-- The evaluation puts the marked dice in their place. -/
theorem select_altered (keep : Bool)
    (pending : Pending rules levels attributes operand record rolled roll)
    (counts : Counts argument amount) :
    let m : Modifier := if keep then .keep else .drop
    let node : Node := ⟨.modifier m, attributes, operand :: argument⟩
    let dice := (if keep then Dice.keep else Dice.drop) (node.hasText "type" "highest") amount
      roll.children
    ∃ value after, evaluateWithin rules (levels + 1) ⟨node, record⟩ = .ok value after ∧
      Altered m attributes rolled.node roll argument dice rolled.record.trace value after := by
  intro m node dice
  have isDie : ∀ die ∈ dice, die.IsDie :=
    kept_isDie.select keep (node.hasText "type" "highest") amount pending.faces
  -- The amount was given and the dice show faces, so nothing is refused.
  have comes : ComesTo (fun _ => False)
      (Altered m attributes rolled.node roll argument dice rolled.record.trace)
      (evaluateWithin rules (levels + 1) ⟨node, record⟩) := by
    apply pending.altered ((modifier_select rules _ keep).trans rfl) counts.length_lt
    apply counts.ensures_bind pending.remembers
    apply Ensures.node_bind
    rw [liveNumbers?_eq pending.faces]
    simp only [Option.isNone_some, Bool.false_eq_true, if_false]
    exact .run_bind (run_setDice pending.stands dice) (ensures_renew pending.stands isDie)
  exact comes.result fun _ => id

/-- Keeping and dropping select dice by rank, among those that count, and mark the others or the
    selected ones.  The sum of the kept dice is the best one of so many dice. -/
theorem select_exact (keep : Bool)
    (pending : Pending rules levels attributes operand record rolled roll)
    (counts : Counts argument amount) :
    let m : Modifier := if keep then .keep else .drop
    let node : Node := ⟨.modifier m, attributes, operand :: argument⟩
    let highest := node.hasText "type" "highest"
    let before := roll.children.map Die.ofNode
    let number := min (max amount 0) (Dice.live roll.children).length
    ∃ places dice, Roll.Selects highest amount before places ∧
      Dice.Marked keep places roll.children dice ∧
      ((Dice.live dice).length : Int) =
        (if keep then number else (Dice.live roll.children).length - number) ∧
      Dice.total dice =
        ∑ i ∈ (if keep then places else Roll.counting before \ places), Roll.faceAt before i ∧
      (keep = true → ∀ others ⊆ Roll.counting before, (others.card : Int) = number →
        if highest then ∑ i ∈ others, Roll.faceAt before i ≤ Dice.total dice
        else Dice.total dice ≤ ∑ i ∈ others, Roll.faceAt before i) ∧
      ∃ value after, evaluateWithin rules (levels + 1) ⟨node, record⟩ = .ok value after ∧
        Altered m attributes rolled.node roll argument dice rolled.record.trace value after := by
  intro m node highest before number
  let dice := (if keep then Dice.keep else Dice.drop) highest amount roll.children
  -- The places are those of the highest or lowest faces among the dice that count.
  have selects : Roll.Selects highest amount before
      (Dice.selection highest amount roll.children).toFinset := by
    rw [selection_eq highest amount pending.faces]
    exact Roll.selection_selects highest amount before
  have marked : Dice.Marked keep (Dice.selection highest amount roll.children).toFinset
      roll.children dice := by
    cases keep with
    | true => exact Dice.marked_keep highest amount roll.children
    | false => exact Dice.marked_drop highest amount roll.children
  -- From here on nothing but the marks and the rank of the places is used.
  generalize (Dice.selection highest amount roll.children).toFinset = places at selects marked
  have card : (places.card : Int) = number := by
    rw [selects.card, ← Dice.length_live_nodes]
  have total := marked.total selects.counting
  refine ⟨places, dice, selects, marked, ?_, total, ?_, ?_⟩
  · rw [marked.length_live selects.counting, card]
  · intro isKeep others inside cardOthers
    rw [total, if_pos isKeep]
    exact selects.sum_le inside (Nat.cast_injective (cardOthers.trans card.symm))
  · exact select_altered keep pending counts

/-- Of two fives, a three and a dropped six, the two highest are kept. -/
theorem select_exact_highest :
    let roll : Node := .make .dice [("value", .int 13), ("count", .int 4), ("sides", .int 6)]
      [Dice.die (.int 6) 5, (Dice.die (.int 6) 6).set "drop" "yes", Dice.die (.int 6) 3,
        Dice.die (.int 6) 5]
    let argument := [Node.integer 2]
    let node : Node := ⟨.modifier .keep, .ofList [("type", "highest")], roll :: argument⟩
    let rules : Rules := ⟨{}, .default, fun _ _ => 0⟩
    let before := roll.children.map Die.ofNode
    Pending rules 1 node.attributes roll {} ⟨roll, {}⟩ roll ∧ Counts argument 2 ∧
    ∃ places dice, Roll.Selects true 2 before places ∧
      Dice.Marked true places roll.children dice ∧ (Dice.live dice).length = 2 ∧
      ∃ value after, evaluateWithin rules 2 ⟨node, {}⟩ = .ok value after ∧
        Altered .keep node.attributes roll roll argument dice {} value after := by
  intro roll argument node rules before
  have faces : ∀ die ∈ roll.children, die.IsDie := by decide +kernel
  have pending : Pending rules 1 node.attributes roll {} ⟨roll, {}⟩ roll :=
    ⟨rfl, ⟨_, rfl⟩, .roll rfl, faces⟩
  have counts : Counts argument 2 := .given (n := .int 2) rfl (by decide +kernel)
  obtain ⟨places, dice, selects, marked, length, -, -, altered⟩ :=
    select_exact true pending counts
  refine ⟨pending, counts, places, dice, selects, marked, ?_, altered⟩
  have number : min (max 2 0) ((Dice.live roll.children).length : Int) = 2 := by decide +kernel
  rw [if_pos rfl, number] at length
  exact Int.ofNat.inj length

end

end DiceNotation
