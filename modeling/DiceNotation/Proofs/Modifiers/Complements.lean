import DiceNotation.Proofs.Modifiers.LiveFaces
import DiceNotation.Proofs.Modifiers.Selecting
import DiceNotation.Proofs.Range.Written

/-! # Keeping and dropping are complementary

Keeping some dice by rank leaves the faces that dropping the others by the opposite rank leaves
(`Roll.take_byRank_perm`).  Of dice that show the same face, the one that stands first ranks first
whichever way the ranking goes, so the two may leave different dice. -/

namespace DiceNotation

open DiceNotation.EvalM (evaluateWithin)

/-- Dice that were dropped before are dropped afterwards. -/
def Dice.StaysDropped (dice after : List Node) : Prop :=
  ∀ (i : Nat) (die : Node), dice[i]? = some die → die.isDropped = true →
    ∃ die' : Node, after[i]? = some die' ∧ die'.isDropped = true

/-- Keeping and dropping bring no dropped die back. -/
private theorem Dice.Marked.staysDropped {keep : Bool} {places : Finset Nat}
    {dice after : List Node}
    (h : Dice.Marked keep places dice after) : Dice.StaysDropped dice after := by
  intro i die here dropped
  obtain ⟨die', there, marked⟩ := h.exists_marked here
  exact ⟨die', there, marked.dropped.mpr (.inl dropped)⟩

section

variable {rules : Rules} {levels : Nat} {attributes attributes' : OrderedMap Value}
  {operand roll kept dropped : Node} {record : Record} {rolled : Focus} {n : Nat}

/-- An integer up to 2^52 is the number of dice that are selected. -/
private theorem counts_of_lt {node : Node} (written : node.value? = some (.int n))
    (small : n < 2 ^ 52) : Counts [node] n := by
  refine (counts_written written).mpr (Number.roundsWell_of_small ?_)
  rw [Nat.abs_cast]
  exact_mod_cast small.le

/-- Of dice of which `m` count, keeping `n` by one rank and dropping `m - n` by the other one leave
    the same faces with the same sum, and `n` of them.  Dropped dice stay dropped. -/
theorem select_complementary
    (pending : Pending rules levels attributes operand record rolled roll)
    (new : attributes'.get? "value" = none)
    (inside : n ≤ (Dice.live roll.children).length)
    (few : (Dice.live roll.children).length < 2 ^ 52)
    (hkept : kept.value? = some (.int n))
    (hdropped : dropped.value? = some (.int ((Dice.live roll.children).length - n : Nat)))
    (opposite : Node.hasText ⟨.modifier .drop, attributes', [operand, dropped]⟩ "type" "highest" =
      !Node.hasText ⟨.modifier .keep, attributes, [operand, kept]⟩ "type" "highest") :
    let keep : Node := ⟨.modifier .keep, attributes, [operand, kept]⟩
    let drop : Node := ⟨.modifier .drop, attributes', [operand, dropped]⟩
    let highest := keep.hasText "type" "highest"
    let rest := (Dice.live roll.children).length - n
    let keptDice := Dice.keep highest n roll.children
    let leftDice := Dice.drop (!highest) rest roll.children
    (∃ value afterKeep afterDrop,
      evaluateWithin rules (levels + 1) ⟨keep, record⟩ = .ok value afterKeep ∧
      Altered .keep attributes rolled.node roll [kept] keptDice rolled.record.trace value
        afterKeep ∧
      evaluateWithin rules (levels + 1) ⟨drop, record⟩ = .ok value afterDrop ∧
      Altered .drop attributes' rolled.node roll [dropped] leftDice rolled.record.trace value
        afterDrop) ∧
    (Dice.liveFaces keptDice).Perm (Dice.liveFaces leftDice) ∧
    (Dice.live keptDice).length = n ∧
    Dice.StaysDropped roll.children keptDice ∧ Dice.StaysDropped roll.children leftDice := by
  intro keep drop highest rest keptDice leftDice
  -- Both leave a part of the faces in rank order: the first ones, or all but the last ones.
  have keeps : (Dice.liveFaces keptDice).Perm
      ((Roll.byRank highest (Dice.liveFaces roll.children)).take n) :=
    Dice.liveFaces_select true highest n pending.faces
  have drops : (Dice.liveFaces leftDice).Perm
      ((Roll.byRank (!highest) (Dice.liveFaces roll.children)).drop rest) :=
    Dice.liveFaces_select false (!highest) rest pending.faces
  -- Counted from opposite ends, the two parts are the same.
  have counted : n + rest = (Dice.liveFaces roll.children).length := by
    rw [Dice.length_liveFaces, Nat.add_sub_cancel' inside]
  have faces : (Dice.liveFaces keptDice).Perm (Dice.liveFaces leftDice) :=
    keeps.trans ((Roll.take_byRank_perm counted).trans drops.symm)
  have total : Dice.total leftDice = Dice.total keptDice := Dice.total_eq_of_perm faces.symm
  refine ⟨?_, faces, ?_, (Dice.marked_keep highest n roll.children).staysDropped,
    (Dice.marked_drop (!highest) rest roll.children).staysDropped⟩
  · have other : Pending rules levels attributes' operand record rolled roll :=
      { pending with new := new }
    obtain ⟨value, afterKeep, runKeep, hkeep⟩ :=
      select_altered true pending (counts_of_lt hkept (by omega))
    have dropping : ∃ value after, evaluateWithin rules (levels + 1) ⟨drop, record⟩ =
        .ok value after ∧ Altered .drop attributes' rolled.node roll [dropped]
          (Dice.drop (drop.hasText "type" "highest") rest roll.children) rolled.record.trace value
          after :=
      select_altered false other (counts_of_lt hdropped (by omega))
    rw [opposite] at dropping
    obtain ⟨value', afterDrop, runDrop, hdrop⟩ := dropping
    -- Equal live faces give the two nodes equal values.
    have same : value' = value :=
      hdrop.value.trans ((congrArg Value.int total).trans hkeep.value.symm)
    subst same
    exact ⟨value', afterKeep, afterDrop, runKeep, hkeep, runDrop, hdrop⟩
  · rw [← Dice.length_liveFaces, keeps.length_eq, List.length_take, Roll.length_byRank]
    omega

/-- Of two fives and a dropped six, keeping the highest one and dropping the lowest one leave a five
    each, but not the same one. -/
theorem select_complementary_fives :
    let roll : Node := .make .dice [("value", .int 10), ("count", .int 3), ("sides", .int 6)]
      [Dice.die (.int 6) 5, (Dice.die (.int 6) 6).set "drop" "yes", Dice.die (.int 6) 5]
    let highest : OrderedMap Value := .ofList [("type", "highest")]
    let lowest : OrderedMap Value := .ofList [("type", "lowest")]
    let rules : Rules := ⟨{}, .default, fun _ _ => 0⟩
    let keep : Node := ⟨.modifier .keep, highest, [roll, .integer 1]⟩
    let drop : Node := ⟨.modifier .drop, lowest, [roll, .integer 1]⟩
    let kept := Dice.keep true 1 roll.children
    let left := Dice.drop false 1 roll.children
    Pending rules 1 highest roll {} ⟨roll, {}⟩ roll ∧ (Dice.live roll.children).length = 2 ∧
    (∃ value afterKeep afterDrop,
      evaluateWithin rules 2 ⟨keep, {}⟩ = .ok value afterKeep ∧
      Altered .keep highest roll roll [.integer 1] kept {} value afterKeep ∧
      evaluateWithin rules 2 ⟨drop, {}⟩ = .ok value afterDrop ∧
      Altered .drop lowest roll roll [.integer 1] left {} value afterDrop) ∧
    (Dice.liveFaces kept).Perm (Dice.liveFaces left) ∧
    kept.map Node.isDropped = [false, true, true] ∧
    left.map Node.isDropped = [true, true, false] := by
  intro roll highest lowest rules keep drop kept left
  have faces : ∀ die ∈ roll.children, die.IsDie := by decide +kernel
  have pending : Pending rules 1 highest roll {} ⟨roll, {}⟩ roll :=
    ⟨rfl, ⟨_, rfl⟩, .roll rfl, faces⟩
  have new : lowest.get? "value" = none := rfl
  have one : (Node.integer 1).value? = some (.int (1 : Nat)) := rfl
  have rest : (Node.integer 1).value? =
      some (.int ((Dice.live roll.children).length - 1 : Nat)) := rfl
  obtain ⟨runs, same, -⟩ := select_complementary pending new (by decide +kernel)
    (by decide +kernel) one rest (by decide +kernel)
  exact ⟨pending, by decide +kernel, runs, same, by cbv, by cbv⟩

end

end DiceNotation
