import DiceNotation.Proofs.Modifiers.Dropped
import DiceNotation.Proofs.Modifiers.RankingLayers

/-! # Putting dice in order

Dice that are put in order are the same nodes in another order: by their faces, and those that show
the same face in the order in which they were before (`Dice.Ordered`).  There is only one such list
(`Ordered.unique`), and it does not matter whether the dice were put in another order first
(`Ordered.trans`).  So of modifiers that put dice in order one after the other, only the last one
can be seen in the dice. -/

namespace DiceNotation

open DiceNotation.EvalM (evaluateWithin)
open Node (StandsOn)

/-! ## Lists in order -/

/-- Lists in order are equal if those of their elements that have the same key are the same, in the
    same order. -/
private theorem eq_of_pairwise_of_filter_eq {α : Type} {r : Int → Int → Prop} {f : α → Int}
    (antisymm : ∀ a b, r a b → r b a → a = b) {l l' : List α}
    (sorted : l.Pairwise fun x y => r (f x) (f y))
    (sorted' : l'.Pairwise fun x y => r (f x) (f y))
    (same : ∀ k, l.filter (f · = k) = l'.filter (f · = k)) : l = l' := by
  induction l generalizing l' with
  | nil =>
    cases l' with
    | nil => rfl
    | cons y rest => simpa using same (f y)
  | cons x rest ih =>
    cases l' with
    | nil => simpa using same (f x)
    | cons y rest' =>
      obtain ⟨first, behind⟩ := List.pairwise_cons.mp sorted
      obtain ⟨first', behind'⟩ := List.pairwise_cons.mp sorted'
      -- The first entries have the same key: otherwise each list would put them in another order.
      have same_key : f x = f y := by
        by_contra different
        -- Each of them stands behind the other one, since the other list has it as well.
        have inside : x ∈ rest' := by
          have found : x ∈ (y :: rest').filter (f · = f x) := by
            rw [← same]
            simp
          simpa [Ne.symm different] using found
        have inside' : y ∈ rest := by
          have found : y ∈ (x :: rest).filter (f · = f y) := by
            rw [same]
            simp
          simpa [different] using found
        exact different (antisymm _ _ (first y inside') (first' x inside))
      -- The entries with this key are the same on both sides, so the first ones are equal.
      have heads := same (f x)
      rw [List.filter_cons_of_pos (by simp), List.filter_cons_of_pos (by simp [same_key])] at heads
      obtain ⟨rfl, -⟩ := List.cons.inj heads
      congr 1
      refine ih behind behind' fun k => ?_
      have rests := same k
      by_cases here : f x = k
      · rw [List.filter_cons_of_pos (by simpa), List.filter_cons_of_pos (by simpa)] at rests
        exact (List.cons.inj rests).2
      · rwa [List.filter_cons_of_neg (by simpa), List.filter_cons_of_neg (by simpa)] at rests

namespace Dice

/-- The face that a die shows. -/
def face (die : Node) : Int := (Die.ofNode die).face

/-- The same dice, with all their marks, by their faces.  Those that show the same face stand in the
    order in which they stood before. -/
structure Ordered (descending : Bool) (before after : List Node) : Prop where
  perm : after.Perm before
  sorted : after.Pairwise fun a b => if descending then face b ≤ face a else face a ≤ face b
  stable : ∀ n, after.filter (face · = n) = before.filter (face · = n)

section

variable {descending first : Bool} {before middle after after' dice : List Node}

/-- There is only one stable order. -/
theorem Ordered.unique (h : Ordered descending before after)
    (h' : Ordered descending before after') : after = after' := by
  apply eq_of_pairwise_of_filter_eq (r := fun a b => if descending then b ≤ a else a ≤ b)
    (f := face) ?_ h.sorted h'.sorted fun n => (h.stable n).trans (h'.stable n).symm
  cases descending with
  | true => exact fun a b ab ba => Int.le_antisymm ba ab
  | false => exact fun a b ab ba => Int.le_antisymm ab ba

/-- What was put in order before is put in order as if it was not. -/
theorem Ordered.trans (h : Ordered first before middle) (h' : Ordered descending middle after) :
    Ordered descending before after where
  perm := h'.perm.trans h.perm
  sorted := h'.sorted
  stable n := (h'.stable n).trans (h.stable n)

/-- Sorting nodes is the merge sort by face. -/
private theorem sort_eq_mergeSort (descending : Bool) (faces : ∀ die ∈ dice, die.IsDie) :
    sort descending dice =
      dice.mergeSort fun a b => Roll.ranksBefore descending (face a) (face b) := by
  have same : ∀ a ∈ dice, ∀ b ∈ dice, ranksBefore descending a.number? b.number? =
      Roll.ranksBefore descending (face (id a)) (face (id b)) := by
    intro a ha b hb
    rw [(faces a ha).number?, (faces b hb).number?, ranksBefore_int]
    rfl
  have sorts := List.map_mergeSort (f := id)
    (s := fun a b => Roll.ranksBefore descending (face a) (face b)) same
  rwa [List.map_id, List.map_id] at sorts

/-- Sorting puts dice into stable order. -/
private theorem ordered_sort (descending : Bool) (faces : ∀ die ∈ dice, die.IsDie) :
    Ordered descending dice (sort descending dice) := by
  have trans (a b c : Node) := Roll.ranksBefore_trans descending (face a) (face b) (face c)
  have total (a b : Node) := Roll.ranksBefore_total descending (face a) (face b)
  have perm := sort_perm descending dice
  constructor
  case perm => exact perm
  case sorted =>
    rw [sort_eq_mergeSort descending faces]
    refine (List.pairwise_mergeSort trans total dice).imp ?_
    intro a b before
    unfold Roll.ranksBefore at before
    cases descending <;> simpa using before
  case stable =>
    intro n
    -- Dice with the same face are in order, so they are still there in the order that they have.
    have equal : (dice.filter (face · = n)).Pairwise fun a b =>
        Roll.ranksBefore descending (face a) (face b) = true := by
      rw [List.pairwise_filter]
      refine List.pairwise_of_forall fun a b ha hb => ?_
      rw [of_decide_eq_true ha, of_decide_eq_true hb]
      unfold Roll.ranksBefore
      cases descending <;> simp
    have kept := List.sublist_mergeSort trans total equal List.filter_sublist
    rw [← sort_eq_mergeSort descending faces] at kept
    have inside := kept.filter fun die => decide (face die = n)
    simp only [List.filter_filter, Bool.and_self] at inside
    exact (inside.eq_of_length (perm.filter _).length_eq.symm).symm

/-- An order of dice does not change their sum. -/
private theorem Ordered.total (h : Ordered descending before after) :
    Dice.total after = Dice.total before :=
  total_eq_of_perm (((h.perm.map Die.ofNode).filter _).map _)

end

end Dice

/-! ## Rolls and modifiers -/

namespace Node

variable {roll node : Node} {dice : List Node}

/-- Only the last dice and their sum can be seen. -/
private theorem renewed_renewed (roll : Node) (dice last : List Node) :
    (roll.renewed dice).renewed last = roll.renewed last := by
  unfold renewed store set withChildren
  simp only [OrderedMap.insert_insert]

/-- A roll whose value is the sum of the dice that count. -/
def IsSummed (roll : Node) : Prop := roll.value? = some (.int (Dice.total roll.children))

/-- If the sum is what it was, nothing but the dice is changed. -/
private theorem IsSummed.renewed (h : roll.IsSummed)
    (same : Dice.total dice = Dice.total roll.children) :
    roll.renewed dice = roll.withChildren dice := by
  have attributes := OrderedMap.insert_get? (m := roll.attributes) h
  unfold Node.renewed store set withChildren
  rw [same, Number.normalize_int]
  exact congrArg (fun attributes => (⟨roll.kind, attributes, dice⟩ : Node)) attributes

end Node

namespace Layer

/-- A modifier that puts dice in order. -/
def sorting (attributes : OrderedMap Value) : Layer := ⟨.sort, attributes, []⟩

/-- The modifier with its value. -/
def stored (layer : Layer) (value : Value) : Layer :=
  { layer with attributes := layer.attributes.insert "value" value }

end Layer

/-- Dice are replaced at the bottom of the layers. -/
private theorem Node.replaceDice_under (node roll : Node) (layers : List Layer) :
    (node.under layers).replaceDice roll = (node.replaceDice roll).under layers := by
  induction layers with
  | nil => rfl
  | cons layer layers ih =>
    rw [Node.under_cons, Node.under_cons, ← ih]
    exact Node.replaceDice_modifier _ _ _ _ _

/-- Layers around a node stand on the roll that the node stands on. -/
private theorem Node.StandsOn.under {roll node : Node} (h : StandsOn roll node)
    (layers : List Layer) : StandsOn roll (node.under layers) := by
  induction layers with
  | nil => exact h
  | cons layer layers ih => exact .modifier ih

section

variable {rules : Rules} {levels : Nat} {last : OrderedMap Value} {operand roll : Node}
  {record : Record} {rolled : Focus}

/-- A run of modifiers that put dice in order leaves these dice in the roll.  The modifiers have
    its value, and nothing else is changed. -/
structure SortedRun (layers : List Layer) (operand roll : Node) (dice : List Node) (trace : Trace)
    (value : Value) (after : Focus) : Prop where
  value : value = .int (Dice.total roll.children)
  node : after.node = (operand.replaceDice (roll.renewed dice)).under
    (layers.map (·.stored (.int (Dice.total roll.children))))
  trace : after.record.trace = trace

/-- Of modifiers that put dice in order, the last one puts the dice of the roll in its own order,
    whatever the others have done. -/
private theorem run_sorting (pending : Pending rules levels last operand record rolled roll)
    {earlier : List (OrderedMap Value)}
    (new : ∀ attributes ∈ earlier, attributes.get? "value" = none) :
    let descending := Node.hasText ⟨.modifier .sort, last, []⟩ "direction" "descending"
    let layers := (last :: earlier).map Layer.sorting
    ∃ dice, Dice.Ordered descending roll.children dice ∧
      ∃ value after, evaluateWithin rules (levels + layers.length)
          ⟨operand.under layers, record⟩ = .ok value after ∧
        SortedRun layers rolled.node roll dice rolled.record.trace value after := by
  intro descending layers
  -- By induction on the sorts below the last one, which are the first to run.
  induction earlier generalizing last with
  | nil =>
    obtain ⟨value, after, run, altered⟩ := sort_altered pending
    have ordered := Dice.ordered_sort descending pending.faces
    refine ⟨_, ordered, value, after, run, ?_, ?_, altered.trace⟩
    · rw [← ordered.total]
      exact altered.value
    · rw [← ordered.total]
      exact altered.node
  | cons before earlier ih =>
    obtain ⟨here, inside⟩ := List.forall_mem_cons.mp new
    obtain ⟨dice, ordered, value, after, run, sorted⟩ :=
      ih ⟨here, pending.evaluated, pending.stands, pending.faces⟩ inside
    have kind : (roll.renewed dice).kind = .dice := pending.stands.kind
    have stands : StandsOn (roll.renewed dice) after.node := by
      rw [sorted.node]
      exact (pending.stands.replace kind).under _
    have faces : ∀ die ∈ dice, die.IsDie :=
      fun die hdie => pending.faces die (ordered.perm.mem_iff.mp hdie)
    -- The last modifier stands on the others, and the roll that it finds has their dice.
    obtain ⟨value', after', run', altered⟩ :=
      sort_altered ⟨pending.new, ⟨value, run⟩, stands, faces⟩
    have altered : Altered .sort last after.node (roll.renewed dice) []
      (Dice.sort descending dice) after.record.trace value' after' := altered
    have again := Dice.ordered_sort descending faces
    have total : Dice.total (Dice.sort descending dice) = Dice.total roll.children :=
      again.total.trans ordered.total
    refine ⟨_, ordered.trans again, value', after', run', ?_, ?_, ?_⟩
    · rw [altered.value, total]
    · rw [altered.node, total, sorted.node, Node.replaceDice_under, Node.renewed_renewed,
        pending.stands.replace_replace kind]
      rfl
    · rw [altered.trace, sorted.trace]

/-! ## Rolls that were not evaluated before -/

/-- A roll with modifiers over it, where nothing was evaluated before. -/
def Node.IsNewChain (node : Node) : Prop :=
  ∃ attributes children layers, node = Node.under ⟨.dice, attributes, children⟩ layers ∧
    attributes.get? "value" = none ∧ ∀ layer ∈ layers, layer.Fresh

/-- A chain that comes to a result has a level to spend on each of its layers. -/
private theorem exists_levels_of_chain {layers : List Layer} (fresh : ∀ layer ∈ layers, layer.Fresh)
    {value : Value} {after : Focus}
    (run : evaluateWithin rules levels ⟨operand.under layers, record⟩ = .ok value after) :
    ∃ inner, levels = inner + layers.length := by
  induction layers generalizing levels value after with
  | nil => exact ⟨levels, rfl⟩
  | cons layer layers ih =>
    obtain ⟨here, inside⟩ := List.forall_mem_cons.mp fresh
    -- Every layer takes one level, so a run that ends well had enough of them.
    cases levels with
    | zero => cases run
    | succ levels =>
      cases below : evaluateWithin rules levels ⟨operand.under layers, record⟩ with
      | ok value after =>
        obtain ⟨inner, rfl⟩ := ih inside below
        exact ⟨inner, rfl⟩
      | error e after =>
        rw [Node.under_cons, run_layer_error here below] at run
        cases run

/-- The value of a roll that was just evaluated is the sum of the dice that count. -/
private theorem Node.IsNewChain.isSummed (h : operand.IsNewChain)
    (pending : Pending rules levels last operand record rolled roll) : roll.IsSummed := by
  obtain ⟨attributes, children, layers, rfl, new, fresh⟩ := h
  obtain ⟨value, run⟩ := pending.evaluated
  obtain ⟨inner, rfl⟩ := exists_levels_of_chain fresh run
  obtain ⟨_, _, below⟩ := exists_run_of_chain fresh run
  obtain ⟨dice, -, rolls⟩ := leavesDice_roll new below
  have leaves := leavesDice_chain fresh rolls
  rw [run] at leaves
  cases leaves with
  | @ok _ other stands _ summed _ _ =>
    -- There is only one roll that the chain stands on.
    have same : some other = some roll := stands.findDice?.symm.trans pending.stands.findDice?
    rw [← Option.some.inj same]
    exact summed

/-- Putting dice in order is a stable sort of the dice with all their marks, by their faces.  The
    value of the roll is the sum that it was.  If other modifiers put the dice in order right
    before, the dice are left as if they had not, and there is only one way to leave them. -/
theorem sort_lastWins (pending : Pending rules levels last operand record rolled roll) :
    let descending := Node.hasText ⟨.modifier .sort, last, []⟩ "direction" "descending"
    ∃ dice, Dice.Ordered descending roll.children dice ∧
      (∀ other, Dice.Ordered descending roll.children other → other = dice) ∧
      (roll.renewed dice).IsSummed ∧ Dice.total dice = Dice.total roll.children ∧
      (operand.IsNewChain ∨ roll.IsSummed → roll.renewed dice = roll.withChildren dice) ∧
      ∀ earlier : List (OrderedMap Value),
        (∀ attributes ∈ earlier, attributes.get? "value" = none) →
        let layers := (last :: earlier).map Layer.sorting
        ∃ value after, evaluateWithin rules (levels + layers.length)
            ⟨operand.under layers, record⟩ = .ok value after ∧
          SortedRun layers rolled.node roll dice rolled.record.trace value after := by
  intro descending
  have ordered := Dice.ordered_sort descending pending.faces
  refine ⟨_, ordered, fun other sorted => sorted.unique ordered, Node.value?_store _ _,
    ordered.total, ?_, ?_⟩
  · intro summed
    have summed : roll.IsSummed := summed.elim (·.isSummed pending) id
    exact summed.renewed ordered.total
  · intro earlier new layers
    obtain ⟨dice, again, value, after, run, sorted⟩ := run_sorting pending new
    rw [again.unique ordered] at sorted
    exact ⟨value, after, run, sorted⟩

/-- Two fives and a three, of which one five is critical and another one is dropped, are put in
    descending order after they were put in ascending order. -/
theorem sort_lastWins_fives :
    let critical := (Dice.die (.int 6) 5).set "critical" "success"
    let dropped := (Dice.die (.int 6) 5).set "drop" "yes"
    let roll : Node := .make .dice [("value", .int 8), ("count", .int 3), ("sides", .int 6)]
      [dropped, Dice.die (.int 6) 3, critical]
    let descending : OrderedMap Value := .ofList [("direction", "descending")]
    let ascending : OrderedMap Value := .ofList [("direction", "ascending")]
    let layers := [descending, ascending].map Layer.sorting
    let rules : Rules := ⟨{}, .default, fun _ _ => 0⟩
    let dice := [dropped, critical, Dice.die (.int 6) 3]
    Pending rules 1 descending roll {} ⟨roll, {}⟩ roll ∧
    Dice.Ordered true roll.children dice ∧ roll.renewed dice = roll.withChildren dice ∧
    ∃ value after, evaluateWithin rules 3 ⟨roll.under layers, {}⟩ = .ok value after ∧
      SortedRun layers roll roll dice {} value after := by
  intro critical dropped roll descending ascending layers rules dice
  have faces : ∀ die ∈ roll.children, die.IsDie := by decide +kernel
  have pending : Pending rules 1 descending roll {} ⟨roll, {}⟩ roll :=
    ⟨rfl, ⟨_, rfl⟩, .roll rfl, faces⟩
  -- The sorted dice are computed; that the run leaves them is what the theorem says.
  have sorts : Dice.sort true roll.children = dice := by cbv
  obtain ⟨sorted, ordered, unique, -, -, unchanged, runs⟩ := sort_lastWins pending
  obtain rfl : dice = sorted := by
    rw [← sorts]
    exact unique _ (Dice.ordered_sort true faces)
  have summed : roll.IsSummed := rfl
  have new : ∀ attributes ∈ [ascending], attributes.get? "value" = none :=
    List.forall_mem_singleton.mpr rfl
  exact ⟨pending, ordered, unchanged (.inr summed), runs [ascending] new⟩

end

end DiceNotation
