import DiceNotation.Proofs.Modifiers.Layers
import DiceNotation.Proofs.Modifiers.LiveFaces
import DiceNotation.Proofs.Modifiers.Selecting

/-! # Chains of modifiers that rank dice

Keeping, dropping, marking and putting in order throw no dice.  What counts after a chain of such
modifiers is computed here from the faces that counted before (`Layer.leaves`), and these are a
multiset: neither their order nor the dice that show them matter. -/

namespace DiceNotation

open DiceNotation.EvalM (evaluateWithin)
open Node (StandsOn)

/-! ## Marking and putting in order -/

section

variable {rules : Rules} {levels : Nat} {attributes : OrderedMap Value} {operand roll : Node}
  {argument : List Node} {record : Record} {rolled : Focus} {sides : Value} {faces : Faces}
  {c : Condition}

/-- The evaluation marks the dice that meet the condition. -/
private theorem critical_altered
    (pending : Pending rules levels attributes operand record rolled roll)
    (hsides : roll.get? "sides" = some sides) (hfaces : Dice.faces sides = .ok (some faces)) :
    let node : Node := ⟨.modifier .critical, attributes, operand :: argument⟩
    let kind := (node.get? "type").getD "success"
    Compares (.face (if kind.isText "success" then faces.high else faces.low)) argument c →
    ∃ value after, evaluateWithin rules (levels + 1) ⟨node, record⟩ = .ok value after ∧
      Altered .critical attributes rolled.node roll argument
        (Dice.markCritical c kind roll.children) rolled.record.trace value after := by
  intro node kind compares
  have isDie : ∀ die ∈ Dice.markCritical c kind roll.children, die.IsDie :=
    kept_isDie.markCritical c kind pending.faces
  -- A critical mark cannot fail, since the operand left a roll with its sides.
  have comes : ComesTo (fun _ => False) (Altered .critical attributes rolled.node roll argument
      (Dice.markCritical c kind roll.children) rolled.record.trace)
      (evaluateWithin rules (levels + 1) ⟨node, record⟩) := by
    apply pending.altered rfl compares.length_lt
    apply Ensures.run_bind (run_facesOf hsides hfaces)
    apply Ensures.node_bind
    apply compares.ensures_bind pending.remembers pending.faces
    intro c' same
    -- Without dice there is nothing to compare, and then the condition is not known.
    have marked : Dice.markCritical c' kind roll.children =
        Dice.markCritical c kind roll.children := by
      by_cases none : roll.children = []
      · rw [none]
        rfl
      · rw [same none]
    apply Ensures.run_bind (run_setDice pending.stands (Dice.markCritical c' kind roll.children))
    rw [marked]
    exact ensures_renew pending.stands isDie
  exact comes.result fun _ => id

/-- The evaluation puts the dice in order. -/
theorem sort_altered (pending : Pending rules levels attributes operand record rolled roll) :
    let node : Node := ⟨.modifier .sort, attributes, [operand]⟩
    let dice := Dice.sort (node.hasText "direction" "descending") roll.children
    ∃ value after, evaluateWithin rules (levels + 1) ⟨node, record⟩ = .ok value after ∧
      Altered .sort attributes rolled.node roll [] dice rolled.record.trace value after := by
  intro node dice
  have isDie : ∀ die ∈ dice, die.IsDie := Kept.sort _ pending.faces
  have comes : ComesTo (fun _ => False)
      (Altered .sort attributes rolled.node roll [] dice rolled.record.trace)
      (evaluateWithin rules (levels + 1) ⟨node, record⟩) := by
    apply pending.altered rfl Nat.one_pos
    apply Ensures.node_bind
    rw [mapM_number? pending.faces]
    simp only [Option.isNone_some, Bool.false_eq_true, if_false]
    exact .run_bind (run_setDice pending.stands dice) (ensures_renew pending.stands isDie)
  exact comes.result fun _ => id

end

/-! ## What counts after a chain -/

/-- A modifier that ranks dice, with what it may have besides its operand: a number of dice, or a
    comparison with a number, or nothing. -/
inductive Ranks : Modifier → List Node → Prop where
  | one (keep : Bool) : Ranks (if keep then .keep else .drop) []
  | amount (keep : Bool) {node : Node} {n : Number} (value : node.value? = some (.number n)) :
      Ranks (if keep then .keep else .drop) [node]
  | face : Ranks .critical []
  | condition {op : Comparison} {attributes : OrderedMap Value} {limit : Node} {n : Number}
      (value : limit.value? = some (.number n)) :
      Ranks .critical [⟨.comparison op, attributes, [limit]⟩]
  | sort : Ranks .sort []

namespace Layer

/-- How many dice the layer selects. -/
def amount (layer : Layer) : Except Fault Int :=
  match layer.argument with
  | [] => .ok 1
  | node :: _ =>
    match node.number? with
    | none => .error .notANumber
    | some n => n.roundHalfUp.mapError .outOfRange

/-- Whether the highest dice are selected. -/
def highest (layer : Layer) : Bool :=
  Node.hasText ⟨.modifier layer.modifier, layer.attributes, []⟩ "type" "highest"

/-- The faces that count after a layer that ranks dice. -/
def leaves (layer : Layer) (faces : Multiset Int) : Except Fault (Multiset Int) :=
  match layer.modifier with
  | .keep => layer.amount.map fun n => ((Roll.ranking layer.highest faces).take n.toNat : List Int)
  | .drop => layer.amount.map fun n => ((Roll.ranking layer.highest faces).drop n.toNat : List Int)
  | _ => .ok faces

/-- The faces that count after layers that rank dice, the outermost one first. -/
def leavesAll (layers : List Layer) (faces : Except Fault (Multiset Int)) :
    Except Fault (Multiset Int) :=
  layers.foldr (fun layer faces => faces >>= layer.leaves) faces

/-- Whether the layer does not only put dice in order. -/
def counts (layer : Layer) : Bool := layer.modifier != .sort

/-- Putting dice in order leaves what counts. -/
theorem leavesAll_filter (layers : List Layer) (faces : Except Fault (Multiset Int)) :
    leavesAll (layers.filter counts) faces = leavesAll layers faces := by
  induction layers with
  | nil => rfl
  | cons layer layers ih =>
    have split : leavesAll (layer :: layers) faces = leavesAll layers faces >>= layer.leaves := rfl
    rw [split, ← ih]
    cases ordering : layer.counts with
    | true =>
      rw [List.filter_cons_of_pos ordering]
      rfl
    | false =>
      rw [List.filter_cons_of_neg (Bool.eq_false_iff.mp ordering)]
      have sort : layer.modifier = .sort := by simpa [counts] using ordering
      -- A sort leaves the faces as they are, so it can be left out.
      have same : layer.leaves = pure := by
        funext faces
        unfold leaves
        rw [sort]
        rfl
      rw [same, bind_pure]

/-- Keeping and dropping leave the two parts of one ranking. -/
theorem leaves_select {layer : Layer} (keep : Bool)
    (modifier : layer.modifier = if keep then .keep else .drop) (faces : Multiset Int) :
    let ranked := Roll.ranking layer.highest faces
    layer.leaves faces = layer.amount.map fun n =>
      Multiset.ofList (if keep then ranked.take n.toNat else ranked.drop n.toNat) := by
  unfold leaves
  cases keep <;> rw [modifier] <;> rfl

/-- The amount of a modifier is its argument, rounded. -/
theorem amount_given {m : Modifier} {attributes : OrderedMap Value} {node : Node} {n : Number}
    (value : node.value? = some (.number n)) :
    amount ⟨m, attributes, [node]⟩ = n.roundHalfUp.mapError .outOfRange := by
  have number : node.number? = some n := by
    unfold Node.number?
    rw [value]
    rfl
  simp only [amount, number]

/-- A layer that ranks dice and was not evaluated. -/
structure RanksDice (layer : Layer) : Prop where
  new : layer.attributes.get? "value" = none
  ranks : Ranks layer.modifier layer.argument

/-- A layer that ranks dice has not been evaluated yet. -/
private theorem RanksDice.fresh {layer : Layer} (h : layer.RanksDice) : layer.Fresh where
  new := h.new
  few := by
    obtain ⟨m, attributes, argument⟩ := layer
    obtain ⟨-, ranks⟩ := h
    cases ranks with
    | one keep => cases keep <;> exact Nat.succ_pos _
    | amount keep value => cases keep <;> exact Nat.lt_succ_self _
    | condition value => exact Nat.lt_succ_self _
    | _ => exact Nat.succ_pos _

end Layer

/-- A run that ends with this fault, or leaves a roll where these faces count, in some order, and
    comes to their sum. -/
inductive LeavesFaces : Except Fault (Multiset Int) → EStateM.Result Fault Focus Value → Prop where
  | ok {after : Focus} {roll : Node} {faces : Multiset Int} (stands : StandsOn roll after.node)
      (thrown : roll.IsThrown) (counted : (Dice.liveFaces roll.children : Multiset Int) = faces) :
      LeavesFaces (.ok faces) (.ok (.int faces.sum) after)
  | error {e : Fault} {after : Focus} : LeavesFaces (.error e) (.error e after)

section

variable {rules : Rules} {levels : Nat} {attributes : OrderedMap Value} {operand roll : Node}
  {argument dice : List Node} {record : Record} {rolled after : Focus} {m : Modifier}
  {trace : Trace} {value : Value}

/-- What a modifier leaves of a roll that was thrown. -/
private theorem Altered.leavesFaces
    (altered : Altered m attributes rolled.node roll argument dice trace value after)
    (stands : StandsOn roll rolled.node) (thrown : roll.IsThrown)
    (shape : ∀ die ∈ dice, die.IsDiceRoll) :
    LeavesFaces (.ok (Dice.liveFaces dice)) (.ok value after) := by
  have there : StandsOn (roll.renewed dice) after.node := by
    rw [altered.node]
    exact .modifier (stands.replace stands.kind)
  have sum : value = .int (Dice.liveFaces dice : Multiset Int).sum := by
    rw [altered.value, Multiset.sum_coe]
    rfl
  rw [sum]
  exact .ok there (thrown.renewed shape) rfl

/-- Keeping and dropping leave what the ranking says, or fail where the number of dice cannot be
    rounded. -/
private theorem select_leaves (keep : Bool) {highest : Bool}
    (pending : Pending rules levels attributes operand record rolled roll) (thrown : roll.IsThrown)
    {k : Int} (counts : Counts argument k)
    (rank : Node.hasText ⟨.modifier (if keep then .keep else .drop), attributes, []⟩ "type"
      "highest" = highest) :
    let ranked := Roll.ranking highest (Dice.liveFaces roll.children)
    LeavesFaces (.ok (if keep then ranked.take k.toNat else ranked.drop k.toNat : List Int))
      (evaluateWithin rules (levels + 1)
        ⟨⟨.modifier (if keep then .keep else .drop), attributes, operand :: argument⟩,
          record⟩) := by
  intro ranked
  obtain ⟨value, after, run, altered⟩ := select_altered keep pending counts
  have same : Node.hasText ⟨.modifier (if keep then .keep else .drop), attributes,
      operand :: argument⟩ "type" "highest" = highest := rank
  rw [same] at altered
  have counted := Dice.liveFaces_select keep highest k pending.faces
  have leaves := altered.leavesFaces pending.stands thrown
    (kept_isDiceRoll.select keep highest k thrown.dice)
  rw [Multiset.coe_eq_coe.mpr counted] at leaves
  rw [run]
  exact leaves

/-- The number of dice to select cannot be rounded. -/
private theorem refuses_amount {evaluate : EvalM Value} {β : Type} {node : Node} {n : Number}
    {reason : NumberError} (remembers : Remembers evaluate)
    (value : node.value? = some (.number n)) (fails : n.roundHalfUp = .error reason)
    (next : Int → EvalM β) :
    Refuses (.outOfRange reason) ⟨.modifier m, attributes, [operand, node]⟩
      (do
        if (← EvalM.childCount) < 2 then pure 1 >>= next
        else EvalM.onChild 1 (EvalM.rounded evaluate) >>= next) := by
  apply Refuses.childCount_bind
  rw [if_neg (by simp [Node.childCount])]
  exact ((refuses_rounded (remembers.yields value) fails).onChild rfl).bind

/-- An amount that cannot be rounded ends the evaluation. -/
private theorem select_refused (keep : Bool)
    (pending : Pending rules levels attributes operand record rolled roll) {node : Node}
    {n : Number} (value : node.value? = some (.number n)) {reason : NumberError}
    (fails : n.roundHalfUp = .error reason) :
    ∃ after, evaluateWithin rules (levels + 1)
      ⟨⟨.modifier (if keep then .keep else .drop), attributes, [operand, node]⟩, record⟩ =
        .error (.outOfRange reason) after :=
  pending.run_refused ((modifier_select rules _ keep).trans rfl) (by simp : [node].length < 2)
    (refuses_amount pending.remembers value fails _)

/-- Marking leaves all faces. -/
private theorem critical_leaves
    (pending : Pending rules levels attributes operand record rolled roll) (thrown : roll.IsThrown)
    (compares : ∀ default, ∃ c, Compares default argument c) :
    LeavesFaces (.ok (Dice.liveFaces roll.children)) (evaluateWithin rules (levels + 1)
      ⟨⟨.modifier .critical, attributes, operand :: argument⟩, record⟩) := by
  obtain ⟨sides, hsides⟩ := thrown.sides
  obtain ⟨c, known⟩ := compares _
  obtain ⟨value, after, run, altered⟩ :=
    critical_altered pending hsides (faces_shownSides sides) known
  have leaves := altered.leavesFaces pending.stands thrown
    (kept_isDiceRoll.markCritical _ _ thrown.dice)
  rw [Dice.liveFaces_markCritical] at leaves
  rw [run]
  exact leaves

/-- Where a layer that ranks dice stands on an operand that leaves some faces, it leaves those that
    are computed from them. -/
private theorem leaves_layer {layer : Layer} {faces : Except Fault (Multiset Int)}
    (ranks : layer.RanksDice)
    (h : LeavesFaces faces (evaluateWithin rules levels ⟨operand, record⟩)) :
    LeavesFaces (faces >>= layer.leaves)
      (evaluateWithin rules (levels + 1) ⟨layer.on operand, record⟩) := by
  generalize run : evaluateWithin rules levels ⟨operand, record⟩ = result at h
  cases h with
  -- A failed evaluation of the operand is the failure of the modifier.
  | error =>
    rw [run_layer_error ranks.fresh run]
    exact .error
  | @ok rolled roll _ stands thrown counted =>
    subst counted
    have pending : Pending rules levels layer.attributes operand record rolled roll :=
      ⟨ranks.new, ⟨_, run⟩, stands, thrown.faces⟩
    obtain ⟨m, attributes, argument⟩ := layer
    obtain ⟨-, ranks⟩ := ranks
    cases ranks with
    | one keep =>
      show LeavesFaces (Layer.leaves _ _) _
      rw [Layer.leaves_select keep rfl]
      exact select_leaves keep pending thrown .one rfl
    | @amount keep node n value =>
      show LeavesFaces (Layer.leaves _ _) _
      rw [Layer.leaves_select keep rfl, Layer.amount_given value]
      -- The amount is the same for the modifier and for the account of it, and so is its failure.
      cases rounded : n.roundHalfUp with
      | ok k => exact select_leaves keep pending thrown (.given value rounded) rfl
      | error reason =>
        obtain ⟨after, failed⟩ := select_refused keep pending value rounded
        show LeavesFaces _
          (evaluateWithin _ _ ⟨⟨.modifier (if keep then .keep else .drop), _, _⟩, _⟩)
        rw [failed]
        exact .error
    | face => exact critical_leaves pending thrown fun _ => ⟨_, .default⟩
    | condition value => exact critical_leaves pending thrown fun _ => ⟨_, .given value⟩
    -- Putting dice in order changes no face, and leaves no face out.
    | sort =>
      obtain ⟨value, after, run, altered⟩ := sort_altered pending
      have leaves := altered.leavesFaces stands thrown (Kept.sort _ thrown.dice)
      rw [Multiset.coe_eq_coe.mpr (Dice.liveFaces_order _ thrown.faces)] at leaves
      show LeavesFaces _ (evaluateWithin rules (levels + 1) ⟨⟨.modifier .sort, _, _⟩, _⟩)
      rw [run]
      exact leaves

/-- What counts after a chain is computed from what counts before it, layer by layer. -/
theorem leaves_chain {layers : List Layer} {faces : Except Fault (Multiset Int)}
    (ranks : ∀ layer ∈ layers, layer.RanksDice)
    (h : LeavesFaces faces (evaluateWithin rules levels ⟨operand, record⟩)) :
    LeavesFaces (Layer.leavesAll layers faces)
      (evaluateWithin rules (levels + layers.length) ⟨operand.under layers, record⟩) := by
  induction layers with
  | nil => exact h
  | cons layer layers ih =>
    obtain ⟨here, inside⟩ := List.forall_mem_cons.mp ranks
    exact leaves_layer here (ih inside)

end

end DiceNotation
