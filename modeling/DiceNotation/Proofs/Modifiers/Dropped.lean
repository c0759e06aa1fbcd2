import DiceNotation.Proofs.Modifiers.LiveFaces
import DiceNotation.Proofs.Modifiers.Treating
import DiceNotation.Proofs.Range.Written
import DiceNotation.Proofs.Trees.Consistency

/-! # Dropped dice stay dropped

The dice of a roll are followed through a chain of modifiers, layer by layer (`LeavesDice`).  A die
that is dropped at some point stays in the roll as it is, whatever modifiers follow: none of them
gives it another face, takes its mark away, rolls it again or lets it explode, and it counts in no
sum.  A success test over the chain passes it over.

* `leavesDice_layer`   one more modifier, by `treatsRoll`
* `leavesDice_roll`    the dice that are rolled
* `dropped_stay`       chains over dice, cut in two anywhere -/

namespace DiceNotation

open DiceNotation.EvalM (evaluateWithin)
open Node (StandsOn)

/-! ## Chains -/

/-- Modifiers over a roll, the last one first, leave what they made of these dice, and come to the
    sum of those that count.  Where one of them fails, those behind it leave no trace.  In any case
    what was dropped before is as it was. -/
inductive LeavesDice (ms : List Modifier) (dice : List Node) :
    EStateM.Result Fault Focus Value → Prop where
  | ok {after : Focus} {roll : Node} (stands : StandsOn roll after.node)
      (faces : ∀ die ∈ roll.children, die.IsDie)
      (value : roll.value? = some (.int (Dice.liveFaces roll.children).sum))
      (changed : Dice.ChangedBy ms dice roll.children)
      (frozen : Dice.Frozen dice roll.children) :
      LeavesDice ms dice (.ok (.int (Dice.liveFaces roll.children).sum) after)
  | error {e : Fault} {after : Focus} {roll : Node} {done : List Modifier}
      (stands : StandsOn roll after.node) (suffix : done <:+ ms)
      (changed : Dice.ChangedBy done dice roll.children)
      (frozen : Dice.Frozen dice roll.children) : LeavesDice ms dice (.error e after)

section

variable {rules : Rules} {levels : Nat} {operand : Node} {dice : List Node} {layer : Layer}
  {layers : List Layer} {ms : List Modifier} {record : Record} {after : Focus} {value : Value}

/-- A node that gets its own children is the same. -/
private theorem Node.withChildren_self (node : Node) : node.withChildren node.children = node := by
  cases node
  rfl

/-- A modifier leaves the dice of its operand with its own change made, or as they were. -/
theorem leavesDice_layer (fresh : layer.Fresh)
    (h : LeavesDice ms dice (evaluateWithin rules levels ⟨operand, record⟩)) :
    LeavesDice (layer.modifier :: ms) dice
      (evaluateWithin rules (levels + 1) ⟨layer.on operand, record⟩) := by
  generalize run : evaluateWithin rules levels ⟨operand, record⟩ = result at h
  -- The operand has failed, so the dice below it stay as they are, or it has left a roll to treat.
  cases h with
  | error stands suffix changed frozen =>
    rw [run_layer_error fresh run]
    exact .error (.modifier stands) (suffix.trans (List.suffix_cons _ _)) changed frozen
  | @ok rolled roll stands faces value changed frozen =>
    obtain ⟨next, begins, treats⟩ := treatsRoll rules (evaluateWithin rules levels) layer.modifier
    have treated := treats layer.attributes rolled.node roll stands faces layer.argument
      rolled.record
    -- Before anything is done, the roll has the dice that it has.
    rw [Node.withChildren_self, stands.replace_self,
      ← run_modifier begins fresh.few run stands] at treated
    unfold Layer.on
    rw [run_new_modifier fresh.new]
    generalize computed : EvalM.modifier rules _ layer.modifier _ = result at treated
    -- Whether the modifier ends well or not, what it did to the dice is a further change.
    cases treated with
    | @ok dice' argument record changed' faces' =>
      rw [EvalM.bind_of_ok computed]
      have changed := changed.cons changed'
      have there : StandsOn (roll.renewed dice') (Node.store ⟨.modifier layer.modifier,
          layer.attributes, rolled.node.replaceDice (roll.renewed dice') :: argument⟩
          (.int (Dice.total dice'))) := .modifier (stands.replace stands.kind)
      have value : (roll.renewed dice').value? = some (.int (Dice.total dice')) :=
        Node.value?_store _ _
      have leaves : LeavesDice (layer.modifier :: ms) dice (.ok _ ⟨_, record⟩) :=
        .ok there faces' value changed changed.frozen
      exact leaves
    | error changed' =>
      rw [EvalM.bind_of_error computed]
      have changed := changed.cons changed'
      exact .error (.modifier (stands.replace stands.kind)) (List.suffix_refl _) changed
        changed.frozen

/-- A chain of modifiers leaves the dice with the changes of a part of it made. -/
theorem leavesDice_chain (fresh : ∀ layer ∈ layers, layer.Fresh)
    (h : LeavesDice ms dice (evaluateWithin rules levels ⟨operand, record⟩)) :
    LeavesDice (layers.map Layer.modifier ++ ms) dice
      (evaluateWithin rules (levels + layers.length) ⟨operand.under layers, record⟩) := by
  induction layers with
  | nil => exact h
  | cons layer layers ih =>
    obtain ⟨here, inside⟩ := List.forall_mem_cons.mp fresh
    exact leavesDice_layer here (ih inside)

/-- Where a chain comes to a result, so does what it stands on. -/
theorem exists_run_of_chain (fresh : ∀ layer ∈ layers, layer.Fresh)
    (run : evaluateWithin rules (levels + layers.length) ⟨operand.under layers, record⟩ =
      .ok value after) :
    ∃ value after, evaluateWithin rules levels ⟨operand, record⟩ = .ok value after := by
  induction layers generalizing value after with
  | nil => exact ⟨value, after, run⟩
  | cons layer layers ih =>
    obtain ⟨here, inside⟩ := List.forall_mem_cons.mp fresh
    cases below : evaluateWithin rules (levels + layers.length) ⟨operand.under layers, record⟩ with
    | ok value after => exact ih inside below
    | error e after =>
      have failed := run_layer_error here below
      rw [Node.under_cons, List.length_cons, ← Nat.add_assoc, failed] at run
      cases run

end

/-! ## Rolls -/

namespace Maintains

variable {P : Node → Prop}

/-- The check of the children changes nothing. -/
private theorem requireChildren (needed : Nat) : Maintains P (EvalM.requireChildren needed) := by
  refine node.bind fun node => ?_
  split
  · exact throw _
  · exact pure _

/-- The check of an amount changes nothing. -/
private theorem within (bounds : Bounds) (amount : Int) : Maintains P
    (EvalM.within bounds amount) := by
  unfold EvalM.within
  split
  · exact (report _).bind fun _ => pure false
  · split
    · exact pure true
    · split
      · exact (note _).bind fun _ => (report _).bind fun _ => pure false
      · exact pure true

/-- Reading the sides changes nothing. -/
private theorem rollSides : Maintains P EvalM.rollSides := by
  -- Nothing is changed on any of the branches.
  refine node.bind fun node => ?_
  split
  · exact throw _
  · split
    · split
      · exact pure _
      · refine bind ?_ fun _ => pure _
        unfold EvalM.rounded EvalM.number
        refine bind (bind (pure _) fun value => ?_) fun n => ofNumber _
        split
        · exact pure _
        · exact throw _
    · exact throw _

end Maintains

/-- The node is of this kind and has these attributes, whatever its children are. -/
def Shaped (kind : NodeKind) (attributes : OrderedMap Value) (node : Node) : Prop :=
  ∃ children, node = ⟨kind, attributes, children⟩

section

variable {rules : Rules} {levels : Nat} {evaluate : EvalM Value} {attributes : OrderedMap Value}
  {children : List Node} {record : Record} {after : Focus} {value : Value}

/-- What is done with a child leaves the kind and the attributes alone. -/
private theorem maintains_onChild {α : Type} {kind : NodeKind} (i : Nat) (step : EvalM α) :
    Maintains (Shaped kind attributes) (EvalM.onChild i step) := by
  rintro ⟨_, record⟩ ⟨children, rfl⟩
  unfold EvalM.onChild
  split
  · exact .error ⟨children, rfl⟩
  · split
    · exact .ok ⟨_, rfl⟩
    · exact .error ⟨_, rfl⟩

/-- A fresh die of a roll. -/
def Node.IsFreshDie (die : Node) : Prop := ∃ sides face, die = Dice.die sides face

/-- What is thrown are fresh dice, or none. -/
private theorem exists_fresh_of_throwDice {ok : Bool} {times : Int} {shown : Option Int}
    (run : EvalM.throwDice rules ok times shown ⟨.thrown attributes times shown [], record⟩ =
      .ok value after) :
    ∃ dice, value = .int (Dice.total dice) ∧ after.node = .thrown attributes times shown dice ∧
      ∀ die ∈ dice, die.IsFreshDie := by
  obtain ⟨limits, functions, source⟩ := rules
  obtain ⟨_, _, ran, dice, threw, rfl, node⟩ := (ensures_throwDice ok times shown).result
  rw [run] at ran
  cases ran
  refine ⟨dice, rfl, node, ?_⟩
  obtain rfl : _ = dice := congrArg Prod.fst threw
  -- Only when the throw is allowed are there dice, and these carry no marks.
  cases ok with
  | true =>
    intro die hdie
    obtain ⟨k, -, rfl⟩ := List.mem_map.mp hdie
    exact ⟨_, _, rfl⟩
  | false => exact nofun

/-- A roll that comes to a result has thrown its dice before, or found them forbidden. -/
private theorem exists_throw_of_roll
    (run : EvalM.roll rules evaluate ⟨⟨.dice, attributes, children⟩, record⟩ = .ok value after) :
    ∃ (record' : Record) (ok : Bool) (times : Int) (shown : Option Int),
      EvalM.throwDice rules ok times shown ⟨.thrown attributes times shown [], record'⟩ =
        .ok value after := by
  unfold EvalM.roll at run
  obtain ⟨_, s₁, checked, run⟩ := EvalM.exists_of_bind run
  obtain ⟨times, s₂, counted, run⟩ := EvalM.exists_of_bind run
  obtain ⟨shown, s₃, read, run⟩ := EvalM.exists_of_bind run
  -- So far only the number of dice may have been changed, in its evaluation.
  have isRoll : Shaped .dice attributes s₃.node := by
    have here : Shaped .dice attributes s₁.node :=
      (Maintains.requireChildren 2).of_ok ⟨children, rfl⟩ checked
    have there := (maintains_onChild 0 (EvalM.rounded evaluate)).of_ok here counted
    exact Maintains.rollSides.of_ok there read
  obtain ⟨_, set, ⟨⟩, run⟩ := EvalM.exists_of_bind run
  have thrown : Node.set (Node.set (s₃.node.withChildren []) "count" (.int times)) "sides"
      (shownSides shown) = .thrown attributes times shown [] := by
    obtain ⟨children, same⟩ := isRoll
    rw [same]
    rfl
  obtain ⟨countAllowed, ⟨_, record₄⟩, countChecked, run⟩ := EvalM.exists_of_bind run
  obtain rfl := Maintains.of_ok (P := fun node => node = .thrown attributes times shown [])
    (Maintains.within rules.limits.onCount times) thrown countChecked
  -- The sides are checked if there is a number of them.
  cases shown with
  | none => exact ⟨record₄, countAllowed && true, times, none, run⟩
  | some s =>
    obtain ⟨sidesAllowed, ⟨_, record₅⟩, sidesChecked, run⟩ := EvalM.exists_of_bind run
    obtain rfl := Maintains.of_ok (P := fun node => node = .thrown attributes times (some s) [])
      (Maintains.within rules.limits.onSides s) rfl sidesChecked
    exact ⟨record₅, countAllowed && sidesAllowed, times, some s, run⟩

/-- What a roll leaves that was not evaluated. -/
theorem leavesDice_roll (new : attributes.get? "value" = none)
    (run : evaluateWithin rules levels ⟨⟨.dice, attributes, children⟩, record⟩ = .ok value after) :
    ∃ dice, (∀ die ∈ dice, die.IsFreshDie) ∧
      LeavesDice [] dice (evaluateWithin rules levels ⟨⟨.dice, attributes, children⟩, record⟩) := by
  cases levels with
  | zero => cases run
  | succ levels =>
    rw [run_new_roll new] at run ⊢
    obtain ⟨_, ⟨_, record'⟩, rolled, _⟩ := EvalM.exists_of_bind run
    obtain ⟨_, ok, times, shown, thrown⟩ := exists_throw_of_roll rolled
    obtain ⟨dice, rfl, rfl, fresh⟩ := exists_fresh_of_throwDice thrown
    rw [EvalM.bind_of_ok rolled]
    -- A roll stands on itself, with the dice that were thrown.
    have there : StandsOn ((Node.thrown attributes times shown dice).store
        (.int (Dice.total dice))) _ := .roll rfl
    have faces : ∀ die ∈ dice, die.IsDie := by
      intro die hdie
      obtain ⟨sides, face, rfl⟩ := fresh die hdie
      exact isDie_die sides face
    have leaves : LeavesDice [] dice (.ok _ ⟨_, record'⟩) :=
      .ok there faces (Node.value?_store _ _) (.nil dice) (Dice.frozen_refl dice)
    exact ⟨dice, fresh, leaves⟩

end

/-! ## Success tests -/

section

variable {rules : Rules} {levels : Nat} {evaluate : EvalM Value} {attributes : OrderedMap Value}
  {operand : Node} {children dice : List Node} {ms : List Modifier} {record : Record}
  {before : Focus} {value : Value}

/-- What was dropped of these dice is there in the roll that the first child leads to, and no
    dropped die of it has a mark of success. -/
def Node.SparesDropped (dice : List Node) (node : Node) : Prop :=
  ∃ left rest roll, node.children = left :: rest ∧ StandsOn roll left ∧
    Dice.Frozen dice roll.children ∧
    ∀ die ∈ roll.children, die.isDropped = true → die.get? "success" = none

/-- What was dropped of these dice is there in the roll that the node leads to, and no die of it has
    a mark of success. -/
def Node.Untested (dice : List Node) (node : Node) : Prop :=
  ∃ roll, StandsOn roll node ∧ Dice.Frozen dice roll.children ∧
    ∀ die ∈ roll.children, die.get? "success" = none

/-- Where nothing is tested, nothing dropped is tested. -/
private theorem Node.Untested.sparesDropped (h : operand.Untested dice) {kind : NodeKind}
    {rest : List Node} : Node.SparesDropped dice ⟨kind, attributes, operand :: rest⟩ := by
  obtain ⟨roll, stands, frozen, unmarked⟩ := h
  exact ⟨operand, rest, roll, rfl, stands, frozen, fun die hdie _ => unmarked die hdie⟩

/-- To mark the live dice of a roll leaves the dropped ones as they were. -/
private theorem frozen_markLive (c : Condition) (roll : Node) :
    Dice.Frozen roll.children (roll.markLive c).children := by
  have same : (roll.markLive c).children.filter Node.isDropped =
      roll.children.filter Node.isDropped := by
    show (roll.children.map fun die => if die.isDropped then die else c.mark die).filter _ = _
    induction roll.children with
    | nil => rfl
    | cons die dice ih =>
      by_cases dropped : die.isDropped
      · simp [dropped, ih]
      · simp [dropped, ih]
  unfold Dice.Frozen
  rw [same]

/-- Only dice that count are marked. -/
private theorem Node.Untested.mark (h : operand.Untested dice) (c : Condition) {kind : NodeKind}
    {rest : List Node} :
    Node.SparesDropped dice ⟨kind, attributes, operand.mapTargets c.mark :: rest⟩ := by
  obtain ⟨roll, stands, frozen, unmarked⟩ := h
  rw [Node.mapTargets_of_standsOn stands]
  refine ⟨_, rest, roll.markLive c, rfl, stands.replace stands.kind,
    frozen.trans (frozen_markLive c roll), ?_⟩
  intro die hdie dropped
  obtain ⟨old, hold, rfl⟩ := List.mem_map.mp hdie
  by_cases before : old.isDropped = true
  · rw [if_pos before]
    exact unmarked old hold
  · rw [if_neg before, Node.isDropped_mark] at dropped
    exact absurd dropped before

/-- The node is a comparison with this left side, whatever its threshold is. -/
def IsTestOf (op : Comparison) (attributes : OrderedMap Value) (left node : Node) : Prop :=
  ∃ limit, node = ⟨.comparison op, attributes, [left, limit]⟩

/-- Evaluating the right side of a comparison leaves the left one as it is. -/
private theorem maintains_condition {op : Comparison} {left : Node} :
    Maintains (IsTestOf op attributes left) (EvalM.condition evaluate) := by
  rintro ⟨_, record⟩ ⟨limit, rfl⟩
  show Ends _ ((do return ⟨op, ← EvalM.onChild 1 evaluate⟩ : EvalM Condition) ⟨_, record⟩)
  cases run : evaluate ⟨limit, record⟩ with
  | ok value after =>
    rw [EvalM.bind_of_ok (EvalM.onChild_of_ok rfl run)]
    exact .ok ⟨after.node, rfl⟩
  | error e after =>
    rw [EvalM.bind_of_error (EvalM.onChild_of_error rfl run)]
    exact .error ⟨after.node, rfl⟩

/-- Nothing is marked before the threshold is known and all targets can be compared with it. -/
private theorem Node.Untested.compared (untested : operand.Untested dice) {op : Comparison}
    (limit : Node) (targets : List Node) (count : Condition → Value) :
    Ends (Node.SparesDropped dice) ((do
      let c ← EvalM.condition evaluate
      EvalM.requireTestable c targets
      EvalM.onChild 0 (EvalM.modifyNode (Node.mapTargets c.mark))
      return count c : EvalM Value)
        ⟨⟨.comparison op, attributes, [operand, limit]⟩, record⟩) := by
  -- Up to the marking nothing is tested, so a failure on the way spares the dropped dice.
  have spared {left : Node} (h : IsTestOf op attributes operand left) :
      Node.SparesDropped dice left := by
    obtain ⟨limit', rfl⟩ := h
    exact untested.sparesDropped
  refine .bind (fun c read known => ?_)
    fun e read failed => spared (maintains_condition.of_error ⟨limit, rfl⟩ failed)
  have isTest : IsTestOf op attributes operand read.node :=
    maintains_condition.of_ok ⟨limit, rfl⟩ known
  refine .bind (fun _ tested allowed => ?_)
    fun e tested failed => spared ((Maintains.requireTestable c targets).of_error isTest failed)
  obtain ⟨limit', same⟩ := (Maintains.requireTestable c targets).of_ok isTest allowed
  obtain ⟨_, record'⟩ := tested
  obtain rfl := same
  exact .ok (untested.mark c)

/-- A success test over a roll without marks of success puts none on dropped dice. -/
private theorem sparesDropped_comparison {op : Comparison} {limit : Node}
    (left : Ends (Node.Untested dice) (evaluate ⟨operand, record⟩)) :
    Ends (Node.SparesDropped dice)
      (EvalM.comparison evaluate ⟨⟨.comparison op, attributes, [operand, limit]⟩, record⟩) := by
  have two : Node.childCount ⟨.comparison op, attributes, [operand, limit]⟩ = 2 := rfl
  have counted : EvalM.childCount ⟨⟨.comparison op, attributes, [operand, limit]⟩, record⟩ =
      .ok 2 ⟨⟨.comparison op, attributes, [operand, limit]⟩, record⟩ := rfl
  unfold EvalM.comparison
  rw [EvalM.bind_of_ok counted, if_neg (by decide : ¬2 = 1),
    EvalM.bind_of_ok (EvalM.run_requireChildren two record)]
  generalize run : evaluate ⟨operand, record⟩ = result at left
  cases left with
  | error untested =>
    rw [EvalM.bind_of_error (EvalM.onChild_of_error rfl run)]
    exact .error untested.sparesDropped
  | @ok _ after untested =>
    -- The targets are looked up in the evaluated operand, which stands on a roll and so has some.
    have looked : EvalM.onChild 0 EvalM.node
        ⟨⟨.comparison op, attributes, [after.node, limit]⟩, after.record⟩ =
          .ok after.node ⟨⟨.comparison op, attributes, [after.node, limit]⟩, after.record⟩ := rfl
    have targets : ∃ targets, after.node.targets? = some targets := by
      obtain ⟨roll, stands, -⟩ := untested
      exact ⟨_, Node.targets?_of_standsOn stands⟩
    obtain ⟨targets, known⟩ := targets
    rw [EvalM.bind_of_ok (EvalM.onChild_of_ok rfl run)]
    change Ends _ ((EvalM.onChild 0 EvalM.node >>= _)
      ⟨⟨.comparison op, attributes, [after.node, limit]⟩, after.record⟩)
    rw [EvalM.bind_of_ok looked, known]
    -- With targets the dice that count are marked, and the dropped ones are spared.
    cases targets with
    | nil => exact .ok untested.sparesDropped
    | cons target targets => exact untested.compared limit _ _

/-- The value of a node is stored. -/
private theorem maintains_store (value : Value) : Maintains (Node.SparesDropped dice) (do
    EvalM.setAttribute "value" value.normalize
    return value.normalize) := by
  rintro ⟨node, record⟩ ⟨left, rest, roll, children, spared⟩
  exact .ok ⟨left, rest, roll, children, spared⟩

/-- Modifiers mark no success, so that the dice that they leave are untested. -/
private theorem LeavesDice.untested {result : EStateM.Result Fault Focus Value}
    (h : LeavesDice ms dice result) (unmarked : ∀ die ∈ dice, die.get? "success" = none) :
    Ends (Node.Untested dice) result := by
  cases h with
  | ok stands _ _ changed frozen => exact .ok ⟨_, stands, frozen, changed.unmarked unmarked⟩
  | error stands _ changed frozen => exact .error ⟨_, stands, frozen, changed.unmarked unmarked⟩

/-- A chain of modifiers over dice, of which the first ones, `earlier`, come to a result.  The dice
    that are dropped by then are left as they are by the others, except for critical marks.  Each of
    the others keeps all dice, writes nothing but its own attributes, and adds at most extra dice of
    dice that count.  All values are sums of the dice that count, and a comparison with the chain on
    its left side puts no mark of success on a dropped die. -/
theorem dropped_stay {earlier later : List Layer} (new : attributes.get? "value" = none)
    (fresh : ∀ layer ∈ later ++ earlier, layer.Fresh)
    (run : evaluateWithin rules (levels + earlier.length)
      ⟨Node.under ⟨.dice, attributes, children⟩ earlier, record⟩ = .ok value before) :
    let chain := Node.under ⟨.dice, attributes, children⟩ (later ++ earlier)
    let depth := levels + earlier.length + later.length
    ∃ roll, StandsOn roll before.node ∧ value = .int (Dice.liveFaces roll.children).sum ∧
      LeavesDice (later.map Layer.modifier) roll.children
        (evaluateWithin rules depth ⟨chain, record⟩) ∧
      ∀ (op : Comparison) (attributes : OrderedMap Value) (limit : Node),
        attributes.get? "value" = none → Ends (Node.SparesDropped roll.children)
          (evaluateWithin rules (depth + 1)
            ⟨⟨.comparison op, attributes, [chain, limit]⟩, record⟩) := by
  intro chain depth
  have freshEarlier : ∀ layer ∈ earlier, layer.Fresh :=
    fun layer inside => fresh layer (List.mem_append_right _ inside)
  have freshLater : ∀ layer ∈ later, layer.Fresh :=
    fun layer inside => fresh layer (List.mem_append_left _ inside)
  -- The dice are rolled, and the first part of the chain leaves some of them dropped.
  obtain ⟨_, _, rolled⟩ := exists_run_of_chain freshEarlier run
  obtain ⟨dice, isFresh, rolls⟩ := leavesDice_roll new rolled
  have first := leavesDice_chain freshEarlier rolls
  rw [run] at first
  cases first with
  | @ok _ roll stands faces value changed frozen =>
  -- From there the dice are followed anew.
  have start : LeavesDice [] roll.children (evaluateWithin rules (levels + earlier.length)
      ⟨Node.under ⟨.dice, attributes, children⟩ earlier, record⟩) := by
    rw [run]
    exact .ok stands faces value (.nil _) (Dice.frozen_refl _)
  have leaves := leavesDice_chain freshLater start
  rw [← Node.under_append, List.append_nil] at leaves
  refine ⟨roll, stands, rfl, leaves, ?_⟩
  intro op own limit unevaluated
  have unmarked : ∀ die ∈ roll.children, die.get? "success" = none := by
    apply changed.unmarked
    intro die hdie
    obtain ⟨sides, face, rfl⟩ := isFresh die hdie
    rfl
  have empty : Node.value? ⟨.comparison op, own, [chain, limit]⟩ = none := unevaluated
  have compared : Ends (Node.SparesDropped roll.children)
      (EvalM.compute rules (evaluateWithin rules depth)
        ⟨⟨.comparison op, own, [chain, limit]⟩, record⟩) :=
    sparesDropped_comparison (leaves.untested unmarked)
  rw [run_new empty]
  exact .bind (fun value after run => maintains_store value after (compared.of_ok run))
    fun _ _ => compared.of_error

/-- Three dice of which the lowest one is dropped, and all other modifiers behind this. -/
theorem dropped_stay_lowest :
    let rules : Rules :=
      ⟨⟨some 10, some 20, 5⟩, .default, fun request _ => [1, 6, 3].getD request 4⟩
    let dice : Node := ⟨.dice, .empty, [.integer 3, .diceSides (.int 6)]⟩
    let layer (m : Modifier) : Layer := ⟨m, .ofList [("type", "lowest")], []⟩
    let later := [.sort, .reroll, .explode, .critical, .keep].map layer
    let chain := dice.under (later ++ [layer .drop])
    ∃ value before roll,
      evaluateWithin rules 3 ⟨dice.under [layer .drop], {}⟩ = .ok value before ∧
      StandsOn roll before.node ∧ value = .int (Dice.liveFaces roll.children).sum ∧
      LeavesDice [.sort, .reroll, .explode, .critical, .keep] roll.children
        (evaluateWithin rules 8 ⟨chain, {}⟩) ∧
      Ends (Node.SparesDropped roll.children)
        (evaluateWithin rules 9 ⟨⟨.comparison .greater, .empty, [chain, .integer 3]⟩, {}⟩) := by
  intro rules dice layer later chain
  have three : (Number.int 3).roundHalfUp = .ok 3 := by decide +kernel
  have six : (Number.int 6).roundHalfUp = .ok 6 := by decide +kernel
  have admitted : Limits.Admits ⟨some 10, some 20, 5⟩ 3 6 := by decide
  have throws : Throws rules 2 .empty (.integer 3) (.diceSides (.int 6)) {} 3 6 :=
    throws_rounded rfl rfl rfl three six admitted
  obtain ⟨_, rolled, thrown, -⟩ := throws
  -- The lowest die is dropped.
  obtain ⟨_, -, leaves⟩ := leavesDice_roll rfl thrown
  rw [thrown] at leaves
  cases leaves with
  | ok stands faces =>
  have pending : Pending rules 2 (layer .drop).attributes dice {} rolled _ :=
    ⟨rfl, ⟨_, thrown⟩, stands, faces⟩
  obtain ⟨value, before, run, -⟩ := select_altered false pending .one
  have run : evaluateWithin rules (2 + [layer .drop].length) ⟨dice.under [layer .drop], {}⟩ =
      .ok value before := run
  -- Every later modifier is applied to the chain below it for the first time.
  have fresh : ∀ given ∈ later ++ [layer .drop], given.Fresh := by
    intro _ inside
    simp only [later, List.map_cons, List.map_nil, List.cons_append, List.nil_append,
      List.mem_cons, List.not_mem_nil, or_false] at inside
    rcases inside with rfl | rfl | rfl | rfl | rfl | rfl <;> exact ⟨rfl, by decide⟩
  obtain ⟨roll, there, sum, inert, tested⟩ := dropped_stay rfl fresh run
  exact ⟨value, before, roll, run, there, sum, inert, tested .greater .empty (.integer 3) rfl⟩

end

end DiceNotation
