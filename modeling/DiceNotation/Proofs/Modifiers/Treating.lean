import DiceNotation.Proofs.Modifiers.Changes
import DiceNotation.Proofs.Modifiers.Layers
import DiceNotation.Proofs.Modifiers.Selecting

/-! # What modifiers do to a roll

A modifier looks at its argument and at the roll, puts other dice into the roll, and sums them up.
It may fail before that or after.  Whatever its argument is and whatever comes of its evaluation,
the dice that it leaves are what it may have made of those it found (`Dice.Changed`).

Two rules carry this.  A step that leaves the operand alone `Maintains` that the node is a modifier
on this operand, also where it fails.  A step that goes on when certain dice stand in the roll, and
ends as it should, `Treats` the roll.

* `Treats.bind`   a step that leaves the operand alone comes first
* `treatsRoll`    every modifier treats the roll that it finds -/

namespace DiceNotation

open Node (StandsOn)

/-! ## Steps that keep a property of the node -/

/-- Whatever a run comes to, the node that it leaves has the property. -/
inductive Ends {α : Type} (P : Node → Prop) : EStateM.Result Fault Focus α → Prop where
  | ok {a : α} {after : Focus} (h : P after.node) : Ends P (.ok a after)
  | error {e : Fault} {after : Focus} (h : P after.node) : Ends P (.error e after)

namespace Ends

variable {α β : Type} {P : Node → Prop} {step : EvalM α} {next : α → EvalM β}
  {before after : Focus}

/-- What a run that succeeds leaves. -/
theorem of_ok {a : α} (h : Ends P (step before)) (run : step before = .ok a after) :
    P after.node := by
  rw [run] at h
  cases h with
  | ok holds => exact holds

/-- What a run that fails leaves. -/
theorem of_error {e : Fault} (h : Ends P (step before)) (run : step before = .error e after) :
    P after.node := by
  rw [run] at h
  cases h with
  | error holds => exact holds

/-- Two runs one behind the other, either of which may fail. -/
theorem bind (hok : ∀ a after, step before = .ok a after → Ends P (next a after))
    (herror : ∀ e after, step before = .error e after → P after.node) :
    Ends P ((step >>= next) before) := by
  cases run : step before with
  -- The step may change the argument and the record, but not the roll that is treated.
  | ok a after =>
    rw [EvalM.bind_of_ok run]
    exact hok a after run
  | error e after =>
    rw [EvalM.bind_of_error run]
    exact .error (herror e after run)

end Ends

/-- The step keeps the property of the node in focus, also where it fails. -/
def Maintains {α : Type} (P : Node → Prop) (step : EvalM α) : Prop :=
  ∀ focus : Focus, P focus.node → Ends P (step focus)

namespace Maintains

variable {α β : Type} {P : Node → Prop} {step : EvalM α} {before after : Focus}

/-- Giving a value leaves the node as it is. -/
theorem pure (a : α) : Maintains P (Pure.pure a) := fun _ holds => .ok holds

/-- A fault leaves the node as it is. -/
theorem throw (e : Fault) : Maintains P (MonadExcept.throw e : EvalM α) :=
  fun _ holds => .error holds

/-- A step that keeps a property keeps it where it succeeds. -/
theorem of_ok {a : α} (h : Maintains P step) (holds : P before.node)
    (run : step before = .ok a after) : P after.node :=
  (h before holds).of_ok run

/-- A step that keeps a property keeps it where it fails. -/
theorem of_error {e : Fault} (h : Maintains P step) (holds : P before.node)
    (run : step before = .error e after) : P after.node :=
  (h before holds).of_error run

/-- Steps that keep a property keep it one behind the other. -/
theorem bind {next : α → EvalM β} (h : Maintains P step) (hnext : ∀ a, Maintains P (next a)) :
    Maintains P (step >>= next) :=
  fun _ holds => .bind (fun a after run => hnext a after (h.of_ok holds run))
    fun _ _ run => h.of_error holds run

/-- Looking at the node keeps every property. -/
theorem node : Maintains P EvalM.node := fun _ holds => .ok holds

/-- Counting the children keeps every property. -/
theorem childCount : Maintains P EvalM.childCount := fun _ holds => .ok holds

theorem note (n : Note) : Maintains P (EvalM.note n) := fun _ holds => .ok holds

/-- Asking how the dice will fall keeps every property. -/
theorem draw (rules : Rules) (faces : Faces) : Maintains P (EvalM.draw rules faces) :=
  fun _ holds => .ok holds

theorem request (faces : Faces) (count : Nat) : Maintains P (EvalM.request faces count) :=
  fun _ holds => .ok holds

/-- A report keeps every property of the node. -/
theorem report (problem : Problem) : Maintains P (EvalM.report problem) := by
  unfold EvalM.report
  split
  · exact fun _ holds => .error holds
  · exact fun _ holds => .ok holds

/-- A number, or a fault, keeps every property. -/
theorem ofNumber (number : Except NumberError α) : Maintains P (EvalM.ofNumber number) := by
  cases number with
  | ok a => exact pure a
  | error e => exact throw _

/-- The check of what is tested keeps every property. -/
theorem requireTestable (c : Condition) (nodes : List Node) :
    Maintains P (EvalM.requireTestable c nodes) := by
  unfold EvalM.requireTestable
  split
  · exact pure _
  · exact throw _

/-- Reading the faces of a roll keeps every property. -/
theorem facesOf (roll : Node) : Maintains P (EvalM.facesOf roll) := by
  unfold EvalM.facesOf
  split
  · exact throw _
  · refine (ofNumber _).bind fun faces => ?_
    split
    · exact throw _
    · exact pure _

end Maintains

/-! ## Modifiers at work -/

/-- The node is a modifier on this operand, whatever its argument is. -/
def Holds (m : Modifier) (attributes : OrderedMap Value) (operand node : Node) : Prop :=
  ∃ argument, node = ⟨.modifier m, attributes, operand :: argument⟩

/-- The dice of the roll were changed by the modifier.  Behind a result the roll has the value of
    its new dice; behind a fault its value may be out of date. -/
inductive Treated (m : Modifier) (attributes : OrderedMap Value) (operand roll : Node) :
    EStateM.Result Fault Focus Value → Prop where
  | ok {dice argument : List Node} {record : Record} (changed : Dice.Changed m roll.children dice)
      (faces : ∀ die ∈ dice, die.IsDie) :
      Treated m attributes operand roll (.ok (.int (Dice.total dice))
        ⟨⟨.modifier m, attributes, operand.replaceDice (roll.renewed dice) :: argument⟩, record⟩)
  | error {e : Fault} {dice argument : List Node} {record : Record}
      (changed : Dice.Changed m roll.children dice) :
      Treated m attributes operand roll (.error e
        ⟨⟨.modifier m, attributes, operand.replaceDice (roll.withChildren dice) :: argument⟩,
          record⟩)

/-- When these dice have been put into the roll, the step does the rest. -/
def Treats (m : Modifier) (attributes : OrderedMap Value) (operand roll : Node)
    (dice : List Node) (step : EvalM Value) : Prop :=
  ∀ argument record, Treated m attributes operand roll (step
    ⟨⟨.modifier m, attributes, operand.replaceDice (roll.withChildren dice) :: argument⟩, record⟩)

section

variable {α : Type} {rules : Rules} {levels : Nat} {evaluate : EvalM Value} {m : Modifier}
  {attributes : OrderedMap Value} {operand roll : Node} {argument dice dice' : List Node}
  {record : Record}

/-- What is done with the argument leaves the operand alone. -/
private theorem maintains_onArgument (step : EvalM α) :
    Maintains (Holds m attributes operand) (EvalM.onChild 1 step) := by
  rintro ⟨_, record⟩ ⟨argument, rfl⟩
  cases argument with
  | nil => exact .error ⟨[], rfl⟩
  | cons first rest =>
    cases run : step ⟨first, record⟩ with
    | ok a after =>
      rw [EvalM.onChild_of_ok rfl run]
      exact .ok ⟨after.node :: rest, rfl⟩
    | error e after =>
      rw [EvalM.onChild_of_error rfl run]
      exact .error ⟨after.node :: rest, rfl⟩

/-- The condition is evaluated beside the operand, which stays as it is. -/
private theorem maintains_modifierCondition (default : Condition) (examined : List Node) :
    Maintains (Holds m attributes operand)
      (EvalM.modifierCondition evaluate default examined) := by
  refine Maintains.childCount.bind fun count => ?_
  split
  · exact .pure _
  · exact (maintains_onArgument _).bind fun c =>
      (Maintains.requireTestable c examined).bind fun _ => .pure c

namespace Treats

/-- A step that keeps the changed dice can come before the rest. -/
theorem bind {step : EvalM α} {next : α → EvalM Value} (changed : Dice.Changed m roll.children dice)
    (maintains :
      Maintains (Holds m attributes (operand.replaceDice (roll.withChildren dice))) step)
    (h : ∀ a, Treats m attributes operand roll dice (next a)) :
    Treats m attributes operand roll dice (step >>= next) := by
  intro argument record
  generalize start : (⟨⟨.modifier m, attributes,
    operand.replaceDice (roll.withChildren dice) :: argument⟩, record⟩ : Focus) = before
  have holds : Holds m attributes (operand.replaceDice (roll.withChildren dice)) before.node :=
    ⟨argument, congrArg Focus.node start.symm⟩
  cases run : step before with
  | ok a after =>
    obtain ⟨argument', here⟩ := maintains.of_ok holds run
    obtain ⟨_, record'⟩ := after
    obtain rfl := here
    rw [EvalM.bind_of_ok run]
    exact h a argument' record'
  | error e after =>
    obtain ⟨argument', here⟩ := maintains.of_error holds run
    obtain ⟨_, record'⟩ := after
    obtain rfl := here
    rw [EvalM.bind_of_error run]
    exact .error changed

/-- Under a condition the modifier fails. -/
private theorem guarded {c : Prop} [Decidable c] {e : Fault} {next : α → EvalM Value}
    {rest : EvalM Value}
    (changed : Dice.Changed m roll.children dice) (h : Treats m attributes operand roll dice rest) :
    Treats m attributes operand roll dice (if c then MonadExcept.throw e >>= next else rest) := by
  split
  · exact fun _ _ => .error changed
  · exact h

/-- The dice are put into the roll that the operand stands on. -/
private theorem setDice (stands : StandsOn roll operand) {next : Unit → EvalM Value}
    (h : Treats m attributes operand roll dice' (next ())) :
    Treats m attributes operand roll dice (EvalM.setDice dice' >>= next) := by
  intro argument record
  have kind : (roll.withChildren dice).kind = .dice := stands.kind
  have there := stands.replace kind
  -- Setting the dice a second time leaves nothing of the first time.
  have twice : (operand.replaceDice (roll.withChildren dice)).replaceDice
      ((roll.withChildren dice).withChildren dice') =
        operand.replaceDice (roll.withChildren dice') := stands.replace_replace kind _
  have run : EvalM.setDice dice' ⟨⟨.modifier m, attributes,
      operand.replaceDice (roll.withChildren dice) :: argument⟩, record⟩ = _ :=
    run_setDice there dice' record
  rw [twice] at run
  rw [EvalM.bind_of_ok run]
  exact h argument record

/-- The value of the roll is renewed last. -/
private theorem refresh (stands : StandsOn roll operand)
    (changed : Dice.Changed m roll.children dice) (faces : ∀ die ∈ dice, die.IsDie) :
    Treats m attributes operand roll dice EvalM.refresh := by
  intro argument record
  rw [run_refresh stands faces]
  exact .ok changed faces

/-- A limit that was reached is told. -/
private theorem told (changed : Dice.Changed m roll.children dice) (capped : Bool) (n : Note)
    (problem : Problem) {rest : EvalM Value} (h : Treats m attributes operand roll dice rest) :
    Treats m attributes operand roll dice
      (if capped then do
        EvalM.note n
        EvalM.report problem
        rest
      else rest) := by
  split
  · exact bind changed (.note n) fun _ => bind changed (.report problem) fun _ => h
  · exact h

/-- The number of dice is read off the argument. -/
private theorem amount_bind (changed : Dice.Changed m roll.children dice) {next : Int → EvalM Value}
    (h : ∀ amount, Treats m attributes operand roll dice (next amount)) :
    Treats m attributes operand roll dice (do
      if (← EvalM.childCount) < 2 then pure 1 >>= next
      else EvalM.onChild 1 (EvalM.rounded evaluate) >>= next) := by
  refine bind changed .childCount fun count => ?_
  split
  · exact bind changed (.pure 1) h
  · exact bind changed (maintains_onArgument _) h

end Treats

/-- The modifier evaluates its operand, and when it has found the roll there, it treats it. -/
def TreatsRoll (rules : Rules) (evaluate : EvalM Value) (m : Modifier) : Prop :=
  ∃ next : Node → EvalM Value, EvalM.modifier rules evaluate m = (do
      EvalM.requireChildrenUpTo m.most
      let roll ← EvalM.operandDice evaluate
      next roll) ∧
    ∀ attributes operand roll, StandsOn roll operand → (∀ die ∈ roll.children, die.IsDie) →
      Treats m attributes operand roll roll.children (next roll)

/-- Keeping and dropping treat the roll. -/
private theorem treatsRoll_select (rules : Rules) (evaluate : EvalM Value) (keep : Bool) :
    TreatsRoll rules evaluate (if keep then .keep else .drop) := by
  have most : (if keep then Modifier.keep else .drop).most = 2 := by cases keep <;> rfl
  unfold TreatsRoll
  rw [modifier_select, most]
  refine ⟨_, rfl, fun attributes operand roll stands faces => ?_⟩
  have same := Dice.changed_self (if keep then .keep else .drop) roll.children
  refine .amount_bind same fun amount => .bind same .node fun node => .guarded same ?_
  -- Neither selection changes anything but the mark that drops a die.
  have changed : Dice.Changed (if keep then .keep else .drop) roll.children
      ((if keep then Dice.keep else Dice.drop) (node.hasText "type" "highest") amount
        roll.children) := by
    cases keep with
    | true => exact Dice.changed_keep _ _ _
    | false => exact Dice.changed_drop _ _ _
  exact .setDice stands (.refresh stands changed (kept_isDie.select keep _ _ faces))

/-- Every modifier treats the roll that it finds. -/
theorem treatsRoll (rules : Rules) (evaluate : EvalM Value) (m : Modifier) :
    TreatsRoll rules evaluate m := by
  -- Each modifier computes its dice from the roll and its argument, sets them once and sums them
  -- up; until they are set, the dice are unchanged.
  cases m with
  | explode =>
    refine ⟨_, rfl, fun attributes operand roll stands faces => ?_⟩
    have same := Dice.changed_self .explode roll.children
    refine .bind same (.facesOf roll) fun ⟨sides, range⟩ => ?_
    refine .bind same .node fun node => ?_
    refine .bind same (maintains_modifierCondition _ _) fun c => ?_
    refine .bind same (.draw _ _) fun answers => ?_
    refine .bind same (.request _ _) fun _ => ?_
    have changed := Dice.changed_explode c answers sides (node.hasText "penetrate" "yes")
      rules.limits.maxIterations 0 roll.children
    refine .setDice stands (.told changed _ _ _ (.bind changed (.note _) fun _ => ?_))
    exact .refresh stands changed (kept_isDie.explode _ _ _ _ _ _ faces)
  | keep => exact treatsRoll_select rules evaluate true
  | drop => exact treatsRoll_select rules evaluate false
  | critical =>
    refine ⟨_, rfl, fun attributes operand roll stands faces => ?_⟩
    have same := Dice.changed_self .critical roll.children
    refine .bind same (.facesOf roll) fun ⟨_, range⟩ => ?_
    refine .bind same .node fun node => ?_
    refine .bind same (maintains_modifierCondition _ _) fun c => ?_
    exact .setDice stands (.refresh stands (Dice.changed_markCritical c _ _)
      (kept_isDie.markCritical _ _ faces))
  | reroll =>
    refine ⟨_, rfl, fun attributes operand roll stands faces => ?_⟩
    have same := Dice.changed_self .reroll roll.children
    refine .bind same (.facesOf roll) fun ⟨_, range⟩ => ?_
    refine .bind same .node fun node => ?_
    refine .bind same (maintains_modifierCondition _ _) fun c => ?_
    refine .bind same (.draw _ _) fun answers => ?_
    refine .bind same (.request _ _) fun _ => ?_
    have changed := Dice.changed_reroll c answers (node.hasText "once" "yes")
      rules.limits.maxIterations 0 roll.children
    refine .setDice stands (.told changed _ _ _ ?_)
    exact .refresh stands changed (kept_isDie.reroll _ _ _ _ _ faces)
  | sort =>
    refine ⟨_, rfl, fun attributes operand roll stands faces => ?_⟩
    have same := Dice.changed_self .sort roll.children
    refine .bind same .node fun node => .guarded same ?_
    exact .setDice stands (.refresh stands (Dice.changed_sort _ _) (Kept.sort _ faces))

end

end DiceNotation
