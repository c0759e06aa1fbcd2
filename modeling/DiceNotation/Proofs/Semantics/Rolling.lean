import DiceNotation.Proofs.Semantics.DiceNodes
import DiceNotation.Proofs.Trees.Chain
import DiceNotation.Proofs.Trees.Dice

/-! # Rolls and modifiers are simulated

A modifier changes the dice of a roll that lies below it, in place, and leaves the nodes between
itself and the roll as they are, with the values that they had before.  The invariant (`Rolled`)
therefore speaks only of the roll that first children lead to.

* `simulates_roll`       a `dice` node is rolled as the semantics says
* `simulates_modifier`   a modifier does to the dice what the semantics says -/

namespace DiceNotation

open DiceNotation.Expr (Sides Bound Step)
open DiceNotation.EvalM (refresh setDice operandDice modifierCondition)

/-! ## Finding the roll -/

namespace Node

/-- The dice under a modifier are those of its operand. -/
private theorem findDice?_step (step : Step) (operand : Node) :
    (step.toNode operand).findDice? = operand.findDice? :=
  findDice?_modifier step.modifier _ operand _

/-- The dice that are found are a dice node, and what replaces them is found in their place. -/
private theorem findDice?_spec {node roll : Node} (h : node.findDice? = some roll) :
    roll.kind = .dice ∧ ∀ other : Node, other.kind = .dice →
      (node.replaceDice other).findDice? = some other := by
  -- The roll is found along the first children, and it is put back along the same path.
  fun_induction Node.findDice? node with
  | case1 attributes children =>
    cases h
    refine ⟨rfl, fun other hother => ?_⟩
    unfold replaceDice
    rw [if_pos rfl]
    exact findDice?_of_kind hother
  | case2 kind attributes notDice => cases h
  | case3 kind attributes notDice child others ih =>
    obtain ⟨isDice, replaced⟩ := ih h
    refine ⟨isDice, fun other hother => ?_⟩
    rw [replaceDice, if_neg notDice, findDice?, if_neg notDice]
    exact replaced other hother

end Node

/-- A `dice` node that was rolled: its sides and its dice. -/
structure IsRoll (shown : Value) (dice : List Die) (roll : Node) : Prop where
  sides : roll.get? "sides" = some shown
  stands : roll.children.map Die.ofNode = dice
  faces : ∀ node ∈ roll.children, node.IsDie

/-- The live nodes of a roll are dice. -/
private theorem IsRoll.live {shown : Value} {dice : List Die} {roll : Node}
    (h : IsRoll shown dice roll) : ∀ node ∈ Dice.live roll.children, node.IsDie :=
  fun node hnode => h.faces node (Dice.mem_live.mp hnode).1

/-- The roll below a node has these sides and dice. -/
def Rolled (shown : Value) (dice : List Die) (node : Node) : Prop :=
  ∃ roll, node.findDice? = some roll ∧ IsRoll shown dice roll

/-- A modifier that stands on a roll. -/
def Modifies (step : Step) (shown : Value) (dice : List Die) (node : Node) : Prop :=
  ∃ operand, node = step.toNode operand ∧ Rolled shown dice operand

/-- Storing a value leaves the dice of the roll. -/
theorem rolled_set {shown : Value} {dice : List Die} {node : Node} (value : Value)
    (h : Rolled shown dice node) : Rolled shown dice (node.set "value" value) := by
  obtain ⟨roll, found, isRoll⟩ := h
  obtain ⟨kind, attributes, children⟩ := node
  -- The value is stored in the roll itself or in a modifier above it.
  by_cases isDice : kind = .dice
  · rw [Node.findDice?_of_kind isDice] at found
    cases found
    refine ⟨_, Node.findDice?_of_kind isDice, ?_, isRoll.stands, isRoll.faces⟩
    rw [Node.get?_set, if_neg (by decide)]
    exact isRoll.sides
  · refine ⟨roll, ?_, isRoll⟩
    unfold Node.findDice? at found
    rw [if_neg isDice] at found
    unfold Node.set Node.findDice?
    rw [if_neg isDice]
    exact found

/-- A modified roll is a roll. -/
private theorem Modifies.rolled {step : Step} {shown : Value} {dice : List Die} {node : Node}
    (h : Modifies step shown dice node) : Rolled shown dice node := by
  obtain ⟨operand, rfl, roll, found, isRoll⟩ := h
  exact ⟨roll, by rw [Node.findDice?_step, found], isRoll⟩

/-- What a modifier has done when it is evaluated. -/
structure Modified (shown : Value) (value : Value) (node : Node) (dice : List Die) : Prop where
  value : value = .int (Roll.total dice)
  kind : node.kind.isRoll
  rolled : Rolled shown dice node

/-! ## Steps of modifiers -/

/-- The sum of the dice of a node is found without changing anything. -/
theorem run_total {node : Node} (h : ∀ die ∈ node.children, die.IsDie) (record : Record) :
    EvalM.total ⟨node, record⟩ = .ok (.int (Dice.total node.children)) ⟨node, record⟩ := by
  have sum : (EvalM.ofNumber (Number.sum ((Roll.liveFaces (node.children.map Die.ofNode)).map
      Number.int)) : EvalM Number) = Pure.pure (.int (Dice.total node.children)) := by
    rw [sum_ints]
    rfl
  unfold EvalM.total
  rw [EvalM.run_node_bind, liveNumbers?_eq h]
  dsimp only
  rw [sum]
  rfl

/-- The total of the nodes is that of the dice. -/
private theorem simulates_total {shown : Value} {dice : List Die} {roll : Node}
    (h : IsRoll shown dice roll) :
    Simulates roll EvalM.total (Pure.pure ()) fun n node' _ =>
      n = .int (Roll.total dice) ∧ node' = roll := by
  intro record
  rw [run_total h.faces record]
  refine .ok ⟨?_, rfl⟩
  rw [Dice.total, h.stands]

section Modifier

variable {step : Step} {shown : Value} {dice : List Die} {node : Node}

/-- The dice of the roll are changed, and nothing else. -/
private theorem simulates_setDice (h : Modifies step shown dice node)
    {nodes : List Node} (faces : ∀ node ∈ nodes, node.IsDie) :
    Simulates node (setDice nodes) (Pure.pure ()) fun _ node' _ =>
      Modifies step shown (nodes.map Die.ofNode) node' := by
  obtain ⟨operand, rfl, roll, found, isRoll⟩ := h
  obtain ⟨isDice, replaced⟩ := Node.findDice?_spec found
  have changed : Simulates roll (EvalM.modifyNode fun n => n.withChildren nodes) (Pure.pure ())
      fun _ node' _ => node' = roll.withChildren nodes :=
    fun record => .ok rfl
  refine (Simulates.onChild rfl (Simulates.onDice found changed)).mono ?_
  rintro - _ - ⟨_, rfl, _, rfl, rfl⟩
  exact ⟨_, rfl, _, replaced _ isDice, isRoll.sides, rfl, faces⟩

/-- The value of the roll is renewed. -/
private theorem simulates_refresh (h : Modifies step shown dice node) :
    Simulates node refresh (Pure.pure dice) (Modified shown) := by
  obtain ⟨operand, rfl, roll, found, isRoll⟩ := h
  obtain ⟨isDice, replaced⟩ := Node.findDice?_spec found
  -- The sum is stored on the roll that the operand stands on, and nothing else changes.
  have renewed : Simulates roll (do
      let sum := Value.number (← EvalM.total)
      EvalM.setAttribute "value" sum
      return sum) (Pure.pure dice) fun value node' dice' => dice' = dice ∧
        value = .int (Roll.total dice) ∧ node' = roll.set "value" (.int (Roll.total dice)) := by
    refine (simulates_total isRoll).bind_left fun n node' sum => ?_
    obtain ⟨rfl, rfl⟩ := sum
    exact .modifyNode_bind (.pure ⟨rfl, rfl, rfl⟩)
  apply (Simulates.onChild rfl (Simulates.onDice found renewed)).mono
  intro value _ dice' found
  obtain ⟨_, rfl, _, rfl, rfl, rfl, rfl⟩ := found
  have isRoll' : IsRoll shown dice' (roll.set "value" (.int (Roll.total dice'))) := by
    refine ⟨?_, isRoll.stands, isRoll.faces⟩
    rw [Node.get?_set, if_neg (by decide)]
    exact isRoll.sides
  -- With its new sum the roll still holds the dice that the semantics has.
  have modifies : Modifies step shown dice' (step.toNode (operand.replaceDice
      (roll.set "value" (.int (Roll.total dice'))))) := ⟨_, rfl, _, replaced _ isDice, isRoll'⟩
  exact ⟨rfl, rfl, modifies.rolled⟩

/-- Other dice are put into the roll, and its value is renewed. -/
private theorem simulates_renew (h : Modifies step shown dice node) {nodes : List Node}
    {dice' : List Die} (stand : nodes.map Die.ofNode = dice')
    (faces : ∀ node ∈ nodes, node.IsDie) :
    Simulates node (setDice nodes >>= fun _ => refresh) (Pure.pure dice') (Modified shown) := by
  refine (simulates_setDice h faces).bind_left fun _ node' modifies => ?_
  rw [stand] at modifies
  exact simulates_refresh modifies

/-- If a limit was reached, a problem is collected. -/
private theorem simulates_tell {γ δ : Type} {capped : Bool} {n : Note} {problem : Problem}
    {rest : EvalM γ} {b : δ} {rel : γ → Node → δ → Prop}
    (h : Simulates node rest (Pure.pure b) rel) :
    Simulates node
      (if capped then do
        EvalM.note n
        EvalM.report problem
        rest
      else rest)
      (do
        if capped then Sem.collect problem
        return b) rel := by
  cases capped with
  | true =>
    refine .note_bind ((Simulates.report _).bind fun _ node' _ same => ?_)
    rw [same]
    exact h
  | false => exact h

/-- The operand is evaluated, and its roll is found. -/
private theorem simulates_operandDice {operand : Node} {evaluate : EvalM Value}
    {sem : Sem (List Die)}
    (h : Simulates operand evaluate sem fun _ node' dice => Rolled shown dice node') :
    Simulates (step.toNode operand) (operandDice evaluate) sem
      fun roll node' dice => IsRoll shown dice roll ∧
        Modifies step shown dice node' := by
  -- First the operand is evaluated, then the roll is looked up in what it has become.
  have inner : Simulates operand (do let _ ← evaluate; EvalM.onDice EvalM.node) sem
      fun roll node' dice => IsRoll shown dice roll ∧ Rolled shown dice node' := by
    rw [← bind_pure sem]
    refine h.bind fun value node' dice rolled => ?_
    obtain ⟨roll, found, isRoll⟩ := rolled
    have looked : Simulates roll EvalM.node (Pure.pure dice) fun a node' dice' =>
        dice' = dice ∧ a = roll ∧ node' = roll :=
      fun record => .ok ⟨rfl, rfl, rfl⟩
    refine (Simulates.onDice found looked).mono ?_
    rintro _ _ _ ⟨_, rfl, rfl, rfl, same⟩
    obtain ⟨isDice, replaced⟩ := Node.findDice?_spec found
    rw [same]
    exact ⟨isRoll, _, replaced _ isDice, isRoll⟩
  refine (Simulates.onChild rfl inner).mono ?_
  rintro roll _ dice ⟨operand', rfl, isRoll, rolled⟩
  exact ⟨isRoll, operand', rfl, rolled⟩

end Modifier

/-! ## Arguments of modifiers -/

/-- Literals are evaluated to their numbers, and stay as they are. -/
def EvaluatesLiterals (evaluate : EvalM Value) : Prop :=
  ∀ (n : Int) (record : Record),
    evaluate ⟨.integer n, record⟩ = .ok (.int n) ⟨.integer n, record⟩

section Arguments

variable {step : Step} {operand : Node} {evaluate : EvalM Value}

/-- A modifier has its operand as the first child and its argument as the second, if it has one. -/
private theorem children_step (step : Step) (operand : Node) :
    (step.toNode operand).children = operand :: step.argument.toList := rfl

/-- A modifier has one child, and one more if it has an argument. -/
private theorem childCount_step (step : Step) (operand : Node) :
    (step.toNode operand).childCount = step.argument.toList.length + 1 := rfl

/-- Setting a child to what it is changes nothing. -/
theorem setChild_self {node child : Node} {i : Nat} (h : node.children[i]? = some child) :
    node.setChild i child = node := by
  obtain ⟨kind, attributes, children⟩ := node
  obtain ⟨lt, rfl⟩ := List.getElem?_eq_some_iff.mp h
  unfold Node.setChild
  rw [List.set_getElem_self lt]

/-- A condition is read off a comparison whose threshold is evaluated to itself. -/
theorem run_condition {op : Comparison} {attributes : OrderedMap Value} {limit : Node}
    {value : Value}
    (threshold : ∀ record, evaluate ⟨limit, record⟩ = .ok value ⟨limit, record⟩)
    (record : Record) :
    EvalM.condition evaluate ⟨⟨.comparison op, attributes, [limit]⟩, record⟩ =
      .ok ⟨op, value⟩ ⟨⟨.comparison op, attributes, [limit]⟩, record⟩ := by
  have read : EvalM.onChild 0 evaluate ⟨⟨.comparison op, attributes, [limit]⟩, record⟩ =
      .ok value ⟨⟨.comparison op, attributes, [limit]⟩, record⟩ := by
    unfold EvalM.onChild
    simp only [List.getElem?_cons_zero, threshold]
    rfl
  show EStateM.bind (EvalM.onChild 0 evaluate) (fun value => Pure.pure (Condition.mk op value))
    ⟨⟨.comparison op, attributes, [limit]⟩, record⟩ = _
  unfold EStateM.bind
  rw [read]
  rfl

/-- Nodes that can be tested pass the check. -/
theorem run_requireTestable {node : Node} {c : Condition} {examined : List Node}
    (h : ∀ node ∈ examined, c.admits node.value?) (record : Record) :
    EvalM.requireTestable c examined ⟨node, record⟩ = .ok () ⟨node, record⟩ := by
  unfold EvalM.requireTestable
  rw [if_pos (List.all_eq_true.mpr h)]
  rfl

/-- Values that the condition admits are not refused. -/
theorem simulates_requireTestable {node : Node} {c : Condition} {examined : List Node}
    (h : ∀ node ∈ examined, c.admits node.value?) :
    Simulates node (EvalM.requireTestable c examined) (Pure.pure ())
      fun _ node' _ => node' = node := by
  intro record
  rw [run_requireTestable h record]
  exact .ok rfl

/-- The condition of a modifier makes the test that the semantics says, of the dice examined. -/
private theorem simulates_modifierCondition (literals : EvaluatesLiterals evaluate)
    {bound : Option Bound}
    (hbound : step.argument = bound.map Bound.toNode) (default : Int) {examined : List Node}
    (h : ∀ node ∈ examined, node.IsDie) :
    Simulates (step.toNode operand) (modifierCondition evaluate (.face default) examined)
      (Pure.pure ()) fun c node' _ => node' = step.toNode operand ∧
        ∀ die ∈ examined, c.Tests (Roll.test bound default) := by
  unfold modifierCondition
  refine .childCount_bind ?_
  rw [childCount_step, hbound]
  cases bound with
  | none =>
    rw [if_pos (.inl (by decide))]
    exact .pure ⟨rfl, fun _ _ => tests_face default⟩
  | some bound =>
    -- Without dice to examine the bound is not evaluated.
    by_cases empty : examined.isEmpty
    · rw [if_pos (.inr empty), List.isEmpty_iff.mp empty]
      exact .pure ⟨rfl, nofun⟩
    · rw [if_neg (not_or.mpr ⟨by simp, empty⟩)]
      -- The bound is a literal comparison, which is evaluated without looking at the dice.
      have stated : Simulates bound.toNode (EvalM.condition evaluate) (Pure.pure ())
          fun c node' _ => c = ⟨bound.op, .int bound.limit⟩ ∧ node' = bound.toNode := by
        intro record
        rw [Bound.toNode, Node.make, run_condition (literals bound.limit)]
        exact .ok ⟨rfl, rfl⟩
      have second : (step.toNode operand).children[1]? = some bound.toNode := by
        rw [children_step, hbound]
        rfl
      refine (Simulates.onChild second stated).bind_left fun c node' found => ?_
      obtain ⟨child, rfl, rfl, rfl⟩ := found
      rw [setChild_self second]
      have admitted : ∀ node ∈ examined,
          Condition.admits ⟨bound.op, .int bound.limit⟩ node.value? := by
        intro node hn
        rw [(h node hn).value?]
        exact Bool.or_true _
      refine (simulates_requireTestable admitted).bind_left fun _ node' same => ?_
      exact .pure ⟨same, fun _ _ => tests_bound bound default⟩

/-- A literal is rounded on the tree as in the semantics. -/
private theorem simulates_rounded (literals : EvaluatesLiterals evaluate) (n : Nat) :
    Simulates (.integer n) (EvalM.rounded evaluate) (Sem.demand (Number.int n).roundHalfUp)
      fun a node' b => a = b ∧ node' = .integer n := by
  have value : Simulates (.integer n) evaluate (Pure.pure ())
      fun value node' _ => value = .int n ∧ node' = .integer n := by
    intro record
    rw [literals]
    exact .ok ⟨rfl, rfl⟩
  unfold EvalM.rounded
  refine (value.number fun _ _ _ h => h.1).bind_left fun a node' found => ?_
  obtain ⟨rfl, -, rfl⟩ := found
  exact .ofNumber _

/-- The number of dice to keep or to drop is found, and the evaluation goes on with it. -/
private theorem simulates_amount {γ δ : Type} (literals : EvaluatesLiterals evaluate)
    {amount : Option Nat} (hamount : step.argument = amount.map fun k : Nat => Node.integer k)
    {next : Int → EvalM γ} {next' : Int → Sem δ} {rel : γ → Node → δ → Prop}
    (h : ∀ n, Simulates (step.toNode operand) (next n) (next' n) rel) :
    Simulates (step.toNode operand)
      (do
        if (← EvalM.childCount) < 2 then Pure.pure 1 >>= next
        else EvalM.onChild 1 (EvalM.rounded evaluate) >>= next)
      (Roll.amount amount >>= next') rel := by
  refine .childCount_bind ?_
  rw [childCount_step, hamount]
  -- Without an amount a single die is meant.
  cases amount with
  | none =>
    rw [if_pos (by decide)]
    exact h 1
  | some n =>
    rw [if_neg (by simp)]
    have second : (step.toNode operand).children[1]? = some (.integer n) := by
      rw [children_step, hamount]
      rfl
    refine (Simulates.onChild second (simulates_rounded literals n)).bind fun a node' b found => ?_
    obtain ⟨child, rfl, rfl, rfl⟩ := found
    rw [setChild_self second]
    exact h a

end Arguments

/-! ## Draws -/

section Draws

variable {γ δ β : Type} {node : Node} {rules : Rules} {faces : Faces} {rel : γ → Node → δ → Prop}

/-- A draw is what the source answers at this place of the trace. -/
private theorem simulates_draw {next : Draw → EvalM γ} {sem : Sem δ}
    (h : ∀ record : Record,
      Agree rel (next (record.trace.answers rules.source faces) ⟨node, record⟩)
        (sem record.trace)) :
    Simulates node (EvalM.draw rules faces >>= next) sem rel :=
  fun record => h record

/-- The requests that a computation made one by one are recorded. -/
private theorem agree_request {rest : Unit → EvalM γ} {sem : Sem β} {sem' : β → Sem δ} {b : β}
    {count : Nat} {record : Record}
    (run : sem record.trace = .ok b (record.trace.after faces count))
    (h : Simulates node (rest ()) (sem' b) rel) :
    Agree rel ((EvalM.request faces count >>= rest) ⟨node, record⟩)
      ((sem >>= sem') record.trace) := by
  rw [bind_of_ok run]
  have recorded : (record.request faces count).trace = record.trace.after faces count := by
    unfold Record.request Record.trace Trace.after
    rw [Array.toList_append, Array.toList_replicate]
  rw [← recorded]
  exact h (record.request faces count)

end Draws

/-! ## Modifiers -/

section Modifiers

variable {rules : Rules} {evaluate : EvalM Value} {operand : Node} {sem : Sem (List Die)}
  {sides : Value} {faces : Faces}

/-- A modifier has one or two children. -/
private theorem childCount_step_le (step : Step) (operand : Node) :
    0 < (step.toNode operand).childCount ∧ (step.toNode operand).childCount ≤ 2 := by
  rw [childCount_step]
  cases step.argument with
  | none => exact ⟨by decide, by decide⟩
  | some node => exact ⟨Nat.succ_pos _, Nat.le_refl 2⟩

/-- The faces of a roll are known from its sides. -/
theorem run_facesOf {node roll : Node} {shown : Value} (hsides : roll.get? "sides" = some shown)
    (hfaces : Dice.faces shown = .ok (some faces)) (record : Record) :
    EvalM.facesOf roll ⟨node, record⟩ = .ok (shown, faces) ⟨node, record⟩ := by
  unfold EvalM.facesOf
  rw [hsides]
  dsimp only
  rw [hfaces]
  rfl

/-- The faces of a roll are found from its sides. -/
private theorem simulates_facesOf {node : Node} {shown : Value} {dice : List Die} {roll : Node}
    (hfaces : Dice.faces shown = .ok (some faces)) (h : IsRoll shown dice roll) :
    Simulates node (EvalM.facesOf roll) (Pure.pure ()) fun a node' _ =>
      a = (shown, faces) ∧ node' = node := by
  intro record
  rw [run_facesOf h.sides hfaces record]
  exact .ok ⟨rfl, rfl⟩

/-- Explosions, rerolls and critical marks begin alike: the roll is found, and its faces are
    known. -/
private theorem simulates_operandFaces {γ δ : Type} {shown : Value} {step : Step}
    (hfaces : Dice.faces shown = .ok (some faces))
    (h : Simulates operand evaluate sem fun _ node dice => Rolled shown dice node)
    {next : Node → Value × Faces → EvalM γ} {next' : List Die → Sem δ} {rel : γ → Node → δ → Prop}
    (hnext : ∀ roll operand' dice, IsRoll shown dice roll → Rolled shown dice operand' →
      Simulates (step.toNode operand') (next roll (shown, faces)) (next' dice) rel) :
    Simulates (step.toNode operand)
      (do
        EvalM.requireChildrenUpTo 2
        let roll ← operandDice evaluate
        let known ← EvalM.facesOf roll
        next roll known) (sem >>= next') rel := by
  refine .requireChildrenUpTo_bind (childCount_step_le _ operand) ?_
  refine (simulates_operandDice h).bind fun roll node dice found => ?_
  obtain ⟨isRoll, operand', rfl, rolled⟩ := found
  refine (simulates_facesOf hfaces isRoll).bind_left fun known node' found => ?_
  obtain ⟨rfl, rfl⟩ := found
  exact hnext roll operand' dice isRoll rolled

/-- Exploding on a tree transforms the dice of the operand as the semantics does. -/
private theorem simulates_explode {shown : Value} (literals : EvaluatesLiterals evaluate)
    (hfaces : Dice.faces shown = .ok (some faces))
    (h : Simulates operand evaluate sem fun _ node dice => Rolled shown dice node)
    (penetrating : Bool) (bound : Option Bound) :
    Simulates ((Step.explode penetrating bound).toNode operand) (EvalM.explode rules evaluate)
      (sem >>= Roll.transform rules.limits rules.source faces (.explode penetrating bound))
      (Modified shown) := by
  unfold EvalM.explode
  apply simulates_operandFaces hfaces h
  intro roll operand dice isRoll rolled
  refine .node_bind ?_
  -- The variant of the modifier is kept in an attribute of its node.
  have kind : ((Step.explode penetrating bound).toNode operand).hasText "penetrate" "yes" =
      penetrating := by
    cases penetrating <;> rfl
  rw [kind]
  refine (simulates_modifierCondition literals rfl faces.high isRoll.live).bind_left
    fun c node' found => ?_
  obtain ⟨rfl, tests⟩ := found
  -- The drawing is a function of the answers and is compared as a whole.
  refine simulates_draw fun record => ?_
  -- Only the dice that count are tested, and for them the condition is the one of the text.
  have due : ∀ node ∈ roll.children, node.isDropped = false →
      c.Tests (Roll.test bound faces.high) :=
    fun node inside counts => tests node (Dice.mem_live.mpr ⟨inside, counts⟩)
  have run := explode_after rules.source faces record.trace penetrating shown isRoll.faces due
    rules.limits.maxIterations 0
  have isDie := kept_isDie.explode c (record.trace.answers rules.source faces) shown penetrating
    rules.limits.maxIterations 0 isRoll.faces
  rw [after_zero, isRoll.stands] at run
  dsimp only
  refine agree_request run ?_
  generalize Dice.explode c (record.trace.answers rules.source faces)
    (Dice.extraDie shown penetrating) rules.limits.maxIterations 0 roll.children = explosion
    at isDie
  refine (simulates_setDice ⟨operand, rfl, rolled⟩ isDie).bind_left fun _ node' modifies => ?_
  exact simulates_tell (.note_bind (simulates_refresh modifies))

/-- Rerolling on a tree transforms the dice of the operand as the semantics does. -/
private theorem simulates_reroll {shown : Value} (literals : EvaluatesLiterals evaluate)
    (hfaces : Dice.faces shown = .ok (some faces))
    (h : Simulates operand evaluate sem fun _ node dice => Rolled shown dice node)
    (once : Bool) (bound : Option Bound) :
    Simulates ((Step.reroll once bound).toNode operand) (EvalM.reroll rules evaluate)
      (sem >>= Roll.transform rules.limits rules.source faces (.reroll once bound))
      (Modified shown) := by
  unfold EvalM.reroll
  apply simulates_operandFaces hfaces h
  intro roll operand dice isRoll rolled
  refine .node_bind ?_
  -- Whether to reroll once is kept in an attribute of the node.
  have kind : ((Step.reroll once bound).toNode operand).hasText "once" "yes" = once := by
    cases once <;> rfl
  rw [kind]
  refine (simulates_modifierCondition literals rfl faces.low isRoll.live).bind_left
    fun c node' found => ?_
  obtain ⟨rfl, tests⟩ := found
  refine simulates_draw fun record => ?_
  -- Dropped dice are not tested.
  have due : ∀ node ∈ roll.children, node.isDropped = false →
      c.Tests (Roll.test bound faces.low) :=
    fun node inside counts => tests node (Dice.mem_live.mpr ⟨inside, counts⟩)
  have run := reroll_after rules.source faces record.trace once rules.limits.maxIterations
    isRoll.faces due 0
  have isDie := kept_isDie.reroll c (record.trace.answers rules.source faces) once
    rules.limits.maxIterations 0 isRoll.faces
  rw [after_zero, isRoll.stands] at run
  dsimp only
  refine agree_request run ?_
  generalize Dice.reroll c (record.trace.answers rules.source faces) once
    rules.limits.maxIterations 0 roll.children = rerolled at isDie
  refine (simulates_setDice ⟨operand, rfl, rolled⟩ isDie).bind_left fun _ node' modifies => ?_
  exact simulates_tell (simulates_refresh modifies)

/-- Keeping and dropping; `select` says what is done to the dice. -/
private theorem simulates_select {shown : Value} (literals : EvaluatesLiterals evaluate)
    {step : Step} (keep highest : Bool) {amount : Option Nat}
    (hamount : step.argument = amount.map fun k : Nat => Node.integer k)
    (kind : ∀ operand, (step.toNode operand).hasText "type" "highest" = highest)
    (h : Simulates operand evaluate sem fun _ node dice => Rolled shown dice node) :
    Simulates (step.toNode operand) (EvalM.select keep evaluate)
      (sem >>= fun dice => do
        return (if keep then Roll.keep else Roll.drop) highest (← Roll.amount amount) dice)
      (Modified shown) := by
  unfold EvalM.select
  refine .requireChildrenUpTo_bind (childCount_step_le _ operand) ?_
  refine (simulates_operandDice h).bind fun roll node dice found => ?_
  obtain ⟨isRoll, operand, rfl, rolled⟩ := found
  refine simulates_amount literals hamount fun n => ?_
  refine .node_bind ?_
  rw [kind, liveNumbers?_eq isRoll.faces]
  simp only [Option.isNone_some, Bool.false_eq_true, if_false]
  -- Both sides rank the same faces, so that they drop dice in the same places.
  have selected : ((if keep then Dice.keep else Dice.drop) highest n roll.children).map Die.ofNode =
      (if keep then Roll.keep else Roll.drop) highest n dice := by
    rw [← isRoll.stands]
    cases keep with
    | true => exact keep_ofNode highest n isRoll.faces
    | false => exact drop_ofNode highest n isRoll.faces
  -- Dice that are dropped are still dice.
  have isDie : ∀ node ∈ (if keep then Dice.keep else Dice.drop) highest n roll.children,
      node.IsDie := by
    cases keep with
    | true => exact kept_isDie.keep highest n isRoll.faces
    | false => exact kept_isDie.drop highest n isRoll.faces
  exact simulates_renew ⟨operand, rfl, rolled⟩ selected isDie

/-- Critical marks on a tree leave the dice of the operand, as in the semantics. -/
private theorem simulates_critical {shown : Value} (literals : EvaluatesLiterals evaluate)
    (hfaces : Dice.faces shown = .ok (some faces))
    (h : Simulates operand evaluate sem fun _ node dice => Rolled shown dice node)
    (success : Bool) (bound : Option Bound) :
    Simulates ((Step.critical success bound).toNode operand) (EvalM.critical evaluate)
      (sem >>= Roll.transform rules.limits rules.source faces (.critical success bound))
      (Modified shown) := by
  unfold EvalM.critical
  apply simulates_operandFaces hfaces h
  intro roll operand dice isRoll rolled
  refine .node_bind ?_
  refine (simulates_modifierCondition literals rfl _ isRoll.faces).bind_left
    fun c node' found => ?_
  obtain ⟨rfl, -⟩ := found
  have marked (kind : Value) : (Dice.markCritical c kind roll.children).map Die.ofNode = dice := by
    rw [markCritical_ofNode, isRoll.stands]
  exact simulates_renew ⟨operand, rfl, rolled⟩ (marked _) (kept_isDie.markCritical c _ isRoll.faces)

/-- Sorting on a tree transforms the dice of the operand as the semantics does. -/
private theorem simulates_sort {shown : Value}
    (h : Simulates operand evaluate sem fun _ node dice => Rolled shown dice node)
    (descending : Bool) :
    Simulates ((Step.sort descending).toNode operand) (EvalM.sort evaluate)
      (sem >>= Roll.transform rules.limits rules.source faces (.sort descending))
      (Modified shown) := by
  unfold EvalM.sort
  refine .requireChildrenUpTo_bind ⟨Nat.succ_pos _, Nat.le_refl 1⟩ ?_
  refine (simulates_operandDice h).bind fun roll node dice found => ?_
  obtain ⟨isRoll, operand, rfl, rolled⟩ := found
  refine .node_bind ?_
  have kind : ((Step.sort descending).toNode operand).hasText "direction" "descending" =
      descending := by
    cases descending <;> rfl
  rw [kind, mapM_number? isRoll.faces]
  simp only [Option.isNone_some, Bool.false_eq_true, if_false]
  -- Sorting moves the dice only, by the order of their faces.
  have sorted := sort_ofNode descending isRoll.faces
  rw [isRoll.stands] at sorted
  exact simulates_renew ⟨operand, rfl, rolled⟩ sorted (Kept.sort descending isRoll.faces)

/-- A modifier does to the dice of its operand what the semantics says. -/
theorem simulates_modifier {shown : Value} (literals : EvaluatesLiterals evaluate)
    (hfaces : Dice.faces shown = .ok (some faces))
    (h : Simulates operand evaluate sem fun _ node dice => Rolled shown dice node)
    (step : Step) :
    Simulates (step.toNode operand) (EvalM.modifier rules evaluate step.modifier)
      (sem >>= Roll.transform rules.limits rules.source faces step) (Modified shown) := by
  cases step with
  | explode penetrating bound => exact simulates_explode literals hfaces h penetrating bound
  | keep highest amount =>
    refine simulates_select literals true highest rfl (fun operand => ?_) h
    cases highest <;> rfl
  | drop highest amount =>
    refine simulates_select literals false highest rfl (fun operand => ?_) h
    cases highest <;> rfl
  | critical success bound => exact simulates_critical literals hfaces h success bound
  | reroll once bound => exact simulates_reroll literals hfaces h once bound
  | sort descending => exact simulates_sort h descending

end Modifiers

/-! ## Rolls -/

/-- The sides as they are kept on a rolled node. -/
def shownSides (sides : Option Int) : Value := (sides.map Value.int).getD .fate

/-- The faces are found from the sides that are shown. -/
theorem faces_shownSides (sides : Option Int) :
    Dice.faces (shownSides sides) = .ok (some (Roll.facesOf sides)) := by
  cases sides <;> rfl

/-- The dice of a roll are thrown if that is allowed, with the sides kept on the node. -/
def EvalM.throwDice (rules : Rules) (allowed : Bool) (times : Int) (sides : Option Int) :
    EvalM Value :=
  if allowed then do
    let answers ← draw rules (Roll.facesOf sides)
    request (Roll.facesOf sides) times.toNat
    modifyNode fun n => n.withChildren (Dice.fresh (shownSides sides) answers times.toNat)
    note (.rolled times (shownSides sides) ((List.range times.toNat).map answers))
    return .number (← total)
  else return .int 0

section Rolls

variable {limits : Limits} {node : Node}

/-- An amount is judged alike: the log alone knows of the warning. -/
theorem simulates_within (bounds : Bounds) (amount : Int) :
    Simulates node (EvalM.within bounds amount) (Roll.within bounds amount)
      fun a node' b => a = b ∧ node' = node := by
  unfold EvalM.within Roll.within
  -- Both sides make the same comparisons and report the same problems.
  by_cases few : amount < bounds.least
  · simp only [few, if_true]
    exact (Simulates.report _).bind fun _ node' _ same => .pure ⟨rfl, same⟩
  · simp only [few, if_false]
    cases bounds.most with
    | none => exact .pure ⟨rfl, rfl⟩
    | some limit =>
      by_cases many : (limit : Int) < amount
      · simp only [many, if_true]
        exact .note_bind ((Simulates.report _).bind fun _ node' _ same => .pure ⟨rfl, same⟩)
      · simp only [many, if_false]
        exact .pure ⟨rfl, rfl⟩

/-- The check of the sides of a roll; fate dice need none. -/
theorem simulates_sidesAllowed (node : Node) (sides : Option Int) :
    Simulates node
      (match sides with
        | none => Pure.pure true
        | some s => EvalM.within limits.onSides s)
      (Roll.sidesAllowed limits sides) fun a node' b => a = b ∧ node' = node := by
  cases sides with
  | none => exact .pure ⟨rfl, rfl⟩
  | some s => exact simulates_within limits.onSides s

/-- The sides of a roll are read off its second child. -/
theorem simulates_rollSides {sides : Sides} {child : Node} (h : node.children[1]? = some child)
    (kind : child.kind = .diceSides) (value : child.value? = some sides.toValue) :
    Simulates node EvalM.rollSides (Roll.sideCount sides) fun a node' b =>
      a = b ∧ node' = node := by
  unfold EvalM.rollSides
  refine .node_bind ?_
  rw [h]
  dsimp only
  rw [kind, value]
  cases sides with
  | fate => exact .pure ⟨rfl, rfl⟩
  | faces n =>
    -- A number of sides is rounded as the count is.
    have rounded : (EvalM.rounded (Pure.pure (Value.int n)) : EvalM Int) =
        EvalM.ofNumber (Number.int n).roundHalfUp := rfl
    change Simulates node (EvalM.rounded (Pure.pure (Value.int n)) >>= fun s => Pure.pure (some s))
      (Sem.demand (Number.int n).roundHalfUp >>= fun s => Pure.pure (some s)) _
    rw [rounded]
    refine (Simulates.ofNumber _).bind fun a node' b found => ?_
    obtain ⟨rfl, rfl⟩ := found
    exact .pure ⟨rfl, rfl⟩

/-- The dice of a fresh roll are made at once. -/
private theorem ofNode_fresh (source : Source) (faces : Faces) (trace : Trace) (sides : Value)
    (count : Nat) :
    Roll.fresh (Sem.ask source faces) count trace =
      .ok ((Dice.fresh sides (trace.answers source faces) count).map Die.ofNode)
        (trace.after faces count) := by
  have run := fresh_after source faces trace count 0
  rw [after_zero, Nat.zero_add, ← List.range_eq_range'] at run
  unfold Dice.fresh
  rw [List.map_map, run]
  rfl

/-- Throwing dice on a tree is a fresh roll, or no dice if they are not allowed. -/
private theorem simulates_throwDice {rules : Rules} (allowed : Bool) (times : Int)
    (sides : Option Int) (kind : node.kind = .dice) (children : node.children = [])
    (shown : node.get? "sides" = some (shownSides sides)) :
    Simulates node
      (EvalM.throwDice rules allowed times sides)
      (if allowed then Roll.fresh (Sem.ask rules.source (Roll.facesOf sides)) times.toNat
        else return [])
      (Modified (shownSides sides)) := by
  have isRollKind : ∀ {node : Node}, node.kind = .dice → node.kind.isRoll := by
    intro node h
    rw [h]
    rfl
  -- A roll that is not allowed is left without dice.
  cases allowed with
  | false =>
    refine .pure ⟨rfl, isRollKind kind, node, Node.findDice?_of_kind kind, shown, ?_, ?_⟩
    · rw [children, List.map_nil]
    · rw [children]
      exact nofun
  | true =>
    simp only [EvalM.throwDice, if_true]
    refine simulates_draw fun record => ?_
    -- The throw is compared as one request, with the faces that the source answers.
    have run := ofNode_fresh rules.source (Roll.facesOf sides) record.trace (shownSides sides)
      times.toNat
    have isDie := kept_isDie.fresh (shownSides sides)
      (record.trace.answers rules.source (Roll.facesOf sides)) times.toNat
    rw [← bind_pure (Roll.fresh _ _)]
    refine agree_request run (.modifyNode_bind (.note_bind ?_))
    have isRoll : IsRoll (shownSides sides) _ (node.withChildren (Dice.fresh (shownSides sides)
        (record.trace.answers rules.source (Roll.facesOf sides)) times.toNat)) :=
      ⟨shown, rfl, isDie⟩
    refine (simulates_total isRoll).bind_left fun n node' found => ?_
    obtain ⟨rfl, rfl⟩ := found
    exact .pure ⟨rfl, isRollKind kind, _, Node.findDice?_of_kind kind, isRoll⟩

variable {β : Type} {rules : Rules} {evaluate : EvalM Value} {count : Node} {sem : Sem β}
  {number : β → Number}

/-- The number of dice is evaluated and rounded. -/
private theorem simulates_times
    (h : Simulates count evaluate sem fun value _ b => value = .number (number b)) :
    Simulates count (EvalM.rounded evaluate) (sem >>= fun b => Sem.demand (number b).roundHalfUp)
      fun a _ b => a = b := by
  unfold EvalM.rounded
  refine (h.number fun _ _ _ same => same).bind fun a node' b found => ?_
  rw [found.1]
  exact (Simulates.ofNumber _).mono fun _ _ _ h => h.1

/-- A roll whose sides cannot be rounded has no value. -/
theorem simulates_roll_of_throw {rel : Value → Node → List Die → Prop} {sides : Sides} {e : Fault}
    (hsides : Roll.sideCount sides = throw e)
    (h : Simulates count evaluate sem fun value _ b => value = .number (number b)) :
    Simulates (Expr.plainRoll count sides) (EvalM.roll rules evaluate)
      (sem >>= fun b => Sem.demand (number b).roundHalfUp >>= fun _ => throw e) rel := by
  unfold EvalM.roll
  refine .requireChildren_bind rfl ?_
  rw [← bind_assoc]
  refine (Simulates.onChild rfl (simulates_times h)).bind fun times node' times' found => ?_
  obtain ⟨child, rfl, rfl⟩ := found
  have read : Simulates ((Expr.plainRoll count sides).setChild 0 child) EvalM.rollSides
      (Roll.sideCount sides) fun a node' b => a = b ∧ node' = _ := simulates_rollSides rfl rfl rfl
  rw [hsides] at read
  exact read.bind_of_throw

/-- A `dice` node is rolled as the semantics says. -/
theorem simulates_roll {sides : Sides} {sides' : Option Int}
    (hsides : Roll.sideCount sides = Pure.pure sides')
    (h : Simulates count evaluate sem fun value _ b => value = .number (number b)) :
    Simulates (Expr.plainRoll count sides) (EvalM.roll rules evaluate)
      (sem >>= fun b => Sem.demand (number b).roundHalfUp >>= fun times =>
        Roll.start rules.limits rules.source times sides') (Modified (shownSides sides')) := by
  unfold EvalM.roll
  refine .requireChildren_bind rfl ?_
  rw [← bind_assoc]
  refine (Simulates.onChild rfl (simulates_times h)).bind fun times node' times' found => ?_
  obtain ⟨child, rfl, rfl⟩ := found
  -- The sides are read before the dice of the node are thrown away.
  have read : Simulates ((Expr.plainRoll count sides).setChild 0 child) EvalM.rollSides
      (Roll.sideCount sides) fun a node' b => a = b ∧ node' = _ := simulates_rollSides rfl rfl rfl
  rw [hsides] at read
  have started : Roll.start rules.limits rules.source times sides' =
      (Pure.pure sides' : Sem (Option Int)) >>= Roll.start rules.limits rules.source times := rfl
  rw [started]
  refine read.of_pure.bind fun a node' b found => ?_
  obtain ⟨rfl, rfl, rfl⟩ := found
  refine .modifyNode_bind ?_
  refine (simulates_within _ times).bind fun countAllowed node' countAllowed' found => ?_
  obtain ⟨rfl, rfl⟩ := found
  -- The notes on the node do not touch the sides that it shows.
  have kept : Node.get? (((((Expr.plainRoll count sides).setChild 0 child).withChildren []).set
      "count" (.int times)).set "sides" (shownSides a)) "sides" = some (shownSides a) := by
    rw [Node.get?_set, if_pos rfl]
  cases a with
  -- Fate dice have no number of sides to test.
  | none => exact simulates_throwDice (countAllowed && true) times none rfl rfl kept
  | some s =>
    refine (simulates_within _ s).bind fun sidesAllowed node' sidesAllowed' found => ?_
    obtain ⟨rfl, rfl⟩ := found
    exact simulates_throwDice (countAllowed && sidesAllowed) times (some s) rfl rfl kept

end Rolls

end DiceNotation
