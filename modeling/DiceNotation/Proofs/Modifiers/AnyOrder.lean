import DiceNotation.Proofs.Memory.Stuck
import DiceNotation.Proofs.Modifiers.RankingLayers
import DiceNotation.Proofs.Range.Written

/-! # Rolls in any order

Two rolls of the same dice are followed side by side (`Tallies`), each with its own source of random
numbers and its own record.  They do the same until the dice are thrown, and if the faces drawn for
one of them are those drawn for the other one in some order, the same faces count in the end.  What
a chain of modifiers that rank dice makes of them is computed from these faces alone.

* `tallies_roll`       dice that are filled with the same faces
* `ranking_anyOrder`   chains over such dice that differ in what puts dice in order -/

namespace DiceNotation

open DiceNotation.EvalM (evaluateWithin)
open DiceNotation.Expr (Sides)

/-! ## Two steps side by side -/

/-- Each step starts at its own focus.  They come to the same result and leave what `post` says, or
    they come to the same fault. -/
structure Tallies (before before' : Focus) (step step' : EvalM α)
    (post : α → Focus → Focus → Prop) : Prop where
  met : match step before, step' before' with
    | .ok a after, .ok a' after' => a = a' ∧ post a after after'
    | .error e _, .error e' _ => e = e'
    | _, _ => False

/-- The node is left as it was, and no random number was asked for. -/
structure Quiet (before after : Focus) : Prop where
  node : after.node = before.node
  requests : after.record.requests = before.record.requests

namespace Tallies

variable {α β : Type} {before before' middle middle' : Focus} {step step' : EvalM α}
  {post : α → Focus → Focus → Prop} {post' : β → Focus → Focus → Prop}

/-- The same value, wherever the steps start. -/
theorem pure {a : α} (h : post a before before') :
    Tallies before before' (Pure.pure a) (Pure.pure a) post :=
  ⟨rfl, h⟩

/-- Two runs that came to the same fault. -/
private theorem of_errors {e : Fault} (failed : step before = .error e middle)
    (failed' : step' before' = .error e middle') : Tallies before before' step step' post := by
  constructor
  rw [failed, failed']

/-- Two runs that came to the same value. -/
private theorem of_results {a : α} (run : step before = .ok a middle)
    (run' : step' before' = .ok a middle')
    (h : post a middle middle') : Tallies before before' step step' post := by
  constructor
  rw [run, run']
  exact ⟨rfl, h⟩

/-- Steps that tally can be followed by steps that tally where the first ones end. -/
theorem bind {next next' : α → EvalM β} (h : Tallies before before' step step' post)
    (hnext : ∀ a after after', post a after after' →
      Tallies after after' (next a) (next' a) post') :
    Tallies before before' (step >>= next) (step' >>= next') post' := by
  have met := h.met
  constructor
  show match EStateM.bind step next before, EStateM.bind step' next' before' with
    | .ok a after, .ok a' after' => a = a' ∧ post' a after after'
    | .error e _, .error e' _ => e = e'
    | _, _ => False
  unfold EStateM.bind
  cases run : step before with
  -- One run succeeds if and only if the other does, so two of the four cases do not occur.
  | ok a after =>
    cases run' : step' before' with
    | ok a' after' =>
      rw [run, run'] at met
      obtain ⟨rfl, found⟩ := met
      exact (hnext a after after' found).met
    | error e after' =>
      rw [run, run'] at met
      exact met.elim
  | error e after =>
    cases run' : step' before' with
    | ok a' after' =>
      rw [run, run'] at met
      exact met.elim
    | error e' after' =>
      rw [run, run'] at met
      exact met

/-- Both steps are run first. -/
theorem run_bind {a : α} {next next' : α → EvalM β} (run : step before = .ok a middle)
    (run' : step' before' = .ok a middle')
    (h : Tallies middle middle' (next a) (next' a) post') :
    Tallies before before' (step >>= next) (step' >>= next') post' := by
  constructor
  rw [EvalM.bind_of_ok run, EvalM.bind_of_ok run']
  exact h.met

/-- The nodes may be changed in different ways. -/
theorem modifyNode_bind {f f' : Node → Node} {next next' : Unit → EvalM β}
    (h : Tallies ⟨f before.node, before.record⟩ ⟨f' before'.node, before'.record⟩ (next ())
      (next' ()) post') :
    Tallies before before' (EvalM.modifyNode f >>= next) (EvalM.modifyNode f' >>= next') post' :=
  ⟨h.met⟩

/-- A report is quiet: it collects the same problem on both sides. -/
theorem report (problem : Problem) :
    Tallies before before' (EvalM.report problem) (EvalM.report problem)
      fun _ after after' => Quiet before after ∧ Quiet before' after' := by
  constructor
  unfold EvalM.report
  cases problem.isWritable with
  | true => exact ⟨rfl, ⟨rfl, rfl⟩, ⟨rfl, rfl⟩⟩
  | false => exact rfl

/-- Behind quiet steps, the nodes are as they were and the requests too. -/
private theorem quiet_bind {next next' : α → EvalM β}
    (h : Tallies before before' step step' fun _ after after' =>
      Quiet before after ∧ Quiet before' after')
    (hnext : ∀ a record record', record.requests = before.record.requests →
      record'.requests = before'.record.requests →
      Tallies ⟨before.node, record⟩ ⟨before'.node, record'⟩ (next a) (next' a) post') :
    Tallies before before' (step >>= next) (step' >>= next') post' := by
  apply h.bind
  rintro a ⟨node, record⟩ ⟨node', record'⟩ ⟨⟨rfl, same⟩, ⟨rfl, same'⟩⟩
  exact hnext a record record' same same'

/-- A check asks for no random number and leaves the node as it is. -/
private theorem within (bounds : Bounds) (amount : Int) :
    Tallies before before' (EvalM.within bounds amount) (EvalM.within bounds amount)
      fun _ after after' => Quiet before after ∧ Quiet before' after' := by
  have unchanged : Tallies before before' (Pure.pure true : EvalM Bool) (Pure.pure true)
      fun _ after after' => Quiet before after ∧ Quiet before' after' :=
    .pure ⟨⟨rfl, rfl⟩, ⟨rfl, rfl⟩⟩
  unfold EvalM.within
  -- Each outcome of the check draws nothing and leaves the node.
  by_cases few : amount < bounds.least
  · rw [if_pos few]
    exact (report _).bind fun _ _ _ quiet => .pure quiet
  · rw [if_neg few]
    cases bounds.most with
    | none => exact unchanged
    | some limit =>
      dsimp only
      by_cases many : (limit : Int) < amount
      · rw [if_pos many]
        refine .run_bind rfl rfl ((report _).bind fun _ _ _ quiet => .pure ?_)
        exact ⟨⟨quiet.1.node, quiet.1.requests⟩, ⟨quiet.2.node, quiet.2.requests⟩⟩
      · rw [if_neg many]
        exact unchanged

end Tallies

/-! ## Rolls -/

/-- The faces that are drawn for dice after a trace. -/
def Roll.drawn (source : Source) (trace : Trace) (times : Int) (sides : Option Int) : List Int :=
  (List.range times.toNat).map (trace.answers source (Roll.facesOf sides))

/-- Both runs leave a roll with the same faces, in some order, and come to their sum. -/
def ThrownAlike (attributes : OrderedMap Value) (value : Value) (after after' : Focus) : Prop :=
  ∃ times shown dice dice', value = .int (Dice.total dice) ∧
    after.node = .thrown attributes times shown dice ∧
    after'.node = .thrown attributes times shown dice' ∧
    (∀ die ∈ dice, die.IsDiceRoll) ∧ (∀ die ∈ dice', die.IsDiceRoll) ∧
    (Dice.liveFaces dice).Perm (Dice.liveFaces dice')

/-- The faces of a fresh roll are those that were drawn. -/
theorem Dice.liveFaces_fresh (sides : Value) (draw : Draw) (count : Nat) :
    Dice.liveFaces (Dice.fresh sides draw count) = (List.range count).map draw := by
  unfold Dice.liveFaces Roll.liveFaces Dice.fresh
  rw [List.map_map, List.filter_eq_self.mpr, List.map_map]
  · rfl
  · intro die hdie
    obtain ⟨k, -, rfl⟩ := List.mem_map.mp hdie
    rfl

section

variable {limits : Limits} {functions : FunctionTable} {source source' : Source} {levels : Nat}
  {attributes sidesAttributes : OrderedMap Value} {count : Node} {record record' : Record}
  {first first' : Focus} {times : Int} {shown : Option Int} {n : Number} {sides : Sides}

/-- What is thrown is the same in both runs, but for the order of the faces. -/
private theorem tallies_throwDice (ok : Bool)
    (same : (Roll.drawn source record.trace times shown).Perm
      (Roll.drawn source' record'.trace times shown)) :
    Tallies ⟨.thrown attributes times shown [], record⟩ ⟨.thrown attributes times shown [], record'⟩
      (EvalM.throwDice ⟨limits, functions, source⟩ ok times shown)
      (EvalM.throwDice ⟨limits, functions, source'⟩ ok times shown) (ThrownAlike attributes) := by
  -- Each run throws dice on its own; that they show the same faces is known of the draws only.
  have thrown (source : Source) (record : Record) : ∃ dice after,
      EvalM.throwDice ⟨limits, functions, source⟩ ok times shown
        ⟨.thrown attributes times shown [], record⟩ = .ok (.int (Dice.total dice)) after ∧
      after.node = .thrown attributes times shown dice ∧ (∀ die ∈ dice, die.IsDiceRoll) ∧
      Dice.liveFaces dice = if ok then Roll.drawn source record.trace times shown else [] := by
    obtain ⟨_, after, run, dice, threw, rfl, node⟩ := (ensures_throwDice ok times shown).result
    refine ⟨dice, after, run, node, isDiceRoll_of_throwDice threw, ?_⟩
    have which : _ = dice := congrArg Prod.fst threw
    rw [← which]
    cases ok with
    | true => exact Dice.liveFaces_fresh _ _ _
    | false => rfl
  obtain ⟨dice, after, run, node, shape, faces⟩ := thrown source record
  obtain ⟨dice', after', run', node', shape', faces'⟩ := thrown source' record'
  -- The same faces have the same sum, in whatever order they were drawn.
  have perm : (Dice.liveFaces dice).Perm (Dice.liveFaces dice') := by
    rw [faces, faces']
    cases ok with
    | true => exact same
    | false => exact .refl _
  rw [Dice.total_eq_of_perm perm] at run
  refine .of_results run run' ⟨times, shown, dice, dice', ?_, node, node', shape, shape', perm⟩
  rw [Dice.total_eq_of_perm perm]

/-- A stored value can be rounded or not. -/
private theorem rounded_cases (value : Value) :
    (∃ k, ∀ node, Yields k node (EvalM.rounded (pure value))) ∨
      ∃ e, ∀ node, Refuses e node (EvalM.rounded (pure value)) := by
  -- Whether it is a number and can be rounded depends on the value alone.
  cases number : value.number? with
  | none =>
    have read : EvalM.rounded (pure value) = throw .notANumber := by
      unfold EvalM.rounded EvalM.number
      rw [pure_bind, number]
      rfl
    rw [read]
    exact .inr ⟨.notANumber, fun _ _ => rfl⟩
  | some n =>
    have read : EvalM.rounded (pure value) = EvalM.ofNumber n.roundHalfUp := by
      unfold EvalM.rounded EvalM.number
      rw [pure_bind, number]
      rfl
    rw [read]
    cases rounded : n.roundHalfUp with
    | ok k => exact .inl ⟨k, fun _ _ => rfl⟩
    | error reason => exact .inr ⟨_, fun _ => refuses_ofNumber rfl⟩

/-- The sides of a roll are read off its second child, whatever the first one is. -/
private theorem rollSides_cases (sides : Node) :
    (∃ shown, ∀ attributes count,
      Yields shown ⟨.dice, attributes, [count, sides]⟩ EvalM.rollSides) ∨
    ∃ e, ∀ attributes count, Refuses e ⟨.dice, attributes, [count, sides]⟩ EvalM.rollSides := by
  obtain ⟨kind, own, children⟩ := sides
  -- Without sides as its second child every roll is refused.
  by_cases isSides : kind = .diceSides
  case neg =>
    refine .inr ⟨.noSides, fun attributes count record => ?_⟩
    cases kind <;> first | rfl | exact absurd rfl isSides
  case pos =>
    subst isSides
    cases stored : Node.value? ⟨.diceSides, own, children⟩ with
    | none =>
      refine .inr ⟨.noSides, fun attributes count record => ?_⟩
      unfold EvalM.rollSides
      rw [EvalM.run_node_bind]
      simp only [List.getElem?_cons_succ, List.getElem?_cons_zero, stored]
      rfl
    | some value =>
      -- What is read of the sides does not depend on the attributes, the count or the record.
      have read (attributes : OrderedMap Value) (count : Node) (record : Record) :
          EvalM.rollSides ⟨⟨.dice, attributes, [count, ⟨.diceSides, own, children⟩]⟩, record⟩ =
            (if value.isFate then return none
              else return some (← EvalM.rounded (pure value)) : EvalM (Option Int))
            ⟨⟨.dice, attributes, [count, ⟨.diceSides, own, children⟩]⟩, record⟩ := by
        unfold EvalM.rollSides
        rw [EvalM.run_node_bind]
        simp only [List.getElem?_cons_succ, List.getElem?_cons_zero, stored]
      cases fate : value.isFate with
      | true =>
        simp only [fate, if_true] at read
        exact .inl ⟨none, fun attributes count record => read attributes count record⟩
      | false =>
        simp only [fate, Bool.false_eq_true, if_false] at read
        rcases rounded_cases value with ⟨k, yields⟩ | ⟨e, refuses⟩
        · refine .inl ⟨some k, fun attributes count record => ?_⟩
          rw [read]
          exact (yields _).bind (yields_pure (some k)) record
        · refine .inr ⟨e, fun attributes count record => ?_⟩
          rw [read]
          exact (refuses _).bind record

/-- What is drawn depends on the number of requests so far. -/
private theorem drawn_congr {source : Source} {record record' : Record}
    (same : record.requests = record'.requests) :
    Roll.drawn source record.trace times shown = Roll.drawn source record'.trace times shown := by
  unfold Roll.drawn Trace.answers Record.trace
  rw [same]

/-- A number that can be rounded is given as an integer. -/
theorem run_rounded {evaluate : EvalM Value} {before after : Focus} {k : Int}
    (run : evaluate before = .ok (.number n) after) (rounded : n.roundHalfUp = .ok k) :
    EvalM.rounded evaluate before = .ok k after := by
  unfold EvalM.rounded EvalM.number
  rw [bind_assoc, EvalM.bind_of_ok run]
  show EvalM.ofNumber n.roundHalfUp after = _
  rw [rounded]
  rfl

/-- A number that cannot be rounded is out of range. -/
private theorem run_rounded_error {evaluate : EvalM Value} {before after : Focus}
    {reason : NumberError}
    (run : evaluate before = .ok (.number n) after) (rounded : n.roundHalfUp = .error reason) :
    EvalM.rounded evaluate before = .error (.outOfRange reason) after := by
  unfold EvalM.rounded EvalM.number
  rw [bind_assoc, EvalM.bind_of_ok run]
  show EvalM.ofNumber n.roundHalfUp after = _
  rw [rounded]
  rfl

/-- A roll that was thrown leaves its faces, and comes to their sum. -/
private theorem leavesFaces_thrown {dice : List Node} (shape : ∀ die ∈ dice, die.IsDiceRoll)
    (record : Record) :
    LeavesFaces (.ok (Dice.liveFaces dice)) (.ok (.int (Dice.total dice))
      ⟨(Node.thrown attributes times shown dice).store (.int (Dice.total dice)), record⟩) :=
  .ok (.roll rfl) (Node.isThrown_thrown shape) rfl

section

-- Both runs throw as many dice, and draw the same faces for them.
variable {sides : Node}
  (hcount : evaluateWithin ⟨limits, functions, source⟩ levels ⟨count, record⟩ =
    .ok (.number n) first)
  (hcount' : evaluateWithin ⟨limits, functions, source'⟩ levels ⟨count, record'⟩ =
    .ok (.number n) first')
  (same : ∀ times shown, n.roundHalfUp = .ok times →
    Yields shown ⟨.dice, attributes, [count, sides]⟩ EvalM.rollSides →
    (Roll.drawn source first.record.trace times shown).Perm
      (Roll.drawn source' first'.record.trace times shown))
include hcount hcount' same

/-- Two rolls of the same dice, filled with the same faces, are the same but for their order. -/
theorem tallies_roll :
    Tallies ⟨⟨.dice, attributes, [count, sides]⟩, record⟩
      ⟨⟨.dice, attributes, [count, sides]⟩, record'⟩
      (EvalM.roll ⟨limits, functions, source⟩
        (evaluateWithin ⟨limits, functions, source⟩ levels))
      (EvalM.roll ⟨limits, functions, source'⟩
        (evaluateWithin ⟨limits, functions, source'⟩ levels)) (ThrownAlike attributes) := by
  unfold EvalM.roll
  apply Tallies.run_bind (EvalM.run_requireChildren rfl _) (EvalM.run_requireChildren rfl _)
  -- The count is the same in both runs, so both fail here or neither does.
  cases rounded : n.roundHalfUp with
  | error reason =>
    exact .of_errors
      (EvalM.bind_of_error (EvalM.onChild_of_error rfl (run_rounded_error hcount rounded)))
      (EvalM.bind_of_error (EvalM.onChild_of_error rfl (run_rounded_error hcount' rounded)))
  | ok times =>
    apply Tallies.run_bind (EvalM.onChild_of_ok rfl (run_rounded hcount rounded))
      (EvalM.onChild_of_ok rfl (run_rounded hcount' rounded))
    -- The sides are the same node in both runs.
    rcases rollSides_cases sides with ⟨shown, yields⟩ | ⟨e, refuses⟩
    · apply Tallies.run_bind (yields attributes first.node first.record)
        (yields attributes first'.node first'.record)
      have perm := same times shown rounded (yields attributes count)
      apply Tallies.modifyNode_bind
      apply (Tallies.within limits.onCount times).quiet_bind
      intro countAllowed mid mid' asked asked'
      -- What is drawn depends on the requests so far, and the checks make none.
      have thrown (last last' : Record) (quiet : last.requests = mid.requests)
          (quiet' : last'.requests = mid'.requests) :
          (Roll.drawn source last.trace times shown).Perm
            (Roll.drawn source' last'.trace times shown) := by
        rw [drawn_congr (quiet.trans asked), drawn_congr (quiet'.trans asked')]
        exact perm
      cases shown with
      | none => exact tallies_throwDice (countAllowed && true) (thrown _ _ rfl rfl)
      | some s =>
        apply (Tallies.within limits.onSides s).quiet_bind
        intro sidesAllowed last last' quiet quiet'
        exact tallies_throwDice (countAllowed && sidesAllowed) (thrown _ _ quiet quiet')
    · exact .of_errors (EvalM.bind_of_error (refuses attributes first.node first.record))
        (EvalM.bind_of_error (refuses attributes first'.node first'.record))

/-- Two rolls of the same dice, filled with the same faces, leave the same faces. -/
private theorem rolls_leave_same (new : attributes.get? "value" = none) :
    ∃ faces,
      LeavesFaces faces (evaluateWithin ⟨limits, functions, source⟩ (levels + 1)
        ⟨⟨.dice, attributes, [count, sides]⟩, record⟩) ∧
      LeavesFaces faces (evaluateWithin ⟨limits, functions, source'⟩ (levels + 1)
        ⟨⟨.dice, attributes, [count, sides]⟩, record'⟩) := by
  have met := (tallies_roll hcount hcount' same).met
  rw [run_new_roll new, run_new_roll new]
  -- The runs are named so that their results can be told apart by cases.
  revert met
  generalize run : EvalM.roll ⟨limits, functions, source⟩ _ _ = result
  generalize run' : EvalM.roll ⟨limits, functions, source'⟩ _ _ = result'
  intro met
  -- Either both rolls succeed, with the same faces, or both fail with the same fault.
  cases result with
  | ok value after =>
    cases result' with
    | ok value' after' =>
      obtain ⟨nodeAfter, recordAfter⟩ := after
      obtain ⟨nodeAfter', recordAfter'⟩ := after'
      obtain ⟨rfl, times, shown, dice, dice', rfl, rfl, rfl, shape, shape', perm⟩ := met
      rw [EvalM.bind_of_ok run, EvalM.bind_of_ok run']
      refine ⟨_, leavesFaces_thrown shape recordAfter, ?_⟩
      rw [Multiset.coe_eq_coe.mpr perm, Dice.total_eq_of_perm perm]
      exact leavesFaces_thrown shape' recordAfter'
    | error e after' => exact met.elim
  | error e after =>
    cases result' with
    | ok value' after' => exact met.elim
    | error e' after' =>
      obtain rfl : e = e' := met
      rw [EvalM.bind_of_error run, EvalM.bind_of_error run']
      exact ⟨_, .error, .error⟩

end

/-- Chains of modifiers that rank dice, over the same dice, come to the same sum and leave the same
    faces, in some order, if the same faces are drawn, in some order, and the chains differ only in
    what puts dice in order.  What they leave is computed from the faces that are rolled. -/
theorem ranking_anyOrder {sides : Node} {layers layers' : List Layer}
    (new : attributes.get? "value" = none)
    (hcount : evaluateWithin ⟨limits, functions, source⟩ levels ⟨count, record⟩ =
      .ok (.number n) first)
    (hcount' : evaluateWithin ⟨limits, functions, source'⟩ levels ⟨count, record'⟩ =
      .ok (.number n) first')
    (same : ∀ times shown, n.roundHalfUp = .ok times →
      Yields shown ⟨.dice, attributes, [count, sides]⟩ EvalM.rollSides →
      (Roll.drawn source first.record.trace times shown).Perm
        (Roll.drawn source' first'.record.trace times shown))
    (ranks : ∀ layer ∈ layers, layer.RanksDice) (ranks' : ∀ layer ∈ layers', layer.RanksDice)
    (counts : layers.filter Layer.counts = layers'.filter Layer.counts) :
    let rules : Rules := ⟨limits, functions, source⟩
    let rules' : Rules := ⟨limits, functions, source'⟩
    let dice : Node := ⟨.dice, attributes, [count, sides]⟩
    ∃ rolled,
      LeavesFaces rolled (evaluateWithin rules (levels + 1) ⟨dice, record⟩) ∧
      LeavesFaces rolled (evaluateWithin rules' (levels + 1) ⟨dice, record'⟩) ∧
      LeavesFaces (Layer.leavesAll layers rolled)
        (evaluateWithin rules (levels + 1 + layers.length) ⟨dice.under layers, record⟩) ∧
      LeavesFaces (Layer.leavesAll layers rolled)
        (evaluateWithin rules' (levels + 1 + layers'.length) ⟨dice.under layers', record'⟩) := by
  intro rules rules' dice
  obtain ⟨rolled, leaves, leaves'⟩ := rolls_leave_same hcount hcount' same new
  refine ⟨rolled, leaves, leaves', leaves_chain ranks leaves, ?_⟩
  rw [← Layer.leavesAll_filter, counts, Layer.leavesAll_filter]
  exact leaves_chain ranks' leaves'

/-- A five, a three and a five in two orders, of which the highest one is kept and marked.  In one
    of the chains the dice are put in order before and after. -/
theorem ranking_anyOrder_fives :
    let rules (draws : List Int) : Rules :=
      ⟨⟨some 10, some 20, 1⟩, .default, fun request _ => draws.getD request 1⟩
    let dice : Node := .make .dice [] [.integer 3, .diceSides (.int 6)]
    let keep : Layer := ⟨.keep, .ofList [("type", "highest")], [.integer 1]⟩
    let mark : Layer := ⟨.critical, .ofList [("type", "success")], []⟩
    let sort (direction : String) : Layer := ⟨.sort, .ofList [("direction", direction)], []⟩
    let layers := [mark, keep]
    let layers' := [sort "descending", mark, keep, sort "ascending"]
    ∃ faces : Multiset Int,
      LeavesFaces (.ok faces) (evaluateWithin (rules [5, 3, 5]) 4 ⟨dice.under layers, {}⟩) ∧
      LeavesFaces (.ok faces) (evaluateWithin (rules [3, 5, 5]) 6 ⟨dice.under layers', {}⟩) := by
  intro rules dice keep mark sort layers layers'
  have ranksKeep : keep.RanksDice := ⟨rfl, .amount true (n := .int 1) rfl⟩
  have ranksMark : mark.RanksDice := ⟨rfl, .face⟩
  have ranksSort (direction : String) : (sort direction).RanksDice := ⟨rfl, .sort⟩
  have three : (Number.int 3).roundHalfUp = .ok 3 := by decide +kernel
  -- The two sources draw the same three faces in different orders.
  have perm : ∀ times shown, (Number.int 3).roundHalfUp = .ok times →
      Yields shown dice EvalM.rollSides → (Roll.drawn (rules [5, 3, 5]).source {} times shown).Perm
        (Roll.drawn (rules [3, 5, 5]).source {} times shown) := by
    intro times shown rounded _
    obtain rfl : 3 = times := Except.ok.inj (three.symm.trans rounded)
    exact .swap 3 5 [5]
  have counted : evaluateWithin (rules [5, 3, 5]) 1 ⟨.integer 3, {}⟩ =
      .ok (.number (.int 3)) ⟨.integer 3, {}⟩ := rfl
  have counted' : evaluateWithin (rules [3, 5, 5]) 1 ⟨.integer 3, {}⟩ =
      .ok (.number (.int 3)) ⟨.integer 3, {}⟩ := rfl
  -- Both lists hold modifiers that only rank, and the same ones without the sorts.
  have ranks : ∀ layer ∈ layers, layer.RanksDice := by simp [layers, ranksKeep, ranksMark]
  have ranks' : ∀ layer ∈ layers', layer.RanksDice := by
    simp [layers', ranksKeep, ranksMark, ranksSort]
  have differ : layers.filter Layer.counts = layers'.filter Layer.counts := rfl
  obtain ⟨rolled, base, -, run, run'⟩ :=
    ranking_anyOrder rfl counted counted' perm ranks ranks' differ
  -- It remains to see that neither run fails: the dice are thrown and the amount is one.
  have six : (Number.int 6).roundHalfUp = .ok 6 := by decide +kernel
  have admitted : Limits.Admits ⟨some 10, some 20, 1⟩ 3 6 := by decide
  have throws : Throws (rules [5, 3, 5]) 2 .empty (.integer 3) (.diceSides (.int 6)) {} 3 6 :=
    throws_rounded rfl rfl rfl three six admitted
  obtain ⟨_, after, thrown, -⟩ := throws
  have thrown : evaluateWithin (rules [5, 3, 5]) 2 ⟨dice, {}⟩ = .ok _ after := thrown
  have rounded : (Number.int 1).roundHalfUp = .ok 1 := by decide +kernel
  have one : keep.amount = .ok 1 :=
    (Layer.amount_given (n := .int 1) rfl).trans (congrArg (Except.mapError _) rounded)
  have chain (outer inner : Layer) (faces : Multiset Int) :
      Layer.leavesAll [outer, inner] (.ok faces) = inner.leaves faces >>= outer.leaves := rfl
  have keeps (faces : Multiset Int) : ∃ left, keep.leaves faces = .ok left := by
    rw [Layer.leaves_select true rfl, one]
    exact ⟨_, rfl⟩
  -- The dice were thrown, so the chains leave what is kept of them.
  have kept : ∃ faces, Layer.leavesAll layers rolled = .ok faces := by
    have base : LeavesFaces rolled (evaluateWithin (rules [5, 3, 5]) 2 ⟨dice, {}⟩) := base
    rw [thrown] at base
    cases base with
    | ok =>
      obtain ⟨left, keeps⟩ := keeps _
      refine ⟨left, (chain mark keep _).trans ?_⟩
      rw [keeps]
      rfl
  obtain ⟨faces, kept⟩ := kept
  rw [kept] at run run'
  exact ⟨faces, run, run'⟩

end

end DiceNotation
