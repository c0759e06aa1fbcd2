import DiceNotation.Proofs.Parsing.Language
import DiceNotation.Proofs.Semantics.Constructs

/-! # The evaluator refines the semantics

The evaluator changes the tree that it works on: it stores values on nodes, puts dice in the
place of numbers, and multiplies the members of groups.  None of this can be observed: from the
tree of an expression it comes to the value, the problems and the requests that `meaning` says,
or to the same fault.

* `simulates_meaning`   evaluation within enough levels, by induction on the expression
* `interpret_refines`   parsed texts -/

namespace DiceNotation

open DiceNotation.Expr (Sides Step)
open DiceNotation.EvalM (evaluateWithin compute)
open Grammar (Accepts)

/-! ## Rolls with modifiers -/

section Rolls

variable {limits : Limits} {source : Source} {functions : FunctionTable}
  {shown : Value} {faces : Faces} {rolled : Sem (List Die)} {roll : Node}

/-- A roll whose value is stored. -/
def Counted (shown : Value) (value : Value) (node : Node) (dice : List Die) : Prop :=
  Modified shown value node dice ∧ node.value? = some (.int (Roll.total dice))

/-- A roll is evaluated to a roll whose value is stored. -/
private theorem simulates_counted {rules : Rules} {levels : Nat} {node : Node}
    (new : node.value? = none)
    (h : Simulates node (compute rules (evaluateWithin rules levels)) rolled (Modified shown)) :
    Simulates node (evaluateWithin rules (levels + 1)) rolled (Counted shown) := by
  refine (simulates_store new h).mono fun value node' dice found => ?_
  obtain ⟨raw, node'', rfl, rfl, rfl, isRoll, rolled⟩ := found
  have total : (Value.int (Roll.total dice)).normalize = .int (Roll.total dice) := rfl
  rw [total]
  refine ⟨⟨rfl, ?_, rolled_set _ rolled⟩, ?_⟩
  · rw [Node.kind_set]
    exact isRoll
  · unfold Node.value?
    rw [Node.get?_set, if_pos rfl]

/-- A modifier that is not evaluated has no value. -/
private theorem value?_step (step : Step) (operand : Node) :
    (step.toNode operand).value? = none := by
  cases step <;> rfl

/-- Modifiers change the dice one after the other. -/
private theorem simulates_modified {rules : Rules} (hfaces : Dice.faces shown = .ok (some faces))
    (h : ∀ levels, roll.depth ≤ levels →
      Simulates roll (evaluateWithin rules levels) rolled (Counted shown))
    (steps : List Step) {levels : Nat} (deep : (Expr.modified roll steps).depth ≤ levels) :
    Simulates (Expr.modified roll steps) (evaluateWithin rules levels)
      (rolled >>= Roll.modify rules.limits rules.source faces steps) (Counted shown) := by
  induction steps using List.reverseRecOn generalizing levels with
  | nil =>
    have same : rolled >>= Roll.modify rules.limits rules.source faces [] = rolled :=
      bind_pure rolled
    rw [same]
    exact h levels deep
  | append_singleton steps step ih =>
    -- The last modifier transforms what the others have left.
    have last : rolled >>= Roll.modify rules.limits rules.source faces (steps ++ [step]) =
        (rolled >>= Roll.modify rules.limits rules.source faces steps) >>=
          Roll.transform rules.limits rules.source faces step := by
      rw [bind_assoc]
      refine bind_congr fun dice => ?_
      unfold Roll.modify
      rw [List.foldlM_append]
      exact bind_congr fun dice => bind_pure _
    rw [Expr.modified_append] at deep ⊢
    -- The modifier is a node of its own and takes one level.
    have below : (Expr.modified roll steps).depth < levels :=
      (Node.depth_lt_of_mem List.mem_cons_self).trans_le deep
    obtain ⟨levels, rfl⟩ := Nat.exists_eq_add_one.mpr (Nat.zero_lt_of_lt below)
    have positive : 0 < levels :=
      (Node.depth_pos _).trans_le (Nat.le_of_lt_succ below)
    rw [last]
    refine simulates_counted (value?_step step _) ?_
    unfold compute
    refine .node_bind ?_
    have operand := (ih (Nat.le_of_lt_succ below)).mono fun _ _ _ counted => counted.1.rolled
    exact simulates_modifier (evaluatesLiterals positive) hfaces operand step

/-- A comparison tests the dice that count. -/
private theorem Counted.evaluated {value : Value} {node : Node} {dice : List Die}
    (h : Counted shown value node dice) : Evaluated value node (.ofDice dice) := by
  obtain ⟨⟨rfl, isRoll, roll, found, -, rfl, faces⟩, stored⟩ := h
  refine ⟨rfl, stored, Dice.live roll.children, ?_, ?_⟩
  · unfold Node.targets?
    rw [if_pos isRoll, found]
    rfl
  · have shows : (Dice.live roll.children).map Node.value? =
        (Dice.live roll.children).map fun node => some (.int (Die.ofNode node).face) :=
      List.map_congr_left fun node hn => (faces node (Dice.mem_live.mp hn).1).value?
    unfold Meaning.ofDice Roll.liveFaces
    rw [shows, ← ofNode_live, List.map_map, List.map_map, List.map_map]
    rfl

/-- A roll is evaluated before its modifiers, and they find the dice that the semantics says. -/
private theorem exists_start {count : Expr} (sides : Sides)
    (h : ∀ levels, count.toNode.depth ≤ levels → Simulates count.toNode
      (evaluateWithin ⟨limits, functions, source⟩ levels) (meaning limits source count) Evaluated) :
    ∃ shown faces rolled, Dice.faces shown = .ok (some faces) ∧
      (∀ levels, (Expr.plainRoll count.toNode sides).depth ≤ levels →
        Simulates (Expr.plainRoll count.toNode sides)
          (evaluateWithin ⟨limits, functions, source⟩ levels) rolled (Counted shown)) ∧
      ∀ steps, meaning limits source (.roll count sides steps) =
        (rolled >>= Roll.modify limits source faces steps) >>= fun dice => pure (.ofDice dice) := by
  -- The count is a child of the roll and has one level less.
  have counted : ∀ {levels}, (Expr.plainRoll count.toNode sides).depth ≤ levels + 1 →
      Simulates count.toNode (evaluateWithin ⟨limits, functions, source⟩ levels)
        (meaning limits source count) fun value _ m => value = .number m.value := by
    intro levels deep
    have below := (Node.depth_lt_of_mem List.mem_cons_self).trans_le deep
    exact (h levels (Nat.le_of_lt_succ below)).mono fun _ _ _ e => e.value
  -- The number of sides is known from the text alone, or else no roll with them has a value.
  rcases Roll.sideCount_cases sides with ⟨sides', hsides⟩ | ⟨e, hsides⟩
  · refine ⟨shownSides sides', Roll.facesOf sides',
      meaning limits source count >>= fun m => Sem.demand m.value.roundHalfUp >>= fun times =>
        Roll.start limits source times sides', faces_shownSides sides', ?_, ?_⟩
    · intro levels deep
      obtain ⟨levels, rfl⟩ := Nat.exists_eq_add_one.mpr ((Node.depth_pos _).trans_le deep)
      refine simulates_counted rfl ?_
      unfold compute
      refine .node_bind ?_
      exact simulates_roll hsides (counted deep)
    · intro steps
      rw [meaning, hsides]
      simp only [bind_assoc, pure_bind]
  · refine ⟨.fate, ⟨-1, 1⟩,
      meaning limits source count >>= fun m => Sem.demand m.value.roundHalfUp >>= fun _ => throw e,
      rfl, ?_, ?_⟩
    · intro levels deep
      obtain ⟨levels, rfl⟩ := Nat.exists_eq_add_one.mpr ((Node.depth_pos _).trans_le deep)
      refine simulates_counted rfl ?_
      unfold compute
      refine .node_bind ?_
      exact simulates_roll_of_throw hsides (counted deep)
    · intro steps
      rw [meaning, hsides]
      simp only [bind_assoc]
      rfl

end Rolls

/-! ## Other expressions -/

section Expressions

variable {limits : Limits} {source : Source} {levels : Nat} {node : Node} {left right : Expr}

/-- A number is computed and stored, and is its own target. -/
private theorem simulates_single {rules : Rules} {sem : Sem Number} {kind : NodeKind}
    (new : node.value? = none)
    (h : Simulates node (compute rules (evaluateWithin rules levels)) sem fun value node' n =>
      value = .number n ∧ node'.kind = kind)
    (plain : kind.isRoll = false ∧ kind ≠ .group) :
    Simulates node (evaluateWithin rules (levels + 1)) (sem >>= fun n => pure (.single n))
      Evaluated := by
  refine (simulates_store new h).map_right fun value node' n found => ?_
  obtain ⟨raw, node'', rfl, rfl, rfl, rfl⟩ := found
  exact evaluated_single plain

/-- The expression is simulated within so many levels. -/
def Within (limits : Limits) (source : Source) (levels : Nat) (e : Expr) : Prop :=
  Simulates e.toNode (evaluateWithin ⟨limits, .default, source⟩ levels) (meaning limits source e)
    Evaluated

/-- One level is enough for a literal. -/
private theorem within_literal (n : Nat) : Within limits source (levels + 1) (.literal n) := by
  unfold Within
  rw [Expr.toNode, evaluateWithin, meaning]
  refine .node_bind ?_
  exact .pure ⟨rfl, rfl, [.integer n], rfl, rfl⟩

/-- The meaning of a negation is a single number. -/
theorem meaning_negate : meaning limits source (.negate left) =
    (do return (← meaning limits source left).value.negate) >>= fun n => pure (.single n) := by
  simp only [meaning, bind_assoc, pure_bind]

/-- The meaning of an operation is a single number. -/
theorem meaning_binary (op : Operator) : meaning limits source (.binary op left right) =
    (do
      let a ← meaning limits source left
      let b ← meaning limits source right
      Sem.operate op a.value b.value) >>= fun n => pure (.single n) := by
  simp only [meaning, bind_assoc]

/-- The meaning of a comparison is a single number. -/
theorem meaning_compare (op : Comparison) : meaning limits source (.compare op left right) =
    (do
      let tested ← meaning limits source left
      if tested.targets.isEmpty then return (0 : Number)
      let threshold ← meaning limits source right
      let passed := tested.targets.countP fun target => op.relates target threshold.value
      return .int passed) >>= fun n => pure (.single n) := by
  rw [meaning, bind_assoc]
  refine bind_congr fun tested => ?_
  cases tested.targets.isEmpty with
  | true => rfl
  | false => simp only [Bool.false_eq_true, if_false, bind_assoc, pure_bind]

/-- A negation takes one level more than its operand. -/
private theorem within_negate (h : Within limits source levels left) :
    Within limits source (levels + 1) (.negate left) := by
  unfold Within
  rw [meaning_negate, Expr.toNode]
  exact simulates_single rfl (simulates_negation h) ⟨rfl, by simp⟩

/-- An operation takes one level more than its operands. -/
private theorem within_binary (op : Operator) (hl : Within limits source levels left)
    (hr : Within limits source levels right) :
    Within limits source (levels + 1) (.binary op left right) := by
  unfold Within
  rw [meaning_binary, Expr.toNode]
  exact simulates_single rfl (simulates_arithmetic op hl hr) ⟨rfl, by simp⟩

/-- A comparison takes one level more than its sides. -/
private theorem within_compare (op : Comparison) (hl : Within limits source levels left)
    (hr : Within limits source levels right) :
    Within limits source (levels + 1) (.compare op left right) := by
  unfold Within
  rw [meaning_compare, Expr.toNode]
  exact simulates_single rfl (simulates_comparison op hl hr) ⟨rfl, by simp⟩

section Call

variable {name : String} {arguments : List Expr} {β : Type} {rel : Value → Node → β → Prop}

/-- A call is a function node. -/
private theorem kind_call : (Expr.call name arguments).toNode.kind = .function := by
  rw [Expr.toNode]
  rfl

/-- A call keeps the name of its function. -/
private theorem get?_name_call : (Expr.call name arguments).toNode.get? "name" = some
    (.text name) := by
  rw [Expr.toNode]
  rfl

/-- A function that is there does what is asked of it. -/
private theorem simulates_known {rules : Rules} {evaluate : EvalM Value} {f : DiceFunction}
    {sem : Sem β} (known : rules.functions.get? name = some f)
    (h : Simulates (Expr.call name arguments).toNode (f.run evaluate) sem rel) :
    Simulates (Expr.call name arguments).toNode (compute rules evaluate) sem rel := by
  unfold compute
  refine .node_bind ?_
  rw [kind_call]
  refine .node_bind ?_
  rw [get?_name_call]
  dsimp only
  rw [known]
  exact h

/-- The call of a function that is not there has no value. -/
private theorem simulates_unknown {rules : Rules} {evaluate : EvalM Value}
    (unknown : rules.functions.get? name = none) :
    Simulates (Expr.call name arguments).toNode (compute rules evaluate)
      (throw (.unknownFunction (some (.text name))) : Sem β) rel := by
  unfold compute
  refine .node_bind ?_
  rw [kind_call]
  refine .node_bind ?_
  rw [get?_name_call]
  dsimp only
  rw [unknown]
  exact Simulates.throw

/-- A call takes one level more than its arguments. -/
private theorem within_call (h : ∀ e ∈ arguments, Within limits source levels e) :
    Within limits source (levels + 1) (.call name arguments) := by
  -- A call that was just parsed has no value.
  have new : (Expr.call name arguments).toNode.value? = none := by
    rw [Expr.toNode]
    rfl
  have plain : NodeKind.function.isRoll = false ∧ NodeKind.function ≠ .group := by decide
  unfold Within
  -- The evaluator finds a function exactly where the semantics has one.
  rcases default_get? name with ⟨label, f, g, hf, hg, applies⟩ | ⟨hf, hg⟩
  · have single : meaning limits source (.call name arguments) =
        Sem.applyTo name arguments.length g (meaningOfOnly limits source arguments) >>= fun n =>
          pure (.single n) := by
      rw [meaning, hg]
    rw [single]
    exact simulates_single new (simulates_known hf (simulates_ofNumber applies h)) plain
  · have unknown : meaning limits source (.call name arguments) =
        throw (.unknownFunction (some (.text name))) := by
      rw [meaning, hg]
    rw [unknown]
    -- An unknown function is found before any argument is evaluated.
    have fails : Simulates (Expr.call name arguments).toNode (compute ⟨limits, .default, source⟩
        (evaluateWithin ⟨limits, .default, source⟩ levels))
        (throw (.unknownFunction (some (.text name))) : Sem Meaning) fun _ _ _ => False :=
      simulates_unknown hf
    refine (simulates_store new fails).mono fun _ _ _ found => ?_
    obtain ⟨_, _, _, _, impossible⟩ := found
    exact impossible.elim

end Call

/-- A group is evaluated once its value is stored. -/
theorem IsGroup.evaluated {value : Value} {m : Meaning} (h : IsGroup value node m) :
    Evaluated value.normalize (node.set "value" value.normalize) m := by
  obtain ⟨kind, sum, values, rfl, rfl, shown⟩ := h
  refine ⟨rfl, ?_, node.children, ?_, shown⟩
  · unfold Node.value?
    rw [Node.get?_set, if_pos rfl]
    rfl
  · exact Node.targets?_of_group kind

/-- A group takes one level more than its members. -/
private theorem within_group {members : List Expr} {repeats : Option Nat}
    (h : ∀ e ∈ members, Within limits source levels e) :
    Within limits source (levels + 1) (.group members repeats) := by
  have new : (Expr.group members repeats).toNode.value? = none := by
    rw [Expr.toNode]
    cases repeats <;> rfl
  have kind : (Expr.group members repeats).toNode.kind = .group := by
    rw [Expr.toNode]
    rfl
  -- The members are evaluated by the step function, and their sum is stored.
  have computed : Simulates (Expr.group members repeats).toNode
      (compute ⟨limits, .default, source⟩ (evaluateWithin ⟨limits, .default, source⟩ levels))
      (meaning limits source (.group members repeats)) IsGroup := by
    unfold compute
    refine .node_bind ?_
    rw [kind, meaning]
    exact simulates_group repeats h
  refine (simulates_store new computed).mono fun value node' m found => ?_
  obtain ⟨raw, node'', rfl, rfl, isGroup⟩ := found
  exact isGroup.evaluated

/-- From the tree of an expression, evaluation comes to what the semantics says. -/
theorem simulates_meaning (e : Expr) (deep : e.toNode.depth ≤ levels) :
    Within limits source levels e := by
  -- What stands below a node can be evaluated with one level less.
  have below : ∀ {e child : Expr} {levels : Nat}, e.toNode.depth ≤ levels + 1 →
      child.toNode ∈ e.toNode.children → child.toNode.depth ≤ levels :=
    fun deep h => Nat.le_of_lt_succ ((Node.depth_lt_of_mem h).trans_le deep)
  -- One case for each construct; the levels shrink along with the expression.
  induction e generalizing levels with
  | literal n =>
    obtain ⟨levels, rfl⟩ := Nat.exists_eq_add_one.mpr ((Node.depth_pos _).trans_le deep)
    exact within_literal n
  | roll count sides steps ih =>
    obtain ⟨shown, faces, rolled, hfaces, h, same⟩ := exists_start sides fun _ deep => ih deep
    rw [Expr.toNode] at deep
    unfold Within
    rw [same steps, Expr.toNode]
    exact (simulates_modified hfaces h steps deep).map_right fun _ _ _ counted => counted.evaluated
  | negate operand ih =>
    obtain ⟨levels, rfl⟩ := Nat.exists_eq_add_one.mpr ((Node.depth_pos _).trans_le deep)
    refine within_negate (ih (below deep ?_))
    simp [Expr.toNode, Node.make]
  | binary op left right ih ih' =>
    obtain ⟨levels, rfl⟩ := Nat.exists_eq_add_one.mpr ((Node.depth_pos _).trans_le deep)
    refine within_binary op (ih (below deep ?_)) (ih' (below deep ?_)) <;>
      simp [Expr.toNode, Node.make]
  | compare op left right ih ih' =>
    obtain ⟨levels, rfl⟩ := Nat.exists_eq_add_one.mpr ((Node.depth_pos _).trans_le deep)
    refine within_compare op (ih (below deep ?_)) (ih' (below deep ?_)) <;>
      simp [Expr.toNode, Node.make]
  | call name arguments ih =>
    obtain ⟨levels, rfl⟩ := Nat.exists_eq_add_one.mpr ((Node.depth_pos _).trans_le deep)
    refine within_call fun e he => ih e he (below deep ?_)
    rw [Expr.toNode, Expr.toNodes_eq_map]
    exact List.mem_map_of_mem he
  | group members repeats ih =>
    obtain ⟨levels, rfl⟩ := Nat.exists_eq_add_one.mpr ((Node.depth_pos _).trans_le deep)
    refine within_group fun e he => ih e he (below deep ?_)
    rw [Expr.toNode, Expr.toNodes_eq_map]
    exact List.mem_map_of_mem he

end Expressions

/-! ## Interpreting parsed texts -/

/-- What can be observed of an interpretation: the total or the fault, the problems collected and
    the random numbers requested. -/
def observe : Except Fault Outcome × Record → EStateM.Result Fault Trace Value
  | (.ok outcome, record) => .ok outcome.total ⟨outcome.problems, record.requests.toList⟩
  | (.error e, record) => .error e record.trace

/-- What can be observed of an interpretation is the meaning of the expression. -/
theorem observe_interpret (limits : Limits) (source : Source) (e : Expr) (record : Record) :
    observe (interpret ⟨limits, .default, source⟩ e.toNode record) =
      (do return .number (← meaning limits source e).value : Sem Value)
        ⟨[], record.requests.toList⟩ := by
  -- The evaluation starts with as many levels as the tree is deep.
  have within : Within limits source e.toNode.depth e := simulates_meaning e (Nat.le_refl _)
  have agree := within { record with problems := #[] }
  -- Problems of earlier evaluations are dropped before the tree is evaluated.
  have started : Record.trace { record with problems := #[] } = ⟨[], record.requests.toList⟩ := rfl
  rw [started] at agree
  rw [interpret_eq]
  change _ = EStateM.bind _ _ _
  unfold EStateM.bind
  generalize evaluateWithin _ _ _ = result at agree ⊢
  generalize meaning limits source e _ = result' at agree ⊢
  cases agree with
  | error => rfl
  | ok evaluated =>
    rw [evaluated.value]
    rfl

/-- Interpreting what is read from a text comes to the total, the problems and the requests that
    the semantics says of the derived expression, or to the same fault. -/
theorem interpret_refines {text : String} {root : Node} (h : parse text = .ok ⟨root, []⟩) :
    ∃ e : Expr, root = e.toNode ∧ Accepts (lex text) e ∧
      ∀ (limits : Limits) (source : Source) (record : Record),
        observe (interpret ⟨limits, .default, source⟩ root record) =
          (do return .number (← meaning limits source e).value : Sem Value)
            ⟨[], record.requests.toList⟩ := by
  obtain ⟨e, rfl, accepts⟩ := accepts_of_parse h
  exact ⟨e, rfl, accepts, fun limits source record => observe_interpret limits source e record⟩

/-- A text with a repeated group of exploding dice, a call and a comparison. -/
theorem interpret_refines_group :
    let root := (Expr.compare .greater (.group [.roll (.literal 3) (.faces 6)
      [.explode false none, .keep true (some 2)], .call "abs" [.negate (.literal 4)]] (some 2))
      (.literal 5)).toNode
    parse "\x7b3d6!kh2, abs(-4)\x7d...2 > 5" = .ok ⟨root, []⟩ ∧
      ∃ e : Expr, root = e.toNode ∧ Accepts (lex "\x7b3d6!kh2, abs(-4)\x7d...2 > 5") e ∧
        ∀ (limits : Limits) (source : Source) (record : Record),
          observe (interpret ⟨limits, .default, source⟩ root record) =
            (do return .number (← meaning limits source e).value : Sem Value)
              ⟨[], record.requests.toList⟩ := by
  intro root
  have read : parse "\x7b3d6!kh2, abs(-4)\x7d...2 > 5" = .ok ⟨root, []⟩ := rfl
  exact ⟨read, interpret_refines read⟩

end DiceNotation
