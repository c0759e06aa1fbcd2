import DiceNotation.Proofs.Memory.Failure
import DiceNotation.Proofs.Printing.RoundTrip

/-! # A failed evaluation fails again

An evaluation of a parsed text that comes to a fault leaves the tree stuck: evaluating it again
comes to the same fault, asks for no random number, reports nothing and leaves the tree as it is.
So what was rolled before the fault is never rolled again, and no problem is collected twice.

* `haltsWithin_of_legible`   by induction on the expression
* `evaluate_error_again`     parsed texts -/

namespace DiceNotation

open DiceNotation.EvalM (evaluateWithin compute)
open DiceNotation.Expr (Sides Step)

section

variable (limits : Limits) (source : Source)

/-- Evaluating the node within as many levels as it has expands it, or leaves it stuck. -/
def HaltsWithin (node : Node) : Prop :=
  ∀ levels, node.depth ≤ levels →
    Halts limits source (evaluateWithin ⟨limits, .default, source⟩ levels) node

section

variable {limits source}

/-- A literal is evaluated without a fault. -/
private theorem haltsWithin_literal {node : Node} (h : node.IsLiteral) :
    HaltsWithin limits source node := by
  obtain ⟨n, value⟩ := h.value?
  intro levels deep trace
  have positive : 0 < levels := node.depth_pos.trans_le deep
  have run : Meets node trace (evaluateWithin ⟨limits, .default, source⟩ levels) (fun _ _ _ => True)
      (Stalls limits) :=
    .of_ensures (.of_run ((remembers_evaluateWithin positive).yields value) trivial)
  exact run.and_ensures
    (evaluable_of_wellFormed limits source (.literal h) node.self_mem_preorder deep trace)

/-- All that a rule for one kind of node needs to know about the children. -/
private theorem haltsWithin_of_compute {node : Node} (wellFormed : node.WellFormed)
    (new : node.value? = none)
    (h : ∀ evaluate, (∀ child ∈ node.children, Remembers evaluate ∧
        (HaltsWithin limits source child → Halts limits source evaluate child)) → ∀ trace,
      Meets node trace (compute ⟨limits, .default, source⟩ evaluate) (fun _ _ _ => True)
        (Stalls limits)) : HaltsWithin limits source node := by
  intro levels deep
  -- Within no levels there is no node, as a node has a depth.
  cases levels with
  | zero =>
    have positive := node.depth_pos
    omega
  | succ levels =>
    apply halts_of_compute new
      (evaluable_of_wellFormed limits source wellFormed node.self_mem_preorder deep)
    apply h
    intro child hchild
    have lower := Node.depth_lt_of_mem hchild
    have positive := child.depth_pos
    exact ⟨remembers_evaluateWithin (by omega), fun halts => halts levels (by omega)⟩

/-- A roll with modifiers halts if its count does: the modifiers are gone through one by one. -/
private theorem haltsWithin_modified {count : Node} (wellFormed : count.WellFormed)
    (h : HaltsWithin limits source count) (sides : Sides) (steps : List Step) :
    HaltsWithin limits source (Expr.modified (Expr.plainRoll count sides) steps) := by
  -- The last modifier is evaluated after what it stands on.
  induction steps using List.reverseRecOn with
  | nil =>
    refine haltsWithin_of_compute (Expr.wellFormed_modified wellFormed sides []) rfl
      fun evaluate below trace => .node_bind ?_
    exact meets_roll rfl rfl ((below count List.mem_cons_self).2 h)
  | append_singleton steps step ih =>
    have whole := Expr.wellFormed_modified wellFormed sides (steps ++ [step])
    rw [Expr.modified_append] at whole ⊢
    refine haltsWithin_of_compute whole (Expr.new_step step)
      fun evaluate below trace => .node_bind ?_
    obtain ⟨remembers, halts⟩ := below _ List.mem_cons_self
    exact meets_modifier (Expr.new_step step) remembers (halts ih)
      (Expr.isRoll_modified count sides steps) (Expr.isArgument_step step)

end

/-- A legible expression can be evaluated, or is left stuck. -/
theorem haltsWithin_of_legible {e : Expr} (legible : e.Legible) :
    HaltsWithin limits source e.toNode := by
  have wellFormed := e.toNode_wellFormed
  -- Each part lies below the node, so it halts by induction; the construct adds its own failures.
  induction e with
  | literal n => exact haltsWithin_literal (Expr.isLiteral_integer n)
  | roll count sides steps ih =>
    rw [Expr.Legible] at legible
    exact haltsWithin_modified count.toNode_wellFormed (ih legible.1 count.toNode_wellFormed) sides
      steps
  | negate operand ih =>
    rw [Expr.Legible] at legible
    refine haltsWithin_of_compute wellFormed rfl fun evaluate below trace => .node_bind ?_
    have halts := (below operand.toNode List.mem_cons_self).2
    exact meets_negation rfl (halts (ih legible operand.toNode_wellFormed))
  | binary op left right ihLeft ihRight =>
    rw [Expr.Legible] at legible
    refine haltsWithin_of_compute wellFormed rfl fun evaluate below trace => .node_bind ?_
    have haltsLeft := (below left.toNode (by simp [Expr.toNode, Node.make])).2
    have haltsRight := (below right.toNode (by simp [Expr.toNode, Node.make])).2
    exact meets_arithmetic rfl op (haltsLeft (ihLeft legible.1 left.toNode_wellFormed))
      (haltsRight (ihRight legible.2 right.toNode_wellFormed))
  | compare op left right ihLeft ihRight =>
    rw [Expr.Legible] at legible
    refine haltsWithin_of_compute wellFormed rfl fun evaluate below trace => .node_bind ?_
    have haltsLeft := (below left.toNode (by simp [Expr.toNode, Node.make])).2
    have haltsRight := (below right.toNode (by simp [Expr.toNode, Node.make])).2
    exact meets_comparison rfl op (haltsLeft (ihLeft legible.1 left.toNode_wellFormed))
      (haltsRight (ihRight legible.2 right.toNode_wellFormed))
  | call name arguments ih =>
    rw [Expr.Legible, Expr.legibleAll_iff] at legible
    rw [Expr.toNode, Expr.toNodes_eq_map] at wellFormed ⊢
    refine haltsWithin_of_compute wellFormed rfl fun evaluate below trace => .node_bind ?_
    have halts : ∀ argument ∈ arguments.map Expr.toNode,
        Halts limits source evaluate argument := by
      intro argument hargument
      obtain ⟨e, he, rfl⟩ := List.mem_map.mp hargument
      exact (below e.toNode hargument).2 (ih e he (legible.2 e he) e.toNode_wellFormed)
    exact meets_function rfl rfl halts
  | group members repeats ih =>
    rw [Expr.Legible, Expr.legibleAll_iff] at legible
    rw [Expr.toNode, Expr.toNodes_eq_map] at wellFormed ⊢
    have new : (Node.make .group (Expr.groupAttributes repeats)
        (members.map Expr.toNode)).value? = none := by
      cases repeats <;> rfl
    have given : (Node.make .group (Expr.groupAttributes repeats)
        (members.map Expr.toNode)).get? "repeat" = repeats.map fun n : Nat => .int n := by
      cases repeats <;> rfl
    -- The repeats were written in the text, so they can be written in a message.
    have small : ∀ n ∈ repeats, (Value.int n).isWritable = true :=
      fun n hn => Expr.writable_iff.mp (legible.2 n hn)
    refine haltsWithin_of_compute wellFormed new fun evaluate below trace => .node_bind ?_
    have halts : ∀ member ∈ members.map Expr.toNode, Halts limits source evaluate member := by
      intro member hmember
      obtain ⟨e, he, rfl⟩ := List.mem_map.mp hmember
      exact (below e.toNode hmember).2 (ih e he (legible.1 e he) e.toNode_wellFormed)
    exact meets_group rfl new repeats given small halts

variable {limits source} in
/-- A failed evaluation of a parsed text is a stable point: evaluating the tree that it left comes
    to the same fault, asks for nothing, reports nothing and changes nothing, whatever limits and
    random numbers it is evaluated with.

    The one hypothesis on the run, `Limits.Expressible`, is about a report that could itself fail:
    that explosions or rerolls have reached a limit which has too many digits to be written.  It
    holds of every run whose limit can be written, whatever was asked for, and under a limit of
    `10 ^ 4300` or more of every run with fewer requests than that.  So it excludes only runs that
    have made `10 ^ 4300` requests. -/
theorem evaluate_error_again {text : String} {root : Node} (parsed : parse text = .ok ⟨root, []⟩)
    {record : Record} {e : Fault} {after : Focus}
    (failed : EvalM.evaluate ⟨limits, .default, source⟩ ⟨root, record⟩ = .error e after)
    (expressible : limits.Expressible after.record.requests.size) :
    ∀ limits' source' record', EvalM.evaluate ⟨limits', .default, source'⟩ ⟨after.node, record'⟩ =
      .error e ⟨after.node, record'⟩ := by
  obtain ⟨expression, rfl, accepts⟩ := accepts_of_parse parsed
  have halts :=
    haltsWithin_of_legible limits source (legible_of_accepts accepts) expression.toNode.depth
    (Nat.le_refl _) record.trace
  have met := halts.met record rfl
  rw [EvalM.evaluate_eq] at failed
  rw [failed] at met
  have stuck : Stuck e after.node := met (by
    rwa [Record.trace, Array.length_toList])
  intro limits' source' record'
  exact stuck limits' source' after.node.depth (Nat.le_refl _) record'

/-- A function is missing behind a group that was repeated, with dice and a remainder by zero in it,
    and behind dice that have exploded. -/
theorem evaluate_error_again_missing :
    let limits : Limits := {}
    let source : Source := fun request _ => 6 - request
    ∃ root e after, parse "\x7b1d6, 7 % 0\x7d...2 - 2d6!>3 * twice(3)" = .ok ⟨root, []⟩ ∧
      EvalM.evaluate ⟨limits, .default, source⟩ ⟨root, {}⟩ = .error e after ∧
      limits.Expressible after.record.requests.size ∧ after.record.requests.size = 5 ∧
      after.record.problems.size = 2 ∧
      ∀ limits' source' record', EvalM.evaluate ⟨limits', .default, source'⟩ ⟨after.node, record'⟩ =
        .error e ⟨after.node, record'⟩ := by
  intro limits source
  let root := (Expr.binary .subtract
    (.group [.roll (.literal 1) (.faces 6) [], .binary .modulo (.literal 7) (.literal 0)] (some 2))
    (.binary .multiply (.roll (.literal 2) (.faces 6) [.explode false (some ⟨.greater, 3⟩)])
      (.call "twice" [.literal 3]))).toNode
  have parsed : parse "\x7b1d6, 7 % 0\x7d...2 - 2d6!>3 * twice(3)" = .ok ⟨root, []⟩ := rfl
  -- The failing run is computed; from there on the theorem speaks for every later run.
  have counts : (match EvalM.evaluate ⟨limits, .default, source⟩ ⟨root, {}⟩ with
      | .ok _ _ => none
      | .error _ t => some (t.record.requests.size, t.record.problems.size)) = some (5, 2) := by
    decide +kernel
  cases failed : EvalM.evaluate ⟨limits, .default, source⟩ ⟨root, {}⟩ with
  | ok total after =>
    rw [failed] at counts
    cases counts
  | error e after =>
    rw [failed] at counts
    obtain ⟨requests, problems⟩ := Prod.mk.inj (Option.some.inj counts)
    have few : 5 < Number.writableBound := by decide +kernel
    have expressible : limits.Expressible after.record.requests.size := .inr (requests ▸ few)
    exact ⟨root, e, after, parsed, failed, expressible, requests, problems,
      evaluate_error_again parsed failed expressible⟩

end

end DiceNotation
