import DiceNotation.Proofs.Memory.Resumption
import DiceNotation.Proofs.Printing.RoundTrip

/-! # The order of evaluation does not matter

The nodes of a tree may be evaluated one by one, in any order and any number of times, before its
root is evaluated.  If there are no dice in the tree then this makes no difference to what the root
comes to, even where evaluations fail on the way, or where members of a group have values before the
group is repeated.

* `evolved_onPath`         one evaluation, of any node
* `evaluate_after_nodes`   parsed texts -/

namespace DiceNotation

open DiceNotation.EvalM (evaluateWithin)

namespace EvalM

variable {α σ : Type}

/-- What a computation comes to: a result or a fault. -/
def outcome (step : EStateM Fault σ α) (s : σ) : Except Fault α :=
  match step s with
  | .ok a _ => .ok a
  | .error e _ => .error e

/-- What a step leaves behind, whether or not it fails. -/
def leave (step : EvalM α) (s : Focus) : Focus :=
  match step s with
  | .ok _ t => t
  | .error _ t => t

/-- Evaluate the nodes at the given places in turn, going on where one fails. -/
def leaveAll (rules : Rules) (paths : List (List Int)) (s : Focus) : Focus :=
  paths.foldl (fun s path => leave (onPath path (evaluate rules)) s) s

/-- A place is not there, or else it is in a child. -/
private theorem leave_onPath_cons (index : Int) (path : List Int) (step : EvalM α) (node : Node)
    (record : Record) :
    leave (onPath (index :: path) step) ⟨node, record⟩ = ⟨node, record⟩ ∨
      ∃ i child, node.children[i]? = some child ∧
        leave (onPath (index :: path) step) ⟨node, record⟩ =
          let t := leave (onPath path step) ⟨child, record⟩
          ⟨node.setChild i t.node, t.record⟩ := by
  have counted : childCount ⟨node, record⟩ = .ok node.childCount ⟨node, record⟩ := rfl
  unfold leave
  rw [onPath]
  simp only [bind, EStateM.bind, counted]
  -- A path that leads nowhere changes nothing; otherwise the step is taken in the child.
  cases Node.position? node.childCount index with
  | none => exact .inl rfl
  | some i =>
    dsimp only
    unfold onChild
    cases found : node.children[i]? with
    | none => exact .inl rfl
    | some child =>
      refine .inr ⟨i, child, found, ?_⟩
      dsimp only
      cases onPath path step ⟨child, record⟩ <;> rfl

end EvalM

/-- A step that realizes a computation comes to the same. -/
private theorem Realizes.outcome {α : Type} {node : Node} {step : EvalM α} {sem : Sem α}
    {fail : Node → Prop} (h : Realizes node step sem (fun a _ b => a = b) fail) (record : Record)
    (trace : Trace) : EvalM.outcome step ⟨node, record⟩ = EvalM.outcome sem trace := by
  have concurs := h.met record trace
  unfold EvalM.outcome
  generalize step ⟨node, record⟩ = result at concurs ⊢
  generalize sem trace = result' at concurs ⊢
  cases concurs with
  | ok same => exact congrArg Except.ok same
  | error _ => rfl

section

variable {limits : Limits} {source : Source} {e : Expr} {node : Node}

/-- An evolved node comes to what its expression means. -/
private theorem outcome_evaluate (h : Evolved limits source e node) (record : Record) :
    EvalM.outcome (EvalM.evaluate ⟨limits, .default, source⟩) ⟨node, record⟩ =
      EvalM.outcome (do return .number (← meaning limits source e).value : Sem Value) {} := by
  have whole : Realizes node (evaluateWithin ⟨limits, .default, source⟩ node.depth)
      (do return .number (← meaning limits source e).value) (fun value _ value' => value = value')
      (Evolved limits source e) := by
    rw [← bind_pure (evaluateWithin _ _)]
    apply (resumes_evolved h (Nat.le_refl node.depth)).bind
    intro value node' m found
    exact .pure found.1.value
  exact whole.outcome record {}

/-- Whatever an evaluation comes to, the node goes on to evolve and keeps a value that it had. -/
private theorem evolved_evaluate (h : Evolved limits source e node) (record : Record) :
    let left := EvalM.leave (EvalM.evaluate ⟨limits, .default, source⟩) ⟨node, record⟩
    Evolved limits source e left.node ∧ node.Keeps left.node := by
  have remembers : Remembers (evaluateWithin ⟨limits, .default, source⟩ node.depth) :=
    remembers_evaluateWithin node.depth_pos
  have concurs := (resumes_evolved h (Nat.le_refl node.depth)).met record {}
  unfold EvalM.leave
  rw [EvalM.evaluate_eq]
  constructor
  · -- Whatever the run comes to, it leaves an evolved node.
    generalize evaluateWithin ⟨limits, .default, source⟩ node.depth ⟨node, record⟩ = result
      at concurs ⊢
    generalize meaning limits source e {} = meant at concurs
    cases concurs with
    | ok related => exact related.2
    | error evolved => exact evolved
  · intro value stored
    rw [remembers.yields stored record]
    exact stored

/-- A node anywhere in the tree is evaluated. -/
theorem evolved_onPath (h : Evolved limits source e node) (path : List Int) (record : Record) :
    let left := EvalM.leave (EvalM.onPath path (EvalM.evaluate ⟨limits, .default, source⟩))
      ⟨node, record⟩
    Evolved limits source e left.node ∧ node.Keeps left.node := by
  induction path generalizing e node with
  | nil => exact evolved_evaluate h record
  | cons index path ih =>
    dsimp only
    -- An index that leads nowhere leaves the tree; else the child has evolved by induction.
    rcases EvalM.leave_onPath_cons index path (EvalM.evaluate ⟨limits, .default, source⟩) node
      record with missing | ⟨i, child, hchild, moved⟩
    · rw [missing]
      exact ⟨h, fun _ stored => stored⟩
    · rw [moved]
      obtain ⟨e', evolved, further⟩ := h.child hchild
      obtain ⟨evolved', keeps⟩ := ih evolved
      exact ⟨further _ evolved' keeps, fun _ stored => stored⟩

/-- Evaluating any places in any order leaves an evolved node. -/
private theorem evolved_leaveAll (paths : List (List Int)) {s : Focus}
    (h : Evolved limits source e s.node) :
    Evolved limits source e (EvalM.leaveAll ⟨limits, .default, source⟩ paths s).node := by
  induction paths generalizing s with
  | nil => exact h
  | cons path paths ih => exact ih (evolved_onPath h path s.record).1

end

/-- Evaluating nodes of a parsed text, one after the other, makes no difference to what the whole
    text comes to, if there are no dice in it. -/
theorem evaluate_after_nodes {text : String} {root : Node} (parsed : parse text = .ok ⟨root, []⟩)
    (noDice : ∀ node ∈ root.preorder, node.kind ≠ .dice) (limits : Limits) (source : Source)
    (paths : List (List Int)) (record record' : Record) :
    EvalM.outcome (EvalM.evaluate ⟨limits, .default, source⟩)
        (EvalM.leaveAll ⟨limits, .default, source⟩ paths ⟨root, record⟩) =
      EvalM.outcome (EvalM.evaluate ⟨limits, .default, source⟩) ⟨root, record'⟩ := by
  obtain ⟨e, rfl, accepts⟩ := accepts_of_parse parsed
  have fresh : Evolved limits source e e.toNode :=
    evolved_toNode (legible_of_accepts accepts) noDice
  have evolved := evolved_leaveAll paths (s := ⟨e.toNode, record⟩) fresh
  rw [outcome_evaluate fresh record']
  exact outcome_evaluate evolved _

/-- A member of a group and the group itself are evaluated first, and a call that fails, which the
    whole text does without. -/
theorem evaluate_after_nodes_group :
    let root := (Expr.binary .add
      (.group [.literal 1, .binary .modulo (.literal 7) (.literal 4)] (some 2))
      (.call "abs" [.literal 4, .call "twice" [.literal 1]])).toNode
    let rules : Rules := ⟨{}, .default, fun _ _ => 1⟩
    parse "\x7b1, 7 % 4\x7d...2 + abs(4, twice(1))" = .ok ⟨root, []⟩ ∧
      (∀ node ∈ root.preorder, node.kind ≠ .dice) ∧
      EvalM.outcome (EvalM.evaluate rules)
        (EvalM.leaveAll rules [[0, 1], [1, 1], [0], [0, -1, 0], [9]] ⟨root, {}⟩) =
          EvalM.outcome (EvalM.evaluate rules) ⟨root, {}⟩ := by
  intro root rules
  have parsed : parse "\x7b1, 7 % 4\x7d...2 + abs(4, twice(1))" = .ok ⟨root, []⟩ := rfl
  have noDice : ∀ node ∈ root.preorder, node.kind ≠ .dice := by decide +kernel
  exact ⟨parsed, noDice, evaluate_after_nodes parsed noDice {} (fun _ _ => 1) _ {} {}⟩

end DiceNotation
