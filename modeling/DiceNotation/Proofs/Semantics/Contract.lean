import DiceNotation.Proofs.Range.InRange
import DiceNotation.Proofs.Semantics.DiceNodes

/-! # Contracts of steps

`Simulates` compares a step with a computation of the semantics.  A contract speaks of the step
alone: `Ensures allowed node trace step post` says that the step, with `node` in focus after
`trace` has been observed, comes to a result, a node and a trace as `post` says, or to a fault
that is allowed.

There is one rule for each way to compose steps and for each primitive step, so that a rule of
the evaluator is followed from its first line to its last.  A step that cannot fail and leaves no
trace is run (`run_bind`).

* `of_simulates`   a step that does what a safe computation does -/

namespace DiceNotation

open DiceNotation.EvalM (onChild onDice)

/-- The step has a result as `post` says, or else comes to a fault that is allowed.  This is a
    structure so that the step is never run to find out what is said of it. -/
structure Ensures (allowed : Fault → Prop) (node : Node) (trace : Trace) (step : EvalM α)
    (post : α → Node → Trace → Prop) : Prop where
  met : ∀ record : Record, record.trace = trace →
    match step ⟨node, record⟩ with
    | .ok a t => post a t.node t.record.trace
    | .error e _ => allowed e

namespace Ensures

variable {α β γ : Type} {allowed : Fault → Prop} {node : Node} {trace : Trace} {step : EvalM α}
  {post : α → Node → Trace → Prop} {post' : β → Node → Trace → Prop}

/-! ## Composing steps -/

/-- A step that only returns a result ensures what holds of it. -/
theorem pure {a : α} (h : post a node trace) :
    Ensures allowed node trace (Pure.pure a) post := by
  constructor
  intro record same
  subst same
  exact h

/-- A step that fails is fine if the fault is allowed. -/
theorem throw {e : Fault} (h : allowed e) :
    Ensures allowed node trace (MonadExcept.throw e : EvalM α) post :=
  ⟨fun _ _ => h⟩

/-- What is ensured can be weakened. -/
theorem mono {weaker : α → Node → Trace → Prop} (h : Ensures allowed node trace step post)
    (implied : ∀ a node' trace', post a node' trace' → weaker a node' trace') :
    Ensures allowed node trace step weaker := by
  constructor
  intro record same
  have met := h.met record same
  cases run : step ⟨node, record⟩ with
  | ok a t =>
    rw [run] at met
    exact implied a t.node t.record.trace met
  | error e t =>
    rw [run] at met
    exact met

/-- A step followed by another ensures what the second one does from wherever the first one ends. -/
theorem bind {next : α → EvalM β} (h : Ensures allowed node trace step post)
    (hnext : ∀ a node' trace', post a node' trace' →
      Ensures allowed node' trace' (next a) post') :
    Ensures allowed node trace (step >>= next) post' := by
  constructor
  intro record same
  have met := h.met record same
  show match EStateM.bind step next ⟨node, record⟩ with
    | .ok a t => post' a t.node t.record.trace
    | .error e _ => allowed e
  -- The second step starts in the state that the first one has reached.
  unfold EStateM.bind
  cases run : step ⟨node, record⟩ with
  | ok a t =>
    rw [run] at met
    exact (hnext a t.node t.record.trace met).met t.record rfl
  | error e t =>
    rw [run] at met
    exact met

/-- What a step comes to is known, whatever has been recorded. -/
theorem of_run {a : α} {node' : Node} (run : ∀ record, step ⟨node, record⟩ = .ok a ⟨node', record⟩)
    (h : post a node' trace) : Ensures allowed node trace step post := by
  constructor
  intro record same
  subst same
  rw [run record]
  exact h

/-- A step whose run is known leaves only what follows it to be shown. -/
theorem run_bind {next : α → EvalM β} {a : α} {node' : Node}
    (run : ∀ record, step ⟨node, record⟩ = .ok a ⟨node', record⟩)
    (h : Ensures allowed node' trace (next a) post') :
    Ensures allowed node trace (step >>= next) post' := by
  have ran : Ensures allowed node trace step fun b after trace' =>
      b = a ∧ after = node' ∧ trace' = trace := of_run run ⟨rfl, rfl, rfl⟩
  apply ran.bind
  intro b after trace' found
  obtain ⟨rfl, rfl, rfl⟩ := found
  exact h

/-- A step does what a safe computation does. -/
theorem of_simulates {sem : Sem β} {rel : α → Node → β → Prop} (h : Simulates node step sem rel)
    (safe : Sem.Safe allowed sem trace) :
    Ensures allowed node trace step fun a node' trace' =>
      ∃ b, sem trace = .ok b trace' ∧ rel a node' b := by
  constructor
  intro record same
  subst same
  have agree := h record
  -- The simulation says that both succeed or both fail, with the same trace.
  cases run : sem record.trace with
  | ok b trace' =>
    rw [run] at agree
    generalize step ⟨node, record⟩ = result at agree ⊢
    cases agree with
    | ok related => exact ⟨b, rfl, related⟩
  | error e trace' =>
    rw [run] at agree
    have permitted := safe e trace' run
    generalize step ⟨node, record⟩ = result at agree ⊢
    cases agree with
    | error => exact permitted

/-- A step comes to what a safe computation comes to, and leaves the node as it was. -/
theorem compute_bind {sem : Sem α} {next : α → EvalM β}
    (h : Simulates node step sem fun a node' b => a = b ∧ node' = node)
    (safe : Sem.Safe allowed sem trace)
    (hnext : ∀ a trace', sem trace = .ok a trace' →
      Ensures allowed node trace' (next a) post') :
    Ensures allowed node trace (step >>= next) post' := by
  apply (of_simulates h safe).bind
  intro a _ trace' found
  obtain ⟨_, computed, rfl, rfl⟩ := found
  exact hnext a trace' computed

/-! ## Primitive steps -/

section Primitives

variable {next : Unit → EvalM β}

/-- Looking at the node in focus leaves only what follows to be shown. -/
theorem node_bind {next : Node → EvalM β} (h : Ensures allowed node trace (next node) post') :
    Ensures allowed node trace (EvalM.node >>= next) post' :=
  run_bind (fun _ => rfl) h

/-- Counting the children leaves only what follows to be shown. -/
theorem childCount_bind {next : Nat → EvalM β}
    (h : Ensures allowed node trace (next node.childCount) post') :
    Ensures allowed node trace (EvalM.childCount >>= next) post' :=
  run_bind (fun _ => rfl) h

/-- Changing the node in focus ensures what holds of the changed node. -/
theorem modifyNode {f : Node → Node} {post : Unit → Node → Trace → Prop}
    (h : post () (f node) trace) : Ensures allowed node trace (EvalM.modifyNode f) post :=
  of_run (fun _ => rfl) h

/-- What follows a change is shown for the changed node. -/
theorem modifyNode_bind {f : Node → Node} (h : Ensures allowed (f node) trace (next ()) post') :
    Ensures allowed node trace (EvalM.modifyNode f >>= next) post' :=
  run_bind (fun _ => rfl) h

/-- A note leaves neither problem nor request. -/
theorem note_bind {n : Note} (h : Ensures allowed node trace (next ()) post') :
    Ensures allowed node trace (EvalM.note n >>= next) post' :=
  ⟨fun record same => h.met (record.note n) same⟩

/-- Nothing is refused if the number of children is right. -/
theorem requireChildren_bind {needed : Nat} (count : node.childCount = needed)
    (h : Ensures allowed node trace (next ()) post') :
    Ensures allowed node trace (EvalM.requireChildren needed >>= next) post' :=
  run_bind (EvalM.run_requireChildren count) h

/-- Nothing is refused if the number of children is in range. -/
theorem requireChildrenUpTo_bind {most : Nat}
    (count : 0 < node.childCount ∧ node.childCount ≤ most)
    (h : Ensures allowed node trace (next ()) post') :
    Ensures allowed node trace (EvalM.requireChildrenUpTo most >>= next) post' :=
  run_bind (EvalM.run_requireChildrenUpTo count) h

/-- A numeric result is returned, or it is out of range and that is allowed. -/
theorem ofNumber (lenient : ∀ e, allowed (.outOfRange e)) {number : Except NumberError α} :
    Ensures allowed node trace (EvalM.ofNumber number) fun a node' trace' =>
      number = .ok a ∧ node' = node ∧ trace' = trace := by
  cases number with
  | ok a => exact pure ⟨rfl, rfl, rfl⟩
  | error e => exact throw (lenient e)

/-- A draw is what the source answers at this place of the trace. -/
theorem draw_bind {rules : Rules} {faces : Faces} {next : Draw → EvalM β}
    (h : Ensures allowed node trace (next (trace.answers rules.source faces)) post') :
    Ensures allowed node trace (EvalM.draw rules faces >>= next) post' := by
  constructor
  intro record same
  subst same
  exact h.met record rfl

/-- Requests are put behind those of the trace. -/
theorem request_bind {faces : Faces} {count : Nat}
    (h : Ensures allowed node (trace.after faces count) (next ()) post') :
    Ensures allowed node trace (EvalM.request faces count >>= next) post' := by
  constructor
  intro record same
  have recorded : (record.request faces count).trace = trace.after faces count := by
    rw [← same]
    simp [Record.request, Record.trace, Trace.after]
  exact h.met (record.request faces count) recorded

end Primitives

/-! ## Moving the focus -/

/-- A step on a child ensures of the node that only this child has changed. -/
theorem onChild {i : Nat} {child : Node} (hchild : node.children[i]? = some child)
    (h : Ensures allowed child trace step post) :
    Ensures allowed node trace (EvalM.onChild i step) fun a node' trace' =>
      ∃ child', node' = node.setChild i child' ∧ post a child' trace' := by
  constructor
  intro record same
  have met := h.met record same
  unfold EvalM.onChild
  simp only [hchild]
  -- A failure of the child is one of the node.
  cases run : step ⟨child, record⟩ with
  | ok a t =>
    rw [run] at met
    exact ⟨t.node, rfl, met⟩
  | error e t =>
    rw [run] at met
    exact met

/-- A step with a child in focus that is run. -/
theorem run_onChild {i : Nat} {child child' : Node} {a : α}
    (hchild : node.children[i]? = some child)
    (run : ∀ record, step ⟨child, record⟩ = .ok a ⟨child', record⟩) (record : Record) :
    EvalM.onChild i step ⟨node, record⟩ = .ok a ⟨node.setChild i child', record⟩ := by
  simp only [EvalM.onChild, hchild, run record]

/-- A step with the roll in focus that is run. -/
theorem run_onDice {dice dice' : Node} {a : α} (hdice : node.findDice? = some dice)
    (run : ∀ record, step ⟨dice, record⟩ = .ok a ⟨dice', record⟩) (record : Record) :
    EvalM.onDice step ⟨node, record⟩ = .ok a ⟨node.replaceDice dice', record⟩ := by
  simp only [EvalM.onDice, hdice, run record]

end Ensures

end DiceNotation
