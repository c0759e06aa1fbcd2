import DiceNotation.Proofs.Semantics.Contract
import DiceNotation.Proofs.Trees.Rolls

/-! # What a step leaves when it fails

A step that fails keeps the changes made before the failure.  `Meets node trace step post fail` is a
contract for both outcomes: it says what a step leaves behind a result, and what behind a fault.

Two kinds of steps change nothing at all, whatever was recorded before: one that `Yields` its result
and one that `Refuses`.  Steps of these kinds can be run again and again.

* `Meets.bind`           a contract for steps one after the other
* `Meets.onChild_bind`   a child is changed first
* `Refuses.yields_bind`  a step that refuses behind one that yields -/

namespace DiceNotation

open DiceNotation.EvalM (evaluateWithin compute)
open Node (StandsOn)

/-! ## Steps that change nothing -/

/-- The step has the result and changes nothing. -/
def Yields (a : α) (node : Node) (step : EvalM α) : Prop :=
  ∀ record, step ⟨node, record⟩ = .ok a ⟨node, record⟩

/-- The step comes to the fault and changes nothing. -/
def Refuses (e : Fault) (node : Node) (step : EvalM α) : Prop :=
  ∀ record, step ⟨node, record⟩ = .error e ⟨node, record⟩

section

variable {α β : Type} {a : α} {b : β} {e : Fault} {node child : Node} {step : EvalM α}
  {next : α → EvalM β} {evaluate : EvalM Value} {n : Number}

/-- A value is given at once. -/
theorem yields_pure (a : α) : Yields a node (pure a) := fun _ => rfl

/-- Steps that give values without a change can be put one behind the other. -/
theorem Yields.bind (h : Yields a node step) (hnext : Yields b node (next a)) :
    Yields b node (step >>= next) := by
  intro record
  show EStateM.bind step next _ = _
  unfold EStateM.bind
  rw [h record]
  exact hnext record

/-- What a step gives at a child without a change, it gives at the parent. -/
theorem Yields.onChild {i : Nat} (hchild : node.children[i]? = some child)
    (h : Yields a child step) : Yields a node (EvalM.onChild i step) := by
  intro record
  unfold EvalM.onChild
  simp only [hchild, h record]
  rw [setChild_self hchild]

/-- A number that is stored is given. -/
theorem Yields.number (h : Yields (Value.number n) node evaluate) :
    Yields n node (EvalM.number evaluate) :=
  h.bind fun _ => rfl

/-- A number that is stored and can be rounded is given as an integer. -/
theorem Yields.rounded (h : Yields (Value.number n) node evaluate) {k : Int}
    (rounded : n.roundHalfUp = .ok k) : Yields k node (EvalM.rounded evaluate) := by
  have counted : Yields k node (EvalM.ofNumber n.roundHalfUp) := by
    rw [rounded]
    exact fun _ => rfl
  exact h.number.bind counted

/-- A node that has a number gives it to whatever remembers. -/
theorem Remembers.yields (h : Remembers evaluate) {value : Value}
    (stored : node.value? = some value) : Yields value node evaluate :=
  fun record => h node value record stored

/-- A node with the needed number of children passes the check. -/
theorem yields_requireChildren {needed : Nat} (count : node.childCount = needed) :
    Yields () node (EvalM.requireChildren needed) :=
  EvalM.run_requireChildren count

/-- A node with one child or more, up to the greatest number, passes the check. -/
private theorem yields_requireChildrenUpTo {most : Nat}
    (count : 0 < node.childCount ∧ node.childCount ≤ most) :
    Yields () node (EvalM.requireChildrenUpTo most) :=
  EvalM.run_requireChildrenUpTo count

/-- The roll that a node stands on is found. -/
theorem yields_onDice {roll : Node} (stands : StandsOn roll node) :
    Yields roll node (EvalM.onDice EvalM.node) := by
  intro record
  have read : ∀ record, EvalM.node ⟨roll, record⟩ = .ok roll ⟨roll, record⟩ := fun _ => rfl
  have looked := Ensures.run_onDice stands.findDice? read record
  rwa [stands.replace_self] at looked

/-- Behind a step that comes to a fault nothing is done. -/
theorem Refuses.bind (h : Refuses e node step) : Refuses e node (step >>= next) := by
  intro record
  show EStateM.bind step next _ = _
  unfold EStateM.bind
  rw [h record]

/-- A step that changes nothing can come before the fault. -/
theorem Refuses.yields_bind (yields : Yields a node step) (h : Refuses e node (next a)) :
    Refuses e node (step >>= next) := by
  intro record
  show EStateM.bind step next _ = _
  unfold EStateM.bind
  rw [yields record]
  exact h record

/-- A fault at a child is one at the parent. -/
theorem Refuses.onChild {i : Nat} (hchild : node.children[i]? = some child)
    (h : Refuses e child step) : Refuses e node (EvalM.onChild i step) := by
  intro record
  unfold EvalM.onChild
  simp only [hchild, h record]
  rw [setChild_self hchild]

/-- Looking at the node can come before the fault. -/
theorem Refuses.node_bind {next : Node → EvalM β} (h : Refuses e node (next node)) :
    Refuses e node (EvalM.node >>= next) :=
  h

/-- Counting the children can come before the fault. -/
theorem Refuses.childCount_bind {next : Nat → EvalM β} (h : Refuses e node (next node.childCount)) :
    Refuses e node (EvalM.childCount >>= next) :=
  h

/-- A check that passes can come before the fault. -/
theorem Refuses.requireChildren_bind {needed : Nat} {next : Unit → EvalM β}
    (count : node.childCount = needed) (h : Refuses e node (next ())) :
    Refuses e node (EvalM.requireChildren needed >>= next) :=
  yields_bind (yields_requireChildren count) h

/-- A check of the greatest number that passes can come before the fault. -/
theorem Refuses.requireChildrenUpTo_bind {most : Nat} {next : Unit → EvalM β}
    (count : 0 < node.childCount ∧ node.childCount ≤ most) (h : Refuses e node (next ())) :
    Refuses e node (EvalM.requireChildrenUpTo most >>= next) :=
  yields_bind (yields_requireChildrenUpTo count) h

/-- A fault in the place of a number stays the same fault. -/
theorem Refuses.number (h : Refuses e node evaluate) : Refuses e node (EvalM.number evaluate) :=
  h.bind

/-- A fault in the place of a number to be rounded stays the same fault. -/
theorem Refuses.rounded (h : Refuses e node evaluate) : Refuses e node (EvalM.rounded evaluate) :=
  h.number.bind

/-- What cannot be computed is out of range. -/
theorem refuses_ofNumber {number : Except NumberError α} {reason : NumberError}
    (fails : number = .error reason) :
    Refuses (.outOfRange reason) node (EvalM.ofNumber number) := by
  subst fails
  exact fun _ => rfl

/-- A number that cannot be rounded. -/
theorem refuses_rounded (h : Yields (Value.number n) node evaluate) {reason : NumberError}
    (fails : n.roundHalfUp = .error reason) :
    Refuses (.outOfRange reason) node (EvalM.rounded evaluate) :=
  .yields_bind h.number (refuses_ofNumber fails)

/-- A problem with too many digits cannot be reported. -/
theorem refuses_report {problem : Problem} (long : problem.isWritable = false) :
    Refuses .tooManyDigits node (EvalM.report problem) := by
  intro record
  unfold EvalM.report
  rw [long]
  rfl

end

/-! ## Contracts for both outcomes -/

/-- The step has a result as `post` says, or else comes to a fault as `fail` says.  Both speak of
    the node and of what has been observed in the end. -/
structure Meets (node : Node) (trace : Trace) (step : EvalM α)
    (post : α → Node → Trace → Prop) (fail : Fault → Node → Trace → Prop) : Prop where
  met : ∀ record : Record, record.trace = trace →
    match step ⟨node, record⟩ with
    | .ok a t => post a t.node t.record.trace
    | .error e t => fail e t.node t.record.trace

namespace Meets

variable {α β : Type} {node : Node} {trace : Trace} {step : EvalM α}
  {post : α → Node → Trace → Prop} {post' : β → Node → Trace → Prop}
  {fail fail' : Fault → Node → Trace → Prop}

/-- A value is a result as it has to be. -/
theorem pure {a : α} (h : post a node trace) : Meets node trace (Pure.pure a) post fail := by
  constructor
  intro record same
  subst same
  exact h

/-- Less can be said of the results and of the faults. -/
theorem mono {weaker : α → Node → Trace → Prop} (h : Meets node trace step post fail)
    (hpost : ∀ a node' trace', post a node' trace' → weaker a node' trace')
    (hfail : ∀ e node' trace', fail e node' trace' → fail' e node' trace') :
    Meets node trace step weaker fail' := by
  constructor
  intro record same
  have met := h.met record same
  cases run : step ⟨node, record⟩ with
  | ok a t =>
    rw [run] at met
    exact hpost a t.node t.record.trace met
  | error e t =>
    rw [run] at met
    exact hfail e t.node t.record.trace met

/-- What is left by the first step is where the next one starts; its faults are those of both. -/
theorem bind {next : α → EvalM β} (h : Meets node trace step post fail)
    (hnext : ∀ a node' trace', post a node' trace' → Meets node' trace' (next a) post' fail) :
    Meets node trace (step >>= next) post' fail := by
  constructor
  intro record same
  have met := h.met record same
  show match EStateM.bind step next ⟨node, record⟩ with
    | .ok a t => post' a t.node t.record.trace
    | .error e t => fail e t.node t.record.trace
  unfold EStateM.bind
  -- A fault of the first step is the fault of both; else the second step goes on from its trace.
  cases run : step ⟨node, record⟩ with
  | ok a t =>
    rw [run] at met
    exact (hnext a t.node t.record.trace met).met t.record rfl
  | error e t =>
    rw [run] at met
    exact met

/-- What is known of the results by another contract. -/
theorem and_ensures {allowed : Fault → Prop} {known : α → Node → Trace → Prop}
    (h : Meets node trace step post fail) (ensures : Ensures allowed node trace step known) :
    Meets node trace step known fail := by
  constructor
  intro record same
  have met := h.met record same
  have known := ensures.met record same
  cases run : step ⟨node, record⟩ with
  | ok a t =>
    rw [run] at known
    exact known
  | error e t =>
    rw [run] at met
    exact met

/-- A step that cannot fail. -/
theorem of_ensures (h : Ensures (fun _ => False) node trace step post) :
    Meets node trace step post fail := by
  constructor
  intro record same
  have met := h.met record same
  cases run : step ⟨node, record⟩ with
  | ok a t =>
    rw [run] at met
    exact met
  | error e t =>
    rw [run] at met
    exact met.elim

/-- A fault that comes without a change, if it is as it has to be. -/
theorem of_refuses {e : Fault} (h : Refuses e node step) (hfail : fail e node trace) :
    Meets node trace step post fail := by
  constructor
  intro record same
  subst same
  rw [h record]
  exact hfail

/-- A step that cannot fail comes first. -/
theorem ensures_bind {next : α → EvalM β} (h : Ensures (fun _ => False) node trace step post)
    (hnext : ∀ a node' trace', post a node' trace' → Meets node' trace' (next a) post' fail) :
    Meets node trace (step >>= next) post' fail :=
  (of_ensures h).bind hnext

/-- A first step with a known result. -/
theorem run_bind {next : α → EvalM β} {a : α} {node' : Node}
    (run : ∀ record, step ⟨node, record⟩ = .ok a ⟨node', record⟩)
    (h : Meets node' trace (next a) post' fail) : Meets node trace (step >>= next) post' fail := by
  have ran : Ensures (fun _ => False) node trace step fun b after trace' =>
      b = a ∧ after = node' ∧ trace' = trace := .of_run run ⟨rfl, rfl, rfl⟩
  apply (of_ensures ran).bind
  intro b after trace' found
  obtain ⟨rfl, rfl, rfl⟩ := found
  exact h

section Primitives

variable {next : Unit → EvalM β}

/-- Looking at the node changes nothing. -/
theorem node_bind {next : Node → EvalM β} (h : Meets node trace (next node) post' fail) :
    Meets node trace (EvalM.node >>= next) post' fail :=
  run_bind (fun _ => rfl) h

/-- Counting the children changes nothing. -/
theorem childCount_bind {next : Nat → EvalM β}
    (h : Meets node trace (next node.childCount) post' fail) :
    Meets node trace (EvalM.childCount >>= next) post' fail :=
  run_bind (fun _ => rfl) h

/-- A change of the node is the place where the next step starts. -/
theorem modifyNode_bind {f : Node → Node} (h : Meets (f node) trace (next ()) post' fail) :
    Meets node trace (EvalM.modifyNode f >>= next) post' fail :=
  run_bind (fun _ => rfl) h

/-- A line in the log is not in the trace. -/
theorem note_bind {n : Note} (h : Meets node trace (next ()) post' fail) :
    Meets node trace (EvalM.note n >>= next) post' fail :=
  ⟨fun record same => h.met (record.note n) same⟩

/-- What will be drawn depends on the trace only. -/
theorem draw_bind {rules : Rules} {faces : Faces} {next : Draw → EvalM β}
    (h : Meets node trace (next (trace.answers rules.source faces)) post' fail) :
    Meets node trace (EvalM.draw rules faces >>= next) post' fail := by
  constructor
  intro record same
  subst same
  exact h.met record rfl

/-- A request is added to the trace. -/
theorem request_bind {faces : Faces} {count : Nat}
    (h : Meets node (trace.after faces count) (next ()) post' fail) :
    Meets node trace (EvalM.request faces count >>= next) post' fail := by
  have asked : Ensures (fun _ => False) node trace (EvalM.request faces count) fun _ node' trace' =>
      node' = node ∧ trace' = trace.after faces count := by
    rw [← bind_pure (EvalM.request faces count)]
    exact .request_bind (.pure ⟨rfl, rfl⟩)
  apply (of_ensures asked).bind
  intro _ _ _ found
  obtain ⟨rfl, rfl⟩ := found
  exact h

/-- A check that passes changes nothing. -/
theorem requireChildren_bind {needed : Nat} (count : node.childCount = needed)
    (h : Meets node trace (next ()) post' fail) :
    Meets node trace (EvalM.requireChildren needed >>= next) post' fail :=
  run_bind (EvalM.run_requireChildren count) h

/-- A check of the greatest number that passes changes nothing. -/
theorem requireChildrenUpTo_bind {most : Nat}
    (count : 0 < node.childCount ∧ node.childCount ≤ most)
    (h : Meets node trace (next ()) post' fail) :
    Meets node trace (EvalM.requireChildrenUpTo most >>= next) post' fail :=
  run_bind (EvalM.run_requireChildrenUpTo count) h

/-- A problem is collected, unless its message has too many digits. -/
theorem report (problem : Problem) :
    Meets node trace (EvalM.report problem)
      (fun _ node' trace' =>
        node' = node ∧ trace' = { trace with problems := trace.problems ++ [problem] })
      fun e node' trace' =>
        problem.isWritable = false ∧ e = .tooManyDigits ∧ node' = node ∧ trace' = trace := by
  constructor
  intro record same
  subst same
  -- A problem whose message cannot be written is refused, and nothing is recorded.
  cases writable : problem.isWritable with
  | false =>
    rw [refuses_report writable record]
    exact ⟨rfl, rfl, rfl, rfl⟩
  | true =>
    unfold EvalM.report
    rw [writable]
    refine ⟨rfl, ?_⟩
    simp [Record.collect, Record.note, Record.trace]

/-- A number is taken as it is, or else out of range. -/
theorem ofNumber (number : Except NumberError α) :
    Meets node trace (EvalM.ofNumber number)
      (fun a node' trace' => number = .ok a ∧ node' = node ∧ trace' = trace)
      fun e node' trace' =>
        ∃ reason, number = .error reason ∧ e = .outOfRange reason ∧ node' = node ∧
          trace' = trace := by
  cases number with
  | ok a => exact pure ⟨rfl, rfl, rfl⟩
  | error reason => exact of_refuses (fun _ => rfl) ⟨reason, rfl, rfl, rfl, rfl⟩

end Primitives

/-- A child is in focus first. -/
theorem onChild_bind {i : Nat} {child : Node} {next : α → EvalM β}
    (hchild : node.children[i]? = some child) (h : Meets child trace step post fail)
    (hfail : ∀ e child' trace', fail e child' trace' → fail' e (node.setChild i child') trace')
    (hnext : ∀ a child' trace', post a child' trace' →
      Meets (node.setChild i child') trace' (next a) post' fail') :
    Meets node trace (EvalM.onChild i step >>= next) post' fail' := by
  -- A fault on the child leaves the node with what the fault has left of the child.
  have moved : Meets node trace (EvalM.onChild i step)
      (fun a node' trace' => ∃ child', node' = node.setChild i child' ∧ post a child' trace')
      fun e node' trace' => fail' e node' trace' := by
    constructor
    intro record same
    have met := h.met record same
    unfold EvalM.onChild
    simp only [hchild]
    cases run : step ⟨child, record⟩ with
    | ok a t =>
      rw [run] at met
      exact ⟨t.node, rfl, met⟩
    | error e t =>
      rw [run] at met
      exact hfail e t.node t.record.trace met
  apply moved.bind
  intro a node' trace' found
  obtain ⟨child', rfl, known⟩ := found
  exact hnext a child' trace' known

/-- A step that comes to a number, taken as one. -/
theorem number {evaluate : EvalM Value} {post : Value → Node → Trace → Prop}
    (h : Meets node trace evaluate post fail)
    (isNumber : ∀ value node' trace', post value node' trace' → ∃ n, value = .number n) :
    Meets node trace (EvalM.number evaluate)
      (fun n node' trace' => post (.number n) node' trace') fail := by
  unfold EvalM.number
  apply h.bind
  intro value node' trace' known
  obtain ⟨n, rfl⟩ := isNumber value node' trace' known
  exact pure known

end Meets

end DiceNotation
