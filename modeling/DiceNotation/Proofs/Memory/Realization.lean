import DiceNotation.Proofs.Memory.Contract

/-! # Steps that come to what a computation comes to

Some computations of the semantics come to the same whatever was observed before.  A step on a tree
`Realizes` a computation if it comes to the same fault or to a related result, whatever is in the
record of the one and in the trace of the other.  Unlike `Simulates` this says nothing of what is
reported on the way, so it also holds of a step that finds a part of its work done.  It does say
what becomes of the node, for a result (`post`) as for a fault (`fail`).

* `Realizes.bind`           steps one after the other
* `Realizes.onChild_bind`   a child is changed first
* `Realizes.of_start`       a computation that only observes more -/

namespace DiceNotation

/-- Related results, or the same fault; the traces may differ. -/
inductive Concurs (post : α → σ → β → Prop) (fail : σ → Prop) :
    EStateM.Result Fault σ α → EStateM.Result Fault Trace β → Prop where
  | ok {a : α} {s : σ} {b : β} {trace : Trace} (related : post a s b) :
      Concurs post fail (.ok a s) (.ok b trace)
  | error {e : Fault} {s : σ} {trace : Trace} (left : fail s) :
      Concurs post fail (.error e s) (.error e trace)

/-- The step comes to what the computation comes to, whatever happened before. -/
structure Realizes (node : Node) (step : EvalM α) (sem : Sem β) (post : α → Node → β → Prop)
    (fail : Node → Prop) : Prop where
  met : ∀ record trace, Concurs (fun a t b => post a (Focus.node t) b)
    (fun t => fail (Focus.node t)) (step ⟨node, record⟩) (sem trace)

namespace Realizes

variable {α β γ δ : Type} {node : Node} {step : EvalM α} {sem : Sem β}
  {post : α → Node → β → Prop} {fail : Node → Prop}

/-! ## Composing steps -/

/-- Two related values realize each other. -/
theorem pure {a : α} {b : β} (h : post a node b) :
    Realizes node (Pure.pure a) (Pure.pure b) post fail :=
  ⟨fun _ _ => .ok h⟩

/-- The same fault on both sides. -/
theorem throw {e : Fault} (h : fail node) :
    Realizes node (MonadExcept.throw e : EvalM α) (MonadExcept.throw e : Sem β) post fail :=
  ⟨fun _ _ => .error h⟩

/-- Less can be said of the results and of what a fault leaves. -/
theorem mono {weaker : α → Node → β → Prop} {fail' : Node → Prop}
    (h : Realizes node step sem post fail)
    (hpost : ∀ a node' b, post a node' b → weaker a node' b)
    (hfail : ∀ node', fail node' → fail' node') : Realizes node step sem weaker fail' := by
  constructor
  intro record trace
  have concurs := h.met record trace
  generalize step ⟨node, record⟩ = result at concurs ⊢
  generalize sem trace = result' at concurs ⊢
  cases concurs with
  | ok related => exact .ok (hpost _ _ _ related)
  | error left => exact .error (hfail _ left)

/-- A step that realizes a computation can be followed by one that realizes what comes behind it. -/
theorem bind {next : α → EvalM γ} {next' : β → Sem δ} {post' : γ → Node → δ → Prop}
    (h : Realizes node step sem post fail)
    (hnext : ∀ a node' b, post a node' b → Realizes node' (next a) (next' b) post' fail) :
    Realizes node (step >>= next) (sem >>= next') post' fail := by
  constructor
  intro record trace
  have concurs := h.met record trace
  show Concurs _ _ (EStateM.bind step next ⟨node, record⟩) (EStateM.bind sem next' trace)
  unfold EStateM.bind
  generalize step ⟨node, record⟩ = result at concurs ⊢
  generalize sem trace = result' at concurs ⊢
  cases concurs with
  | @ok a t b trace' related => exact (hnext a t.node b related).met t.record trace'
  | error left => exact .error left

/-- A step that cannot fail comes first, and nothing corresponds to it. -/
theorem ensures_bind {known : α → Node → Prop} {next : α → EvalM γ} {sem : Sem δ}
    {post' : γ → Node → δ → Prop}
    (h : ∀ trace, Ensures (fun _ => False) node trace step fun a node' _ => known a node')
    (hnext : ∀ a node', known a node' → Realizes node' (next a) sem post' fail) :
    Realizes node (step >>= next) sem post' fail := by
  constructor
  intro record trace
  have met := (h record.trace).met record rfl
  show Concurs _ _ (EStateM.bind step next ⟨node, record⟩) (sem trace)
  unfold EStateM.bind
  -- The step never fails, so only its result is followed.
  cases ran : step ⟨node, record⟩ with
  | ok a t =>
    rw [ran] at met
    exact (hnext a t.node met).met t.record trace
  | error e t =>
    rw [ran] at met
    exact met.elim

/-- A step that gives a value without a change has no counterpart. -/
theorem yields_bind {a : α} {next : α → EvalM γ} {sem : Sem δ} {post' : γ → Node → δ → Prop}
    (h : Yields a node step) (hnext : Realizes node (next a) sem post' fail) :
    Realizes node (step >>= next) sem post' fail := by
  have known (trace : Trace) : Ensures (fun _ => False) node trace step fun a' node' _ =>
      a' = a ∧ node' = node := .of_run h ⟨rfl, rfl⟩
  apply ensures_bind known
  intro a' node' found
  obtain ⟨rfl, rfl⟩ := found
  exact hnext

/-- A computation that comes to what another one comes to, from some trace or other. -/
theorem of_start {sem' : Sem β} (h : Realizes node step sem post fail)
    (same : ∀ trace, ∃ start, sem' trace = sem start) : Realizes node step sem' post fail := by
  constructor
  intro record trace
  obtain ⟨start, same⟩ := same trace
  rw [same]
  exact h.met record start

/-! ## Operations on the node in focus -/

section Primitives

variable {sem : Sem δ} {post : γ → Node → δ → Prop} {next : Unit → EvalM γ}

/-- Looking at the node has no counterpart. -/
theorem node_bind {next : Node → EvalM γ} (h : Realizes node (next node) sem post fail) :
    Realizes node (EvalM.node >>= next) sem post fail :=
  ⟨fun record trace => h.met record trace⟩

/-- Counting the children has no counterpart. -/
theorem childCount_bind {next : Nat → EvalM γ}
    (h : Realizes node (next node.childCount) sem post fail) :
    Realizes node (EvalM.childCount >>= next) sem post fail :=
  ⟨fun record trace => h.met record trace⟩

/-- A check that passes has no counterpart. -/
theorem requireChildren_bind {needed : Nat} (count : node.childCount = needed)
    (h : Realizes node (next ()) sem post fail) :
    Realizes node (EvalM.requireChildren needed >>= next) sem post fail :=
  yields_bind (yields_requireChildren count) h

end Primitives

/-- A report collects the same problem. -/
theorem report (problem : Problem) (h : fail node) :
    Realizes node (EvalM.report problem) (Sem.collect problem) (fun _ node' _ => node' = node)
      fail := by
  constructor
  intro record trace
  unfold EvalM.report Sem.collect
  cases problem.isWritable with
  | false => exact .error h
  | true => exact .ok rfl

/-- A number is given on both sides, or there is the same fault. -/
theorem ofNumber (number : Except NumberError α) (h : fail node) :
    Realizes node (EvalM.ofNumber number) (Sem.demand number)
      (fun a node' b => a = b ∧ node' = node) fail := by
  cases number with
  | ok a => exact pure ⟨rfl, rfl⟩
  | error e => exact throw h

/-- A function that is always there is applied to a number. -/
theorem alike {step : EvalM Number} {sem : Sem Number} (h : Alike step sem) (left : fail node) :
    Realizes node step sem (fun a node' b => a = b ∧ node' = node) fail := by
  cases h with
  | number number => exact ofNumber number left
  | zero problem => exact (report problem left).bind fun _ _ _ same => pure ⟨rfl, same⟩

/-- An operator is applied to two numbers. -/
theorem operate (op : Operator) (a b : Number) (h : fail node) :
    Realizes node
      (match op.apply a b with
        | .ok result =>
          if result.isUnbounded then do
            EvalM.report (.overflow op a b)
            return Value.int 0
          else return .number result
        | .error .divisionByZero => do
          EvalM.report .divisionByZero
          return .int 0
        | .error e => do
          EvalM.report (.invalidOperation op a b e)
          return .int 0)
      (Sem.operate op a b) (fun value node' n => value = .number n ∧ node' = node) fail := by
  -- Overflow and every error are reported, and count as zero.
  have zero (problem : Problem) :
      Realizes node (do EvalM.report problem; return Value.int 0)
        (do Sem.collect problem; return (0 : Number))
        (fun value node' n => value = .number n ∧ node' = node) fail :=
    (report problem h).bind fun _ _ _ same => pure ⟨rfl, same⟩
  -- Both sides match on the same result of the operation.
  unfold Sem.operate
  cases op.apply a b with
  | ok result =>
    dsimp only
    cases result.isUnbounded with
    | true => exact zero _
    | false => exact pure ⟨rfl, rfl⟩
  | error e => cases e <;> exact zero _

/-- A step that comes to a number, taken as one. -/
theorem number {evaluate : EvalM Value} {number : β → Number} {post : Value → Node → β → Prop}
    (h : Realizes node evaluate sem post fail)
    (isNumber : ∀ value node' b, post value node' b → value = .number (number b)) :
    Realizes node (EvalM.number evaluate) sem
      (fun a node' b => a = number b ∧ post (.number (number b)) node' b) fail := by
  unfold EvalM.number
  rw [← bind_pure sem]
  apply h.bind
  intro value node' b related
  obtain rfl := isNumber value node' b related
  exact pure ⟨rfl, related⟩

/-- A child is in focus first. -/
theorem onChild_bind {i : Nat} {child : Node} {next : α → EvalM γ} {next' : β → Sem δ}
    {post' : γ → Node → δ → Prop} {fail' : Node → Prop} (hchild : node.children[i]? = some child)
    (h : Realizes child step sem post fail)
    (hfail : ∀ child', fail child' → fail' (node.setChild i child'))
    (hnext : ∀ a child' b, post a child' b →
      Realizes (node.setChild i child') (next a) (next' b) post' fail') :
    Realizes node (EvalM.onChild i step >>= next) (sem >>= next') post' fail' := by
  have moved : Realizes node (EvalM.onChild i step) sem
      (fun a node' b => ∃ child', node' = node.setChild i child' ∧ post a child' b) fail' := by
    constructor
    intro record trace
    have concurs := h.met record trace
    unfold EvalM.onChild
    simp only [hchild]
    generalize step ⟨child, record⟩ = result at concurs ⊢
    generalize sem trace = result' at concurs ⊢
    -- The record of the child is that of the node, so results and faults are handed on.
    cases concurs with
    | @ok a t b trace' related => exact .ok ⟨t.node, rfl, related⟩
    | @error e t trace' left => exact .error (hfail t.node left)
  apply moved.bind
  intro a node' b found
  obtain ⟨child', rfl, related⟩ := found
  exact hnext a child' b related

end Realizes

end DiceNotation
