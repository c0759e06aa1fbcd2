import DiceNotation.Evaluation.Evaluate
import DiceNotation.Proofs.Semantics.Dice

/-! # Steps on trees and computations

`Simulates node step sem rel` says that a step of an evaluation, with `node` in focus, does what
the computation `sem` does: it comes to the same problems and requests, and to the same fault or
to a result that `rel` relates to the other one.  `rel` also says what has become of the node.

Each operation on trees has a lemma, so that a rule of the evaluator is simulated step by step.
-/

namespace DiceNotation

/-- What can be observed of a record. -/
def Record.trace (record : Record) : Trace := ⟨record.problems.toList, record.requests.toList⟩

/-! ## Steps that change nothing -/

namespace EvalM

variable {α : Type} {node : Node}

/-- Looking at the node in focus runs what follows on it. -/
theorem run_node_bind (next : Node → EvalM α) (record : Record) :
    (EvalM.node >>= next) ⟨node, record⟩ = next node ⟨node, record⟩ :=
  rfl

/-- Nothing is refused if the number of children is right. -/
theorem run_requireChildren {needed : Nat} (count : node.childCount = needed) (record : Record) :
    requireChildren needed ⟨node, record⟩ = .ok () ⟨node, record⟩ := by
  unfold requireChildren
  show (if node.childCount ≠ needed then _ else _ : EvalM Unit) ⟨node, record⟩ = _
  rw [if_neg (not_not.mpr count)]
  rfl

/-- Nothing is refused if the number of children is in range. -/
theorem run_requireChildrenUpTo {most : Nat}
    (count : 0 < node.childCount ∧ node.childCount ≤ most) (record : Record) :
    requireChildrenUpTo most ⟨node, record⟩ = .ok () ⟨node, record⟩ := by
  unfold requireChildrenUpTo
  show (if node.childCount = 0 ∨ most < node.childCount then _ else _ : EvalM Unit)
    ⟨node, record⟩ = _
  rw [if_neg (by omega)]
  rfl

end EvalM

/-! ## Steps and computations -/

/-- The same fault, or related results, and in both cases the same trace. -/
inductive Agree (rel : α → Node → β → Prop) :
    EStateM.Result Fault Focus α → EStateM.Result Fault Trace β → Prop where
  | ok {a t b} (related : rel a t.node b) : Agree rel (.ok a t) (.ok b t.record.trace)
  | error {e t} : Agree rel (.error e t) (.error e t.record.trace)

/-- A step does with a node in focus what a computation does. -/
def Simulates (node : Node) (step : EvalM α) (sem : Sem β) (rel : α → Node → β → Prop) : Prop :=
  ∀ record : Record, Agree rel (step ⟨node, record⟩) (sem record.trace)

namespace Simulates

variable {α β γ δ : Type} {node : Node} {step : EvalM α} {sem : Sem β}
  {rel : α → Node → β → Prop}

/-- Related results with the node left as it is. -/
theorem pure {a : α} {b : β} (h : rel a node b) :
    Simulates node (Pure.pure a) (Pure.pure b) rel :=
  fun _ => .ok h

/-- The same fault on both sides. -/
theorem throw {e : Fault} :
    Simulates node (MonadExcept.throw e : EvalM α) (MonadExcept.throw e : Sem β) rel :=
  fun _ => .error

/-- What relates the results can be weakened. -/
theorem mono {rel' : α → Node → β → Prop} (h : Simulates node step sem rel)
    (weaker : ∀ a node b, rel a node b → rel' a node b) : Simulates node step sem rel' := by
  intro record
  have agree := h record
  generalize step ⟨node, record⟩ = result at agree ⊢
  generalize sem record.trace = result' at agree ⊢
  cases agree with
  | ok related => exact .ok (weaker _ _ _ related)
  | error => exact .error

/-- A step followed by another simulates what its parts simulate. -/
theorem bind {next : α → EvalM γ} {next' : β → Sem δ} {rel' : γ → Node → δ → Prop}
    (h : Simulates node step sem rel)
    (hnext : ∀ a node b, rel a node b → Simulates node (next a) (next' b) rel') :
    Simulates node (step >>= next) (sem >>= next') rel' := by
  intro record
  have agree := h record
  change Agree rel' (EStateM.bind step next ⟨node, record⟩) (EStateM.bind sem next' record.trace)
  unfold EStateM.bind
  generalize step ⟨node, record⟩ = result at agree ⊢
  generalize sem record.trace = result' at agree ⊢
  cases agree with
  | @ok a t b related => exact hnext a t.node b related t.record
  | error => exact .error

/-- A step that nothing corresponds to, and that cannot fail. -/
theorem bind_left {next : α → EvalM γ} {sem : Sem δ} {rel' : γ → Node → δ → Prop}
    {rel : α → Node → Unit → Prop} (h : Simulates node step (Pure.pure ()) rel)
    (hnext : ∀ a node, rel a node () → Simulates node (next a) sem rel') :
    Simulates node (step >>= next) sem rel' :=
  h.bind fun a node _ related => hnext a node related

/-- A result that is used further on the side of the computation only. -/
theorem map_right {f : β → γ} {rel' : α → Node → γ → Prop} (h : Simulates node step sem rel)
    (hf : ∀ a node b, rel a node b → rel' a node (f b)) :
    Simulates node step (sem >>= fun b => Pure.pure (f b)) rel' := by
  have same : step = step >>= Pure.pure := (bind_pure step).symm
  rw [same]
  exact h.bind fun a node b related => pure (hf a node b related)

/-- A step that can only fail. -/
theorem bind_of_throw {e : Fault} {next : α → EvalM γ} {rel' : γ → Node → δ → Prop}
    (h : Simulates node step (MonadExcept.throw e : Sem β) rel) :
    Simulates node (step >>= next) (MonadExcept.throw e : Sem δ) rel' := by
  intro record
  have agree := h record
  change Agree rel' (EStateM.bind step next ⟨node, record⟩) (.error e record.trace)
  unfold EStateM.bind
  generalize step ⟨node, record⟩ = result at agree ⊢
  have failed : (MonadExcept.throw e : Sem β) record.trace = .error e record.trace := rfl
  rw [failed] at agree
  generalize record.trace = trace at agree ⊢
  cases agree with
  | error => exact .error

/-- What a computation that does nothing comes to is known. -/
theorem of_pure {b : β} (h : Simulates node step (Pure.pure b) rel) :
    Simulates node step (Pure.pure b) fun a node' b' => b' = b ∧ rel a node' b := by
  intro record
  have agree := h record
  generalize step ⟨node, record⟩ = result at agree ⊢
  have ran : (Pure.pure b : Sem β) record.trace = .ok b record.trace := rfl
  rw [ran] at agree ⊢
  generalize record.trace = trace at agree ⊢
  cases agree with
  | ok related => exact .ok ⟨rfl, related⟩

/-! ## Operations on the node in focus -/

section Focus

variable {next : Node → EvalM γ} {next' : Unit → EvalM γ} {sem : Sem δ}
  {rel : γ → Node → δ → Prop}

/-- Looking at the node in focus is silent. -/
theorem node_bind (h : Simulates node (next node) sem rel) :
    Simulates node (EvalM.node >>= next) sem rel :=
  fun record => h record

/-- Counting the children is silent. -/
theorem childCount_bind {next : Nat → EvalM γ} (h : Simulates node (next node.childCount) sem rel) :
    Simulates node (EvalM.childCount >>= next) sem rel :=
  fun record => h record

/-- A change of the node in focus is silent. -/
theorem modifyNode_bind {f : Node → Node} (h : Simulates (f node) (next' ()) sem rel) :
    Simulates node (EvalM.modifyNode f >>= next') sem rel :=
  fun record => h record

/-- A note is silent. -/
theorem note_bind {n : Note} (h : Simulates node (next' ()) sem rel) :
    Simulates node (EvalM.note n >>= next') sem rel :=
  fun record => h (record.note n)

/-- The check is silent if the number of children is right. -/
theorem requireChildren_bind {needed : Nat} (count : node.childCount = needed)
    (h : Simulates node (next' ()) sem rel) :
    Simulates node (EvalM.requireChildren needed >>= next') sem rel := by
  intro record
  show Agree rel (EStateM.bind _ _ _) _
  unfold EStateM.bind
  rw [EvalM.run_requireChildren count record]
  exact h record

/-- The check is silent if the number of children is in range. -/
theorem requireChildrenUpTo_bind {most : Nat} (count : 0 < node.childCount ∧ node.childCount ≤ most)
    (h : Simulates node (next' ()) sem rel) :
    Simulates node (EvalM.requireChildrenUpTo most >>= next') sem rel := by
  intro record
  show Agree rel (EStateM.bind _ _ _) _
  unfold EStateM.bind
  rw [EvalM.run_requireChildrenUpTo count record]
  exact h record

end Focus

/-- A problem that is reported is collected. -/
theorem report (problem : Problem) :
    Simulates node (EvalM.report problem) (Sem.collect problem) fun _ node' _ => node' = node := by
  intro record
  unfold EvalM.report Sem.collect
  -- A problem whose text cannot be written is a fault on both sides.
  cases h : problem.isWritable with
  | false => exact .error
  | true =>
    have collected : (record.collect problem).trace =
        ⟨record.trace.problems ++ [problem], record.trace.requests⟩ := by
      unfold Record.collect Record.trace Record.note
      rw [Array.toList_push]
    change Agree _ (.ok () ⟨node, record.collect problem⟩)
      (.ok () ⟨record.trace.problems ++ [problem], record.trace.requests⟩)
    rw [← collected]
    exact .ok rfl

/-- A numeric result is demanded. -/
theorem ofNumber (number : Except NumberError α) :
    Simulates node (EvalM.ofNumber number) (Sem.demand number) fun a node' b =>
      a = b ∧ node' = node := by
  intro record
  cases number with
  | ok a => exact .ok ⟨rfl, rfl⟩
  | error e => exact .error

/-- A step that comes to a number, taken as one. -/
theorem number {evaluate : EvalM Value} {number : β → Number} {rel : Value → Node → β → Prop}
    (h : Simulates node evaluate sem rel)
    (isNumber : ∀ value node' b, rel value node' b → value = .number (number b)) :
    Simulates node (EvalM.number evaluate) sem fun a node' b =>
      a = number b ∧ rel (.number (number b)) node' b := by
  unfold EvalM.number
  rw [← bind_pure sem]
  refine h.bind fun value node' b related => ?_
  obtain rfl := isNumber value node' b related
  exact pure ⟨rfl, related⟩

/-! ## Moving the focus -/

/-- A step on a child simulates what it does with the child in focus. -/
theorem onChild {i : Nat} {child : Node} (hchild : node.children[i]? = some child)
    (h : Simulates child step sem rel) :
    Simulates node (EvalM.onChild i step) sem fun a node' b =>
      ∃ child', node' = node.setChild i child' ∧ rel a child' b := by
  intro record
  have agree := h record
  unfold EvalM.onChild
  simp only [hchild]
  generalize step ⟨child, record⟩ = result at agree ⊢
  generalize sem record.trace = result' at agree ⊢
  cases agree with
  | @ok a t b related =>
    -- Putting the child back does not touch the record.
    have moved : t.record.trace = (Focus.mk (node.setChild i t.node) t.record).record.trace := rfl
    rw [moved]
    exact .ok ⟨t.node, rfl, related⟩
  | @error e t =>
    have moved : t.record.trace = (Focus.mk (node.setChild i t.node) t.record).record.trace := rfl
    rw [moved]
    exact .error

/-- A step on the dice below simulates what it does with the dice in focus. -/
theorem onDice {dice : Node} (hdice : node.findDice? = some dice)
    (h : Simulates dice step sem rel) :
    Simulates node (EvalM.onDice step) sem fun a node' b =>
      ∃ dice', node' = node.replaceDice dice' ∧ rel a dice' b := by
  intro record
  have agree := h record
  unfold EvalM.onDice
  simp only [hdice]
  generalize step ⟨dice, record⟩ = result at agree ⊢
  generalize sem record.trace = result' at agree ⊢
  cases agree with
  | @ok a t b related =>
    -- Putting the roll back does not touch the record.
    have moved : t.record.trace = (Focus.mk (node.replaceDice t.node) t.record).record.trace := rfl
    rw [moved]
    exact .ok ⟨t.node, rfl, related⟩
  | @error e t =>
    have moved : t.record.trace = (Focus.mk (node.replaceDice t.node) t.record).record.trace := rfl
    rw [moved]
    exact .error

end Simulates

end DiceNotation
