import DiceNotation.Evaluation.Evaluate

/-! # Steps that follow each other

Two evaluations that differ in their limits alone do the same until one of them collects a problem.
`Follows narrow wide` says this of two steps: where the first one has a result, it has collected a
problem, or the second one has the same result and leaves the same node and the same record.

There is one rule for each way to compose steps.  A step without a rule of its own follows itself
if it collects nothing (`of_unchanged`), and a step that always collects a problem (`Collects`) is
followed by any other.

* `Follows.bind`          a step after another one
* `Follows.foldChildren`  a step with each child -/

namespace DiceNotation.EvalM

variable {α β : Type}

/-- What a sequence of two steps comes to, each of them has come to. -/
theorem exists_of_bind {step : EvalM α} {next : α → EvalM β} {s u : Focus} {b : β}
    (run : (step >>= next) s = .ok b u) : ∃ a t, step s = .ok a t ∧ next a t = .ok b u := by
  change EStateM.bind step next s = _ at run
  unfold EStateM.bind at run
  cases first : step s with
  | ok a t =>
    rw [first] at run
    exact ⟨a, t, rfl, run⟩
  | error e t =>
    rw [first] at run
    cases run

/-- Behind a step that succeeds, the next one runs. -/
theorem bind_of_ok {step : EvalM α} {next : α → EvalM β} {s t : Focus} {a : α}
    (run : step s = .ok a t) : (step >>= next) s = next a t := by
  change EStateM.bind step next s = _
  unfold EStateM.bind
  rw [run]

/-- Behind a step that fails, nothing runs. -/
theorem bind_of_error {step : EvalM α} {next : α → EvalM β} {s t : Focus} {e : Fault}
    (run : step s = .error e t) : (step >>= next) s = .error e t := by
  change EStateM.bind step next s = _
  unfold EStateM.bind
  rw [run]

section

variable {step : EvalM α} {i : Nat} {node child : Node} {record : Record} {after : Focus}

/-- A step with a child in focus does what it does with this node in focus. -/
theorem onChild_of_ok {a : α} (hchild : node.children[i]? = some child)
    (run : step ⟨child, record⟩ = .ok a after) :
    onChild i step ⟨node, record⟩ = .ok a ⟨node.setChild i after.node, after.record⟩ := by
  simp only [onChild, hchild, run]

/-- A failure at a child leaves the child as the failure left it. -/
theorem onChild_of_error {e : Fault} (hchild : node.children[i]? = some child)
    (run : step ⟨child, record⟩ = .error e after) :
    onChild i step ⟨node, record⟩ = .error e ⟨node.setChild i after.node, after.record⟩ := by
  simp only [onChild, hchild, run]

end

/-- As long as the first step collects no problem, the second one does the same. -/
structure Follows (narrow wide : EvalM α) : Prop where
  met : ∀ s a t, narrow s = .ok a t → s.record.problems.size < t.record.problems.size ∨
    (t.record.problems.size = s.record.problems.size ∧ wide s = .ok a t)

/-- The step has no result without a problem. -/
def Collects (step : EvalM α) : Prop :=
  ∀ s a t, step s = .ok a t → s.record.problems.size < t.record.problems.size

namespace Follows

variable {narrow wide : EvalM α}

/-- Problems are never forgotten. -/
theorem grows (h : Follows narrow wide) {s t : Focus} {a : α} (run : narrow s = .ok a t) :
    s.record.problems.size ≤ t.record.problems.size := by
  rcases h.met s a t run with more | ⟨same, -⟩ <;> omega

/-- A step that collects no problem follows itself. -/
theorem of_unchanged {step : EvalM α}
    (h : ∀ s a t, step s = .ok a t → t.record.problems = s.record.problems) :
    Follows step step :=
  ⟨fun s a t run => .inr ⟨by rw [h s a t run], run⟩⟩

/-- Giving a value follows itself. -/
theorem pure (a : α) : Follows (Pure.pure a : EvalM α) (Pure.pure a) :=
  of_unchanged fun _ _ _ run => by cases run; rfl

/-- A fault is no outcome to be followed. -/
theorem throw (e : Fault) : Follows (MonadExcept.throw e : EvalM α) (MonadExcept.throw e) :=
  of_unchanged fun _ _ _ run => by cases run

/-- Steps that follow each other can be put one behind the other. -/
theorem bind {next next' : α → EvalM β} (h : Follows narrow wide)
    (hnext : ∀ a, Follows (next a) (next' a)) : Follows (narrow >>= next) (wide >>= next') := by
  constructor
  intro s b u run
  obtain ⟨a, t, first, second⟩ := exists_of_bind run
  have later := (hnext a).grows second
  rcases h.met s a t first with more | ⟨same, first'⟩
  · exact .inl (by omega)
  · rcases (hnext a).met t b u second with more | ⟨same', second'⟩
    · exact .inl (by omega)
    · exact .inr ⟨by omega, by rw [bind_of_ok first', second']⟩

/-! ## Problems -/

/-- A step that always collects a problem is followed by any step. -/
theorem of_collects (h : Collects narrow) : Follows narrow wide :=
  ⟨fun s a t run => .inl (h s a t run)⟩

/-- A report always collects its problem, or fails. -/
theorem collects_report (problem : Problem) : Collects (report problem) := by
  intro s a t run
  unfold report at run
  by_cases writable : problem.isWritable
  · simp only [writable, Bool.not_true, Bool.false_eq_true, if_false] at run
    cases run
    simp [Record.collect, Record.note]
  · simp only [writable, Bool.not_false, if_true] at run
    cases run

/-- A report follows itself. -/
theorem report (problem : Problem) : Follows (EvalM.report problem) (EvalM.report problem) :=
  of_collects (collects_report problem)

end Follows

namespace Collects

variable {step : EvalM α} {next : α → EvalM β}

/-- What begins with a problem collects one. -/
theorem bind_left (h : Collects step) (hnext : ∀ a, Follows (next a) (next a)) :
    Collects (step >>= next) := by
  intro s b u run
  obtain ⟨a, t, first, second⟩ := exists_of_bind run
  have more := h s a t first
  have later := (hnext a).grows second
  omega

/-- What ends with a problem collects one, if what comes before does not take it back. -/
theorem bind_right (h : Follows step step) (hnext : ∀ a, Collects (next a)) :
    Collects (step >>= next) := by
  intro s b u run
  obtain ⟨a, t, first, second⟩ := exists_of_bind run
  have earlier := h.grows first
  have more := hnext a t b u second
  omega

end Collects

namespace Follows

variable {narrow wide : EvalM α}

/-! ## Steps that collect nothing -/

theorem node : Follows EvalM.node EvalM.node :=
  of_unchanged fun _ _ _ run => by cases run; rfl

theorem childCount : Follows EvalM.childCount EvalM.childCount :=
  of_unchanged fun _ _ _ run => by cases run; rfl

/-- Changing the node follows itself: it is no problem. -/
theorem modifyNode (f : Node → Node) : Follows (EvalM.modifyNode f) (EvalM.modifyNode f) :=
  of_unchanged fun _ _ _ run => by cases run; rfl

theorem setAttribute (key : String) (value : Value) :
    Follows (EvalM.setAttribute key value) (EvalM.setAttribute key value) :=
  modifyNode _

/-- A line in the log is no problem. -/
theorem note (n : Note) : Follows (EvalM.note n) (EvalM.note n) :=
  of_unchanged fun _ _ _ run => by cases run; rfl

/-- A request is no problem. -/
theorem request (faces : Faces) (count : Nat) :
    Follows (EvalM.request faces count) (EvalM.request faces count) :=
  of_unchanged fun _ _ _ run => by cases run; rfl

/-- A number is given, or there is a fault. -/
theorem ofNumber (number : Except NumberError α) :
    Follows (EvalM.ofNumber number) (EvalM.ofNumber number) := by
  cases number with
  | ok a => exact pure a
  | error e => exact throw _

/-- Where random numbers come from does not depend on limits. -/
theorem draw {limits limits' : Limits} {functions functions' : FunctionTable} {source : Source}
    (faces : Faces) :
    Follows (EvalM.draw ⟨limits, functions, source⟩ faces)
      (EvalM.draw ⟨limits', functions', source⟩ faces) :=
  of_unchanged fun _ _ _ run => by cases run; rfl

/-- The number of children depends on no limit. -/
theorem requireChildren (needed : Nat) :
    Follows (EvalM.requireChildren needed) (EvalM.requireChildren needed) := by
  unfold EvalM.requireChildren
  apply node.bind
  intro node
  split
  · exact throw _
  · exact pure _

/-- The greatest number of children depends on no limit. -/
theorem requireChildrenUpTo (most : Nat) :
    Follows (EvalM.requireChildrenUpTo most) (EvalM.requireChildrenUpTo most) := by
  unfold EvalM.requireChildrenUpTo
  apply node.bind
  intro node
  split
  · exact throw _
  · exact pure _

/-! ## Moving the focus -/

/-- Steps that follow each other at a child do so at the parent. -/
theorem onChild (i : Nat) (h : Follows narrow wide) :
    Follows (EvalM.onChild i narrow) (EvalM.onChild i wide) := by
  constructor
  intro s a t run
  unfold EvalM.onChild at run ⊢
  cases place : s.node.children[i]? with
  | none =>
    simp only [place] at run
    cases run
  | some child =>
    simp only [place] at run ⊢
    cases inner : narrow ⟨child, s.record⟩ with
    | error e u =>
      simp only [inner] at run
      cases run
    | ok b u =>
      simp only [inner] at run
      cases run
      -- Either the narrow step has collected a problem, or the wide step on the child runs alike.
      rcases h.met _ _ _ inner with more | ⟨same, inner'⟩
      · exact .inl more
      · exact .inr ⟨same, by simp only [inner']⟩

/-- Steps that follow each other at a roll do so at the node that stands on it. -/
theorem onDice (h : Follows narrow wide) : Follows (EvalM.onDice narrow) (EvalM.onDice wide) := by
  constructor
  intro s a t run
  unfold EvalM.onDice at run ⊢
  cases found : s.node.findDice? with
  | none =>
    simp only [found] at run
    cases run
  | some dice =>
    simp only [found] at run ⊢
    cases inner : narrow ⟨dice, s.record⟩ with
    | error e u =>
      simp only [inner] at run
      cases run
    | ok b u =>
      simp only [inner] at run
      cases run
      -- Either the narrow step has collected a problem, or the wide step on the dice runs alike.
      rcases h.met _ _ _ inner with more | ⟨same, inner'⟩
      · exact .inl more
      · exact .inr ⟨same, by simp only [inner']⟩

/-- Each node is visited with the result of the nodes before it. -/
theorem foldNodes {step step' : β → EvalM β} (h : ∀ acc, Follows (step acc) (step' acc))
    (nodes : List Node) {acc b : β} {record record' : Record} {nodes' : List Node}
    (run : EvalM.foldNodes step acc nodes record = .ok b (nodes', record')) :
    record.problems.size < record'.problems.size ∨
      (record'.problems.size = record.problems.size ∧
        EvalM.foldNodes step' acc nodes record = .ok b (nodes', record')) := by
  induction nodes generalizing acc record nodes' with
  | nil =>
    rw [EvalM.foldNodes] at run ⊢
    cases run
    exact .inr ⟨rfl, rfl⟩
  | cons node rest ih =>
    rw [EvalM.foldNodes] at run ⊢
    cases first : step acc ⟨node, record⟩ with
    | error e t =>
      simp only [first] at run
      cases run
    | ok acc' t =>
      simp only [first] at run
      cases others : EvalM.foldNodes step acc' rest t.record with
      | error e last =>
        simp only [others] at run
        cases run
      | ok c last =>
        simp only [others] at run
        cases run
        have later := ih others
        -- A problem of the first node is still among the problems at the end; without one the other
        -- nodes decide.
        rcases (h acc).met _ _ _ first with more | ⟨same, first'⟩
        · exact .inl (by dsimp only at more; omega)
        · dsimp only at same
          rcases later with more | ⟨same', others'⟩
          · exact .inl (by omega)
          · exact .inr ⟨by omega, by simp only [first', others']⟩

/-- Steps that follow each other at each child do so at all of them in turn. -/
theorem foldChildren {step step' : β → EvalM β} (h : ∀ acc, Follows (step acc) (step' acc))
    (start : β) : Follows (EvalM.foldChildren step start) (EvalM.foldChildren step' start) := by
  constructor
  intro s b t run
  unfold EvalM.foldChildren at run ⊢
  cases visited : EvalM.foldNodes step start s.node.children s.record with
  | error e rest =>
    simp only [visited] at run
    cases run
  | ok c rest =>
    obtain ⟨nodes, record⟩ := rest
    simp only [visited] at run
    cases run
    rcases foldNodes h _ visited with more | ⟨same, visited'⟩
    · exact .inl more
    · exact .inr ⟨same, by simp only [visited']⟩

end Follows

end DiceNotation.EvalM
