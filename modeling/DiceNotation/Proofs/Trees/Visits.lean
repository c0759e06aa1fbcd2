import DiceNotation.Proofs.Trees.Consistency

/-! # Evaluations within evaluations

The evaluation of a tree consists of evaluations of its nodes.  A `Visit` is one of them: the node
before and after, its value, and what was observed before and after.  `Part inner outer` says that
`inner` is the evaluation of a child which is made when the node of `outer` is evaluated, and
`Within` goes down to any depth.

What was observed ties the parts together: each begins where the one before it ended.  So
`Visit.Tests` shows how often the right side of a comparison is evaluated: not at all, or once.

* `Part`    the parts of an evaluation, in the order of evaluation
* `Tests`   the evaluation of a comparison -/

namespace DiceNotation

open Node (StandsOn)

namespace Visit

section

variable (limits : Limits) (source : Source)

/-- The node is evaluated as the visit says. -/
def Evaluated (visit : Visit) : Prop :=
  Expands limits source visit.before visit.start visit.after visit.value visit.finish

/-- The evaluation `inner` of a child is a part of the evaluation `outer` of its parent. -/
inductive Part : (inner outer : Visit) → Prop where
  -- The first child is evaluated first; a call evaluates an argument only if there is no other.
  | first {inner outer : Visit} {rest : List Node} (whole : outer.Evaluated limits source)
      (h : inner.Evaluated limits source) (plain : outer.before.kind ≠ .group)
      (single : outer.before.kind = .function → rest = [])
      (children : outer.before.children = inner.before :: rest)
      (begins : inner.start = outer.start) : Part inner outer
  -- A second child is evaluated by operators, and by comparisons that have something to test.
  | second {inner outer : Visit} (before : Visit) (whole : outer.Evaluated limits source)
      (hbefore : before.Evaluated limits source) (h : inner.Evaluated limits source)
      (goesOn : (∃ op, outer.before.kind = .operator op) ∨
        (∃ op, outer.before.kind = .comparison op) ∧ before.after.targets? ≠ some [])
      (children : outer.before.children = [before.before, inner.before])
      (begins : before.start = outer.start) (follows : inner.start = before.finish) :
      Part inner outer
  | member {visits : List Visit} {unfolded : Node} {trace : Trace} {inner outer : Visit}
      (whole : outer.Evaluated limits source) (kind : outer.before.kind = .group)
      (unfolds : Unfolds limits outer.before outer.start unfolded trace)
      (members : unfolded.children = visits.map Visit.before)
      (linked : Visit.Linked visits trace outer.finish)
      (h : ∀ visit ∈ visits, visit.Evaluated limits source) (mem : inner ∈ visits) :
      Part inner outer

/-- The evaluation `inner` is made in the course of the evaluation `outer`. -/
def Within : (inner outer : Visit) → Prop := Relation.ReflTransGen (Part limits source)

/-- The evaluation of a comparison, which leaves it with the given sides.  The left side is
    evaluated, and then the right side if there is something to test.  Each target is marked with
    the outcome of its test against the value of the right side. -/
inductive Tests (visit : Visit) (op : Comparison) (left right : Node) : Prop where
  | nothing (first : Visit) (hfirst : first.Evaluated limits source)
      (children : visit.before.children = [first.before, right])
      (begins : first.start = visit.start) (finishes : visit.finish = first.finish)
      (unmarked : left = first.after) (found : left.targets? = some []) (value : visit.value = 0)
  | targets (first second : Visit) (hfirst : first.Evaluated limits source)
      (hsecond : second.Evaluated limits source)
      (children : visit.before.children = [first.before, second.before])
      (begins : first.start = visit.start) (follows : second.start = first.finish)
      (finishes : visit.finish = second.finish) (kept : right = second.after)
      (targets : List Node) (found : first.after.targets? = some targets)
      (marked : left = first.after.mapTargets (Condition.mark ⟨op, .number second.value⟩))
      (value : visit.value = .int (targets.countP fun target =>
        Condition.holds ⟨op, .number second.value⟩ target.value?))

end

variable {limits : Limits} {source : Source} {visit inner outer whole : Visit}
  {op : Comparison} {left right : Node}

/-- A comparison is evaluated by a test of its sides. -/
theorem Evaluated.tests (h : visit.Evaluated limits source)
    (kind : visit.before.kind = .comparison op) (children : visit.after.children = [left, right]) :
    visit.Tests limits source op left right := by
  obtain ⟨before, start, after, value, finish⟩ := visit
  unfold Evaluated at h
  -- Only two rules evaluate a comparison, one for each way that it can be tested.
  cases h with
  | untested hleft empty _ =>
    cases kind
    cases children
    exact .nothing ⟨_, _, _, _, _⟩ hleft rfl rfl rfl rfl empty rfl
  | tested hleft found _ hright count =>
    cases kind
    cases children
    subst count
    exact .targets ⟨_, _, _, _, _⟩ ⟨_, _, _, _, _⟩ hleft hright rfl rfl rfl rfl rfl _ found rfl rfl
  | group isGroup _ _ _ _ _ =>
    rw [show Node.kind _ = .comparison op from kind] at isGroup
    cases isGroup
  | _ => cases kind

/-- A part is made in the course of the whole. -/
theorem Part.within (part : Part limits source inner outer) :
    inner.Within limits source outer :=
  .single part

/-- What is made in the course of a part is made in the course of the whole. -/
theorem Within.part (h : visit.Within limits source inner) (part : Part limits source inner outer) :
    visit.Within limits source outer :=
  .tail h part

/-- A part evaluates a child. -/
theorem Part.mem_children (part : Part limits source inner outer) :
    inner.before ∈ outer.before.children := by
  cases part with
  | first _ _ _ _ children _ =>
    rw [children]
    exact List.mem_cons_self
  | second _ _ _ _ _ children _ _ =>
    rw [children]
    simp
  | member _ _ unfolds members _ _ mem => exact unfolds.before_mem members mem

/-- Only what stands in the tree is evaluated. -/
theorem Within.mem_preorder (h : inner.Within limits source outer) :
    inner.before ∈ outer.before.preorder := by
  induction h using Relation.ReflTransGen.head_induction_on with
  | refl => exact Node.self_mem_preorder _
  | head part _ ih =>
    exact Node.mem_preorder_trans (Node.child_mem_preorder part.mem_children) ih

/-- What is found within an evaluation is evaluated. -/
theorem Within.evaluated (h : inner.Within limits source outer)
    (whole : outer.Evaluated limits source) : inner.Evaluated limits source := by
  induction h using Relation.ReflTransGen.head_induction_on with
  | refl => exact whole
  | head part _ _ =>
    cases part with
    | first _ h => exact h
    | second _ _ _ h => exact h
    | member _ _ _ _ _ h mem => exact h _ mem

namespace Tests

/-- The roll on the left side of a test stands below modifiers only. -/
theorem stands (tests : visit.Tests limits source op left right)
    (isRoll : left.kind.isRoll = true) : ∃ roll, StandsOn roll left := by
  cases tests with
  | nothing first hfirst _ _ _ unmarked =>
    subst unmarked
    exact Expands.exists_standsOn hfirst isRoll
  | targets first second hfirst _ _ _ _ _ _ _ _ marked =>
    subst marked
    rcases Node.target_cases (Expands.exists_standsOn hfirst) with
      ⟨roll, stands⟩ | isGroup | ⟨plain, single⟩
    · rw [Node.mapTargets_of_standsOn stands]
      exact ⟨_, stands.replace stands.kind⟩
    · -- Marks do not make a roll of what is none.
      rw [Node.mapTargets_of_group isGroup,
        show (Node.withChildren _ _).kind = first.after.kind from rfl, isGroup] at isRoll
      cases isRoll
    · rw [Node.mapTargets_of_single plain single,
        show (Condition.mark _ _).kind = first.after.kind from rfl, plain] at isRoll
      cases isRoll

/-- The targets of a test are marked with its outcome: all were tested against the value that the
    right side has. -/
theorem tested (tests : visit.Tests limits source op left right) :
    ∃ targets, left.targets? = some targets ∧ ∀ target ∈ targets, ∃ threshold,
      right.value? = some threshold ∧ target.get? "success" =
        some (.text (if Condition.holds ⟨op, threshold⟩ target.value? then "yes" else "no")) := by
  cases tests with
  | nothing _ _ _ _ _ _ found => exact ⟨[], found, nofun⟩
  | targets first second hfirst hsecond _ _ _ _ kept targets found marked =>
    subst kept marked
    have rolls := Expands.exists_standsOn hfirst
    refine ⟨_, Node.targets?_mapTargets rolls found _, fun target htarget => ?_⟩
    obtain ⟨old, -, rfl⟩ := List.mem_map.mp htarget
    refine ⟨_, Expands.stored hsecond, ?_⟩
    rw [Node.value?_mark, Condition.mark, Node.get?_set, if_pos rfl]
    split <;> rfl

end Tests

end Visit

end DiceNotation
