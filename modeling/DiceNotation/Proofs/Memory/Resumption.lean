import DiceNotation.Proofs.Memory.Evolved
import DiceNotation.Proofs.Semantics.Refinement
import DiceNotation.Proofs.Trees.Evaluable

/-! # Evaluating what was evaluated in part

An evolved node is evaluated to what its expression means: to the same value, or to the same fault,
whatever of it has been evaluated before and however that ended.  Both ways the node goes on to
evolve.

* `resumes_of_compute`   a value that is computed is stored
* `resumes_group`        a group is summed up, whether or not it has been expanded
* `resumes_evolved`      by induction on the expression -/

namespace DiceNotation

open DiceNotation.EvalM (evaluateWithin compute)
open DiceNotation.Expr (Writable)

section

variable (limits : Limits) (source : Source)

/-- Evaluating the node comes to what the expression means, and leaves the node evolved. -/
def Resumes (evaluate : EvalM Value) (e : Expr) (node : Node) : Prop :=
  Realizes node evaluate (meaning limits source e)
    (fun value node' m => Evaluated value node' m ∧ Evolved limits source e node')
    (Evolved limits source e)

end

section

variable {limits : Limits} {source : Source} {functions : FunctionTable} {levels : Nat}
  {evaluate : EvalM Value} {e operand left right : Expr} {node child first second : Node}
  {attributes : OrderedMap Value}

/-! ## Values are looked up, or else computed and stored -/

/-- A value that is there is what the expression means. -/
private theorem resumes_stored {rules : Rules} {value : Value} (h : Evolved limits source e node)
    (stored : node.value? = some value) :
    Resumes limits source (evaluateWithin rules (levels + 1)) e node := by
  unfold Resumes
  rw [evaluateWithin]
  apply Realizes.node_bind
  rw [stored]
  constructor
  intro record trace
  obtain ⟨m, trace', meant, evaluated⟩ := h.recalls value stored trace
  rw [meant]
  exact .ok ⟨evaluated, h⟩

/-- A value that is computed is stored, and remembered rightly. -/
theorem resumes_of_compute {rules : Rules} (new : node.value? = none)
    (h : Realizes node (compute rules (evaluateWithin rules levels)) (meaning limits source e)
      (fun raw node' m => Evaluated raw.normalize (node'.set "value" raw.normalize) m ∧
        Evolved limits source e node') (Evolved limits source e)) :
    Resumes limits source (evaluateWithin rules (levels + 1)) e node := by
  unfold Resumes
  rw [evaluateWithin]
  apply Realizes.node_bind
  rw [new]
  constructor
  intro record trace
  have met := h.met record
  show Concurs _ _ (EStateM.bind (compute rules (evaluateWithin rules levels)) _ ⟨node, record⟩) _
  unfold EStateM.bind
  -- The result does not depend on the trace, so what is stored is right for every trace.
  generalize compute rules (evaluateWithin rules levels) ⟨node, record⟩ = result at met ⊢
  have here := met trace
  generalize meaning limits source e trace = meant at here ⊢
  cases here with
  | error evolved => exact .error evolved
  | @ok raw t m trace' related =>
    obtain ⟨evaluated, evolved⟩ := related
    -- The value that is stored is the one that the meaning has under any trace.
    have recalls : Recalls limits source e (t.node.set "value" raw.normalize) := by
      intro value stored trace
      have there := met trace
      unfold Node.value? at stored
      rw [Node.get?_set, if_pos rfl] at stored
      obtain rfl := Option.some.inj stored
      generalize meaning limits source e trace = meant at there ⊢
      cases there with
      | ok related => exact ⟨_, _, rfl, related.1⟩
    exact .ok ⟨evaluated, evolved.set (by decide) recalls⟩

/-- A number is computed that is its own target. -/
private theorem resumes_single {rules : Rules} {sem : Sem Number} (kind : NodeKind)
    (single : meaning limits source e = sem >>= fun n => pure (.single n))
    (new : node.value? = none) (plain : kind.isRoll = false ∧ kind ≠ .group)
    (h : Realizes node (compute rules (evaluateWithin rules levels)) sem
      (fun value node' n => value = .number n ∧ node'.kind = kind ∧ Evolved limits source e node')
      (Evolved limits source e)) :
    Resumes limits source (evaluateWithin rules (levels + 1)) e node := by
  apply resumes_of_compute new
  rw [single, ← bind_pure (compute rules (evaluateWithin rules levels))]
  apply h.bind
  intro value node' n found
  obtain ⟨rfl, rfl, evolved⟩ := found
  exact .pure ⟨evaluated_single plain, evolved⟩

/-! ## Operators and comparisons -/

/-- A negation is resumed at its operand. -/
private theorem realizes_negation (new : attributes.get? "value" = none)
    (h : Resumes limits source evaluate operand child) :
    Realizes ⟨.negate, attributes, [child]⟩ (EvalM.negation evaluate)
      (do return (← meaning limits source operand).value.negate)
      (fun value node' n => value = .number n ∧ node'.kind = .negate ∧
        Evolved limits source (.negate operand) node')
      (Evolved limits source (.negate operand)) := by
  have evolved {child' : Node} (first : Evolved limits source operand child') :
      Evolved limits source (.negate operand) ⟨.negate, attributes, [child']⟩ :=
    .intro (recalls_of_new new) .negate (.cons first .nil)
  unfold EvalM.negation
  apply Realizes.requireChildren_bind rfl
  apply (h.number fun _ _ _ found => found.1.value).onChild_bind rfl
  · exact fun _ => evolved
  · intro n child' m found
    obtain ⟨rfl, -, first⟩ := found
    exact .pure ⟨rfl, rfl, evolved first⟩

/-- An operation is resumed at its operands, from left to right. -/
private theorem realizes_arithmetic (op : Operator) (new : attributes.get? "value" = none)
    (hsecond : Evolved limits source right second)
    (h : Resumes limits source evaluate left first)
    (h' : Resumes limits source evaluate right second) :
    Realizes ⟨.operator op, attributes, [first, second]⟩ (EvalM.arithmetic op evaluate)
      (do
        let a ← meaning limits source left
        let b ← meaning limits source right
        Sem.operate op a.value b.value)
      (fun value node' n => value = .number n ∧ node'.kind = .operator op ∧
        Evolved limits source (.binary op left right) node')
      (Evolved limits source (.binary op left right)) := by
  -- The node has evolved whenever its operands have, evaluated or not.
  have evolved {first second : Node} (hfirst : Evolved limits source left first)
      (hsecond : Evolved limits source right second) :
      Evolved limits source (.binary op left right) ⟨.operator op, attributes, [first, second]⟩ :=
    .intro (recalls_of_new new) .binary (.cons hfirst (.cons hsecond .nil))
  unfold EvalM.arithmetic
  apply Realizes.requireChildren_bind rfl
  apply h.onChild_bind rfl
  · exact fun _ hfirst => evolved hfirst hsecond
  intro value first a found
  obtain ⟨⟨rfl, -, -⟩, hfirst⟩ := found
  apply h'.onChild_bind rfl
  · exact fun _ hsecond => evolved hfirst hsecond
  intro value second b found
  obtain ⟨⟨rfl, -, -⟩, hsecond⟩ := found
  apply (Realizes.operate op a.value b.value (evolved hfirst hsecond)).mono
  · intro value node' n found
    obtain ⟨rfl, rfl⟩ := found
    exact ⟨rfl, rfl, evolved hfirst hsecond⟩
  · exact fun _ h => h

/-- The threshold of a comparison is evaluated. -/
private theorem realizes_condition (op : Comparison) (hfirst : Evolved limits source left first)
    (new : attributes.get? "value" = none) (h : Resumes limits source evaluate right second) :
    Realizes ⟨.comparison op, attributes, [first, second]⟩ (EvalM.condition evaluate)
      (meaning limits source right)
      (fun c node' m => c = ⟨op, .number m.value⟩ ∧ ∃ second',
        node' = ⟨.comparison op, attributes, [first, second']⟩ ∧
          Evolved limits source right second')
      (Evolved limits source (.compare op left right)) := by
  unfold EvalM.condition
  apply Realizes.node_bind
  rw [← bind_pure (meaning limits source right)]
  apply h.onChild_bind rfl
  · exact fun _ hsecond => .intro (recalls_of_new new) .compare (.cons hfirst (.cons hsecond .nil))
  · intro value second' m found
    obtain ⟨⟨rfl, -, -⟩, hsecond⟩ := found
    exact .pure ⟨rfl, second', rfl, hsecond⟩

/-- A comparison is resumed at its left side, and at its right one if there is something to test. -/
private theorem realizes_comparison (op : Comparison) (new : attributes.get? "value" = none)
    (hsecond : Evolved limits source right second)
    (h : Resumes limits source evaluate left first)
    (h' : Resumes limits source evaluate right second) :
    Realizes ⟨.comparison op, attributes, [first, second]⟩ (EvalM.comparison evaluate)
      (do
        let tested ← meaning limits source left
        if tested.targets.isEmpty then return (0 : Number)
        let threshold ← meaning limits source right
        let passed := tested.targets.countP fun target => op.relates target threshold.value
        return .int passed)
      (fun value node' n => value = .number n ∧ node'.kind = .comparison op ∧
        Evolved limits source (.compare op left right) node')
      (Evolved limits source (.compare op left right)) := by
  -- The node has evolved whenever its sides have, evaluated or not.
  have evolved {first second : Node} (hfirst : Evolved limits source left first)
      (hsecond : Evolved limits source right second) : Evolved limits source
        (.compare op left right) ⟨.comparison op, attributes, [first, second]⟩ :=
    .intro (recalls_of_new new) .compare (.cons hfirst (.cons hsecond .nil))
  unfold EvalM.comparison
  apply Realizes.childCount_bind
  rw [if_neg (by simp [Node.childCount])]
  apply Realizes.requireChildren_bind rfl
  apply h.onChild_bind rfl
  · exact fun _ hfirst => evolved hfirst hsecond
  intro value first tested found
  obtain ⟨⟨rfl, -, targets, found, shown⟩, hfirst⟩ := found
  have looked : Yields first ⟨.comparison op, attributes, [first, second]⟩
      (EvalM.onChild 0 EvalM.node) := fun _ => rfl
  apply Realizes.yields_bind looked
  simp only [found]
  -- The left side is evaluated by now, so tree and meaning have the same targets.
  cases targets with
  | nil =>
    obtain none : tested.targets = [] := List.map_eq_nil_iff.mp shown.symm
    rw [none]
    exact .pure ⟨rfl, rfl, evolved hfirst hsecond⟩
  | cons target targets =>
    -- There are targets, so the meaning looks at the threshold as well.
    have some : tested.targets.isEmpty = false := by
      cases htargets : tested.targets with
      | nil => rw [htargets] at shown; cases shown
      | cons => rfl
    rw [some]
    apply (realizes_condition op hfirst new h').bind
    intro c _ threshold found
    obtain ⟨rfl, second, rfl, hsecond⟩ := found
    -- Testing the targets does not fail, and marking them lets the left side evolve.
    have testable : ∀ node ∈ target :: targets,
        Condition.admits ⟨op, .number threshold.value⟩ node.value? := by
      intro node hnode
      have seen := List.mem_map_of_mem (f := Node.value?) hnode
      rw [shown] at seen
      obtain ⟨n, -, value⟩ := List.mem_map.mp seen
      exact admits_number op threshold.value ⟨n, value.symm⟩
    apply Realizes.yields_bind (run_requireTestable testable)
    have marked (trace : Trace) : Ensures (fun _ => False)
        ⟨.comparison op, attributes, [first, second]⟩ trace (EvalM.onChild 0 (EvalM.modifyNode
          (Node.mapTargets (Condition.mark ⟨op, .number threshold.value⟩))))
        fun _ node' _ => node'.kind = .comparison op ∧
          Evolved limits source (.compare op left right) node' :=
      .of_run (fun _ => rfl) ⟨rfl, evolved (hfirst.mapTargets _) hsecond⟩
    apply Realizes.ensures_bind marked
    intro _ node' found
    rw [countP_targets op threshold.value shown]
    exact .pure ⟨rfl, found⟩

/-! ## Functions -/

/-- A function that is always there is applied to its only argument. -/
private theorem realizes_ofNumber {label name : String} {f : Number → EvalM Number}
    {g : Number → Sem Number} (alike : ∀ n, Alike (f n) (g n)) {arguments : List Expr}
    {children : List Node} (new : attributes.get? "value" = none)
    (named : attributes.get? "name" = some (.text name))
    (all : List.Forall₂ (Evolved limits source) arguments children)
    (h : List.Forall₂ (Resumes limits source evaluate) arguments children) :
    Realizes ⟨.function, attributes, children⟩ ((DiceFunction.ofNumber label f).run evaluate)
      (Sem.applyTo name arguments.length g (meaningOfOnly limits source arguments))
      (fun value node' n => value = .number n ∧ node'.kind = .function ∧
        Evolved limits source (.call name arguments) node')
      (Evolved limits source (.call name arguments)) := by
  have evolved {children : List Node}
      (all : List.Forall₂ (Evolved limits source) arguments children) :
      Evolved limits source (.call name arguments) ⟨.function, attributes, children⟩ :=
    .intro (recalls_of_new new) (.call named) all
  have found : Node.get? ⟨.function, attributes, children⟩ "name" = some (.text name) := named
  have count : Node.childCount ⟨.function, attributes, children⟩ = arguments.length :=
    all.length_eq.symm
  unfold DiceFunction.ofNumber DiceFunction.singleArgument
  dsimp only
  rw [bind_assoc]
  apply Realizes.node_bind
  rw [count, found]
  -- With any other number of arguments the meaning has no single argument to look at.
  by_cases single : arguments.length = 1
  · obtain ⟨argument, rfl⟩ := List.length_eq_one_iff.mp single
    cases h with
    | @cons _ child _ _ first rest =>
      cases rest
      simp only [List.length_singleton, ne_eq, not_true_eq_false, if_false, bind_assoc, pure_bind]
      apply (first.number fun _ _ _ found => found.1.value).onChild_bind rfl
      · exact fun _ first => evolved (.cons first .nil)
      intro a child' m found
      obtain ⟨rfl, -, first⟩ := found
      rw [← bind_pure (g m.value)]
      apply (Realizes.alike (alike m.value) (evolved (.cons first .nil))).bind
      intro a node' b found
      obtain ⟨rfl, rfl⟩ := found
      exact .pure ⟨rfl, rfl, evolved (.cons first .nil)⟩
  · have none : meaningOfOnly limits source arguments = none := by
      rcases arguments with _ | ⟨argument, _ | ⟨second, rest⟩⟩
      case nil => rfl
      case cons.nil => exact absurd rfl single
      case cons.cons => rfl
    rw [none]
    simp only [ne_eq, single, not_false_eq_true, if_true, bind_assoc]
    apply (Realizes.report _ (evolved all)).bind
    intro _ node' _ same
    subst same
    exact .pure ⟨rfl, rfl, evolved all⟩

/-- A call is resumed at its argument, if it is the only one. -/
private theorem resumes_call {name : String} {arguments : List Expr} {children : List Node}
    (new : attributes.get? "value" = none) (named : attributes.get? "name" = some (.text name))
    (all : List.Forall₂ (Evolved limits source) arguments children)
    (h : List.Forall₂ (Resumes limits source
      (evaluateWithin ⟨limits, .default, source⟩ levels)) arguments children) :
    Resumes limits source (evaluateWithin ⟨limits, .default, source⟩ (levels + 1))
      (.call name arguments) ⟨.function, attributes, children⟩ := by
  have evolved : Evolved limits source (.call name arguments) ⟨.function, attributes, children⟩ :=
    .intro (recalls_of_new new) (.call named) all
  have fresh : Node.value? ⟨.function, attributes, children⟩ = none := new
  have found : Node.get? ⟨.function, attributes, children⟩ "name" = some (.text name) := named
  -- The tables of the program and of the meaning know the same names.
  rcases default_alike name with ⟨label, f, g, known, known', alike⟩ | ⟨unknown, unknown'⟩
  · have single : meaning limits source (.call name arguments) =
        Sem.applyTo name arguments.length g (meaningOfOnly limits source arguments) >>= fun n =>
          pure (.single n) := by
      rw [meaning, known']
    have plain : NodeKind.function ≠ .group := by decide
    apply resumes_single .function single fresh ⟨rfl, plain⟩
    unfold compute
    apply Realizes.node_bind
    apply Realizes.node_bind
    simp only [found, known]
    exact realizes_ofNumber alike new named all h
  · -- A name that no table knows is a fault on both sides.
    apply resumes_of_compute fresh
    have missing : meaning limits source (.call name arguments) =
        throw (.unknownFunction (some (.text name))) := by
      rw [meaning, unknown']
    rw [missing]
    unfold compute
    apply Realizes.node_bind
    apply Realizes.node_bind
    simp only [found, unknown]
    exact .throw evolved

/-! ## Groups -/

/-- A group that is expanded holds its copies, or has held them before. -/
private theorem Unfolds.copies {related : Expr → Node → Prop} {members parts : List Expr}
    {repeats : Option Nat} {unfolded : Node} {trace trace' : Trace}
    (h : Unfolds limits node trace unfolded trace')
    (stage : Stage limits (.group members repeats) .group node.attributes parts)
    (all : List.Forall₂ related parts node.children) :
    List.Forall₂ related (limits.copies repeats members) unfolded.children := by
  -- Repeating related lists as often gives related lists.
  have flatten {times : Nat} {children : List Node} (all : List.Forall₂ related members children) :
      List.Forall₂ related (List.replicate times members).flatten
        (List.replicate times children).flatten := by
    induction times with
    | zero => exact .nil
    | succ times ih =>
      rw [List.replicate_succ, List.replicate_succ, List.flatten_cons, List.flatten_cons]
      exact List.rel_append all ih
  -- A group that was not repeated yet is copied now; one that was has lost its number, so that it
  -- can only be left as it is.
  cases stage with
  | group given small =>
    have given : node.get? "repeat" = repeats.map fun n : Nat => Value.int n := given
    cases h with
    | once single =>
      obtain rfl : repeats = none := Option.map_eq_none_iff.mp (given.symm.trans single)
      rw [Limits.copies_none]
      exact all
    | @repeated times stated within =>
      obtain rfl : repeats = some times := by
        rw [given] at stated
        obtain ⟨n, rfl, same⟩ := Option.map_eq_some_iff.mp stated
        cases same
        rfl
      have allowed : ∀ n ∈ some times, ∀ limit ∈ limits.maxRolls, n ≤ limit := by
        intro n hn
        cases hn
        exact within
      unfold Limits.copies
      rw [if_pos allowed]
      exact flatten all
    | @excess times limit _ stated limited above _ =>
      obtain rfl : repeats = some times := by
        rw [given] at stated
        obtain ⟨n, rfl, same⟩ := Option.map_eq_some_iff.mp stated
        cases same
        rfl
      -- Above the limit the meaning has no copies, and the tree has lost its members.
      have excess : ¬ ∀ n ∈ some times, ∀ limit ∈ limits.maxRolls, n ≤ limit := by
        intro within
        have := within times rfl limit limited
        omega
      unfold Limits.copies
      rw [if_neg excess]
      exact .nil
  | expanded forgotten _ =>
    have forgotten : node.get? "repeat" = none := forgotten
    cases h with
    | once _ => exact all
    | repeated given _ => cases forgotten.symm.trans given
    | excess given _ _ _ => cases forgotten.symm.trans given

/-- A member is evaluated and added to a sum. -/
private theorem realizes_add (h : Resumes limits source evaluate e node) (sum : Number) :
    Realizes node (do EvalM.ofNumber (sum.add (← EvalM.number evaluate)))
      (do
        let value := (← meaning limits source e).value
        return (← Sem.demand (sum.add value), value))
      (fun total node' result => total = result.1 ∧ node'.value? = some (.number result.2) ∧
        Evolved limits source e node')
      (Evolved limits source e) := by
  apply (h.number fun _ _ _ found => found.1.value).bind
  intro n node' m found
  obtain ⟨rfl, evaluated, evolved⟩ := found
  rw [← bind_pure (EvalM.ofNumber (sum.add m.value))]
  apply (Realizes.ofNumber (sum.add m.value) evolved).bind
  intro total node'' total' found
  obtain ⟨rfl, rfl⟩ := found
  exact .pure ⟨rfl, evaluated.stored, evolved⟩

/-- The members are evaluated one after the other. -/
private theorem concurs_members {parts : List Expr} {nodes : List Node}
    (h : List.Forall₂ (fun e node => Evolved limits source e node ∧
      Resumes limits source evaluate e node) parts nodes)
    (sum : Number) (record : Record) (trace : Trace) :
    Concurs
      (fun total (s : List Node × Record) (result : Number × List Number) => total = result.1 ∧
        s.1.map Node.value? = result.2.map (fun n => some (.number n)) ∧
        List.Forall₂ (Evolved limits source) parts s.1)
      (fun s => List.Forall₂ (Evolved limits source) parts s.1)
      (EvalM.foldNodes (fun acc => do EvalM.ofNumber (acc.add (← EvalM.number evaluate))) sum nodes
        record)
      (addMembers limits source parts sum trace) := by
  -- The sum that is carried along, the record and the trace change from member to member.
  induction h generalizing sum record trace with
  | nil => exact .ok ⟨rfl, rfl, .nil⟩
  | @cons e node parts nodes member others ih =>
    have first := (realizes_add member.2 sum).met record trace
    -- The meaning of a list is that of its head followed by that of its tail.
    have rest : addMembers limits source (e :: parts) sum =
        (do
          let value := (← meaning limits source e).value
          return (← Sem.demand (sum.add value), value)) >>= fun result =>
        addMembers limits source parts result.1 >>= fun others =>
        Pure.pure (others.1, result.2 :: others.2) := by
      simp [addMembers]
    rw [rest, EvalM.foldNodes]
    change Concurs _ _ _ (EStateM.bind _ _ _)
    unfold EStateM.bind
    generalize (do EvalM.ofNumber (sum.add (← EvalM.number evaluate)) : EvalM Number)
      ⟨node, record⟩ = result at first ⊢
    generalize (do
      let value := (← meaning limits source e).value
      return (← Sem.demand (sum.add value), value) : Sem (Number × Number)) trace = result'
      at first ⊢
    -- A fault leaves the other members as they are.
    cases first with
    | error evolved => exact .error (.cons evolved (others.imp fun _ _ other => other.1))
    | @ok total t b trace' related =>
      obtain ⟨rfl, stored, evolved⟩ := related
      have others := ih b.1 t.record trace'
      change Concurs _ _ _ (EStateM.bind _ _ _)
      unfold EStateM.bind
      dsimp only
      generalize EvalM.foldNodes _ b.1 _ t.record = result at others ⊢
      generalize addMembers limits source parts b.1 trace' = result' at others ⊢
      cases others with
      | error evolved' => exact .error (.cons evolved evolved')
      | ok related =>
        obtain ⟨rfl, shown, evolved'⟩ := related
        refine .ok ⟨rfl, ?_, .cons evolved evolved'⟩
        rw [List.map_cons, List.map_cons, stored, shown]

/-- The repeats of a group that is not yet unfolded can be written. -/
private theorem Stage.small {members parts : List Expr} {repeats : Option Nat}
    (h : Stage limits (.group members repeats) .group attributes parts) :
    ∀ n ∈ repeats, Writable n := by
  cases h <;> assumption

/-- A group that is not yet unfolded is unfolded without a fault. -/
private theorem Stage.ensures_expandGroup {members parts : List Expr} {repeats : Option Nat}
    (h : Stage limits (.group members repeats) .group node.attributes parts) (trace : Trace) :
    Ensures (fun _ => False) node trace (EvalM.expandGroup limits) fun _ unfolded trace' =>
      Unfolds limits node trace unfolded trace' := by
  have small := h.small
  cases h with
  | group given _ =>
    exact ensures_expandGroup_of_writable repeats given fun n hn =>
      Expr.writable_iff.mp (small n hn)
  | expanded forgotten _ => exact ensures_expandGroup_of_writable none forgotten nofun

/-- The sum of a group is that of the copies of its members. -/
private theorem exists_start_group {repeats : Option Nat} (small : ∀ n ∈ repeats, Writable n)
    (members : List Expr) (trace : Trace) :
    ∃ start, meaning limits source (.group members repeats) trace =
      (do
        let (sum, values) ← addMembers limits source (limits.copies repeats members) 0
        return Meaning.ofGroup sum values : Sem Meaning) start := by
  rw [meaning]
  unfold Limits.copies
  -- Within the limit nothing is collected before the members; above it the problem is.
  by_cases within : ∀ times ∈ repeats, ∀ limit ∈ limits.maxRolls, times ≤ limit
  · rw [if_pos within, Sem.sumGroup_within within, sumPasses_eq]
    exact ⟨trace, rfl⟩
  · rw [if_neg within]
    simp only [not_forall, not_le] at within
    obtain ⟨times, rfl, limit, limited, above⟩ := within
    have written : (Problem.tooManyRepeats (.int times) limit).isWritable = true := by
      have high := Expr.writable_iff.mp (small times rfl)
      exact (isWritable_pair rfl).mpr ⟨high, isWritable_of_lt (Int.ofNat_lt.mpr above) high⟩
    rw [Sem.sumGroup_above limited above]
    unfold Sem.collect
    rw [written]
    exact ⟨{ trace with problems := trace.problems ++ [_] }, rfl⟩

/-- A group is summed up, whether or not it has been expanded. -/
theorem resumes_group {members parts : List Expr} {repeats : Option Nat} {children : List Node}
    (new : attributes.get? "value" = none)
    (stage : Stage limits (.group members repeats) .group attributes parts)
    (all : List.Forall₂ (fun e node => Evolved limits source e node ∧
      Resumes limits source (evaluateWithin ⟨limits, .default, source⟩ levels) e node)
      parts children) :
    Resumes limits source (evaluateWithin ⟨limits, .default, source⟩ (levels + 1))
      (.group members repeats) ⟨.group, attributes, children⟩ := by
  have fresh : Node.value? ⟨.group, attributes, children⟩ = none := new
  apply resumes_of_compute fresh
  unfold compute
  apply Realizes.node_bind
  apply Realizes.of_start _ (exists_start_group stage.small members)
  -- First the members are repeated, which leaves the copies that the meaning adds up.
  have expanded (trace : Trace) : Ensures (fun _ => False) ⟨.group, attributes, children⟩ trace
      (EvalM.expandGroup limits) fun _ unfolded _ => unfolded.kind = .group ∧
        unfolded.value? = none ∧ unfolded.get? "repeat" = none ∧
        List.Forall₂ (fun e node => Evolved limits source e node ∧
          Resumes limits source (evaluateWithin ⟨limits, .default, source⟩ levels) e node)
          (limits.copies repeats members) unfolded.children := by
    apply (Stage.ensures_expandGroup stage trace).mono
    intro _ unfolded trace' unfolds
    exact ⟨unfolds.kind, unfolds.value?.trans fresh, unfolds.single, unfolds.copies stage all⟩
  apply Realizes.ensures_bind expanded
  intro _ unfolded found
  obtain ⟨kind, fresh, single, copies⟩ := found
  -- Whatever has become of the copies, the group has evolved with them.
  have evolved {nodes : List Node}
      (all : List.Forall₂ (Evolved limits source) (limits.copies repeats members) nodes) :
      Evolved limits source (.group members repeats) (unfolded.withChildren nodes) := by
    obtain ⟨_, attributes', _⟩ := unfolded
    subst kind
    exact .intro (recalls_of_new fresh) (.expanded single stage.small) all
  -- Then they are added up one after another, on both sides alike.
  have summed : Realizes unfolded (EvalM.foldChildren
      (fun acc => do
        EvalM.ofNumber (acc.add (← EvalM.number
          (evaluateWithin ⟨limits, .default, source⟩ levels)))) (Number.int 0))
      (addMembers limits source (limits.copies repeats members) 0)
      (fun total node' result => total = result.1 ∧ node'.kind = .group ∧
        node'.children.map Node.value? = result.2.map (fun n => some (.number n)) ∧
        Evolved limits source (.group members repeats) node')
      (Evolved limits source (.group members repeats)) := by
    constructor
    intro record trace
    have concurs := concurs_members copies (Number.int 0) record trace
    show Concurs _ _ _ (addMembers limits source _ (Number.int 0) trace)
    unfold EvalM.foldChildren
    dsimp only
    generalize EvalM.foldNodes _ (Number.int 0) _ record = result at concurs ⊢
    generalize addMembers limits source _ (Number.int 0) trace = result' at concurs ⊢
    cases concurs with
    | error all => exact .error (evolved all)
    | ok related =>
      obtain ⟨rfl, shown, all⟩ := related
      exact .ok ⟨rfl, kind, shown, evolved all⟩
  apply summed.bind
  intro sum node' result found
  obtain ⟨rfl, kind, shown, evolved⟩ := found
  exact .pure ⟨IsGroup.evaluated ⟨kind, _, _, rfl, rfl, shown⟩, evolved⟩

/-! ## Expressions -/

/-- Only a node without a value has to be computed. -/
private theorem resumes_of_new {rules : Rules} (h : Evolved limits source e node)
    (deep : node.depth ≤ levels)
    (computed : ∀ below, node.value? = none → (∀ child ∈ node.children, child.depth ≤ below) →
      Resumes limits source (evaluateWithin rules (below + 1)) e node) :
    Resumes limits source (evaluateWithin rules levels) e node := by
  obtain ⟨below, rfl⟩ := Nat.exists_eq_add_one.mpr (node.depth_pos.trans_le deep)
  cases stored : node.value? with
  | some value => exact resumes_stored h stored
  | none =>
    apply computed below stored
    intro child hchild
    have lower := Node.depth_lt_of_mem hchild
    omega

/-- Two lists that are related one by one are related in another way that follows for members. -/
private theorem forall₂_of_mem {α β : Type} {r t : α → β → Prop} {as : List α} {bs : List β}
    (all : List.Forall₂ r as bs) (h : ∀ a ∈ as, ∀ b ∈ bs, r a b → t a b) :
    List.Forall₂ t as bs := by
  induction all with
  | nil => exact .nil
  | cons first _ ih =>
    rw [List.forall_mem_cons] at h
    exact .cons (h.1 _ List.mem_cons_self first)
      (ih fun a ha b hb => h.2 a ha b (List.mem_cons_of_mem _ hb))

/-- An evolved node is evaluated to what its expression means. -/
theorem resumes_evolved (h : Evolved limits source e node) (deep : node.depth ≤ levels) :
    Resumes limits source (evaluateWithin ⟨limits, .default, source⟩ levels) e node := by
  -- The induction is on the expression: what has become of its parts is given by the stage, and a
  -- value that is already there is the one of the meaning.
  induction e generalizing node levels with
  | literal n =>
    apply resumes_of_new h deep
    intro below new _
    cases h with
    | intro _ stage _ =>
      cases stage with
      -- A literal always has its value, so there is nothing to compute.
      | literal valued => exact absurd new valued
  | roll count sides steps =>
    cases h with
    -- No stage is given for a roll, which has changed once it was thrown.
    | intro _ stage _ => cases stage
  | negate operand ih =>
    apply resumes_of_new h deep
    intro below new deep
    cases h with
    | intro _ stage all =>
      cases stage
      obtain ⟨child, others, evolved, rest, rfl⟩ := List.forall₂_cons_left_iff.mp all
      cases rest
      have first := ih evolved (deep child List.mem_cons_self)
      exact resumes_single .negate meaning_negate new ⟨rfl, nofun⟩
        (.node_bind (realizes_negation new first))
  | binary op left right ih ih' =>
    apply resumes_of_new h deep
    intro below new deep
    cases h with
    | intro _ stage all =>
      cases stage
      obtain ⟨child, others, evolved, rest, rfl⟩ := List.forall₂_cons_left_iff.mp all
      obtain ⟨child', others, evolved', none, rfl⟩ := List.forall₂_cons_left_iff.mp rest
      cases none
      have first := ih evolved (deep child List.mem_cons_self)
      have second := ih' evolved' (deep child' (List.mem_cons_of_mem _ List.mem_cons_self))
      exact resumes_single (.operator op) (meaning_binary op) new ⟨rfl, nofun⟩
        (.node_bind (realizes_arithmetic op new evolved' first second))
  | compare op left right ih ih' =>
    apply resumes_of_new h deep
    intro below new deep
    cases h with
    | intro _ stage all =>
      cases stage
      obtain ⟨child, others, evolved, rest, rfl⟩ := List.forall₂_cons_left_iff.mp all
      obtain ⟨child', others, evolved', none, rfl⟩ := List.forall₂_cons_left_iff.mp rest
      cases none
      have first := ih evolved (deep child List.mem_cons_self)
      have second := ih' evolved' (deep child' (List.mem_cons_of_mem _ List.mem_cons_self))
      exact resumes_single (.comparison op) (meaning_compare op) new ⟨rfl, nofun⟩
        (.node_bind (realizes_comparison op new evolved' first second))
  | call name arguments ih =>
    apply resumes_of_new h deep
    intro below new deep
    cases h with
    | intro _ stage all =>
      cases stage with
      | call named =>
        apply resumes_call new named all
        apply forall₂_of_mem all
        intro e he child hchild evolved
        exact ih e he evolved (deep child hchild)
  | group members repeats ih =>
    apply resumes_of_new h deep
    intro below new deep
    cases h with
    | @intro _ kind attributes children parts _ stage all =>
      obtain rfl : kind = .group := by cases stage <;> rfl
      -- The parts are the members or copies of them.
      have known : ∀ e ∈ parts, e ∈ members := by
        intro e he
        cases stage with
        | group _ _ => exact he
        | expanded _ _ => exact Limits.mem_copies he
      have members : List.Forall₂ (fun e node => Evolved limits source e node ∧
          Resumes limits source (evaluateWithin ⟨limits, .default, source⟩ below) e node)
          parts children := by
        apply forall₂_of_mem all
        intro e he child hchild evolved
        exact ⟨evolved, ih e (known e he) evolved (deep child hchild)⟩
      exact resumes_group new stage members

end

end DiceNotation
