import DiceNotation.Dice.Explode
import DiceNotation.Dice.Reroll
import DiceNotation.Dice.Select
import DiceNotation.Proofs.Semantics.Simulation

/-! # Dice as nodes

A rolled `dice` node has a child for each die.  Whatever a modifier does to these nodes, it does
to the dice that they stand for (`Die.ofNode`) what the semantics says; the other attributes of
the nodes play no part in it.

The requests of a modifier are made at once: `Trace.after` is a trace with some more requests for
the same range, `answers` what the source answers to them. -/

namespace DiceNotation

open DiceNotation.Expr (Bound)

/-- The die that a node stands for. -/
def Die.ofNode (node : Node) : Die where
  face :=
    match node.number? with
    | some (.int n) => n
    | _ => 0
  dropped := node.isDropped

/-- The node shows a face. -/
def Node.IsDie (node : Node) : Prop := ∃ n : Int, node.value? = some (.int n)

instance (node : Node) : Decidable node.IsDie :=
  match shown : node.value? with
  | some (.number (.int n)) => isTrue ⟨n, shown⟩
  | some (.number (.real _)) | some (.text _) | some (.truth _) | some .nothing | none =>
    isFalse fun ⟨_, face⟩ => by
      rw [shown] at face
      cases face

namespace Node.IsDie

variable {node : Node}

/-- A die shows the face that it stands for. -/
theorem value? (h : node.IsDie) : node.value? = some (.int (Die.ofNode node).face) := by
  obtain ⟨n, hn⟩ := h
  have face : (Die.ofNode node).face = n := by
    unfold Die.ofNode Node.number?
    rw [hn]
    rfl
  rw [hn, face]

/-- The face of a die is a number. -/
theorem number? (h : node.IsDie) : node.number? = some (.int (Die.ofNode node).face) := by
  unfold Node.number?
  rw [h.value?]
  rfl

/-- Marks do not matter. -/
theorem set (h : node.IsDie) {key : String} (value : Value) (mark : key ≠ "value") :
    (node.set key value).IsDie := by
  obtain ⟨n, hn⟩ := h
  refine ⟨n, ?_⟩
  unfold Node.value? at hn ⊢
  rw [Node.get?_set, if_neg (Ne.symm mark), hn]

end Node.IsDie

/-- A mark that is neither a value nor a drop leaves the die the same. -/
theorem ofNode_set {key : String} (node : Node) (value : Value)
    (mark : key ≠ "value" ∧ key ≠ "drop") : Die.ofNode (node.set key value) = Die.ofNode node := by
  unfold Die.ofNode Node.number? Node.value? Node.isDropped Node.hasText
  rw [Node.get?_set, Node.get?_set, if_neg (Ne.symm mark.1), if_neg (Ne.symm mark.2)]

/-- Setting the value gives the die another face. -/
private theorem ofNode_set_value (node : Node) (face : Int) :
    Die.ofNode (node.set "value" (.int face)) = { Die.ofNode node with face := face } := by
  unfold Die.ofNode Node.number? Node.value? Node.isDropped Node.hasText
  rw [Node.get?_set, Node.get?_set, if_pos rfl, if_neg (by decide)]
  rfl

/-- A node that is set to a face is a die. -/
theorem isDie_set_value (node : Node) (face : Int) : (node.set "value" (.int face)).IsDie := by
  refine ⟨face, ?_⟩
  unfold Node.value?
  rw [Node.get?_set, if_pos rfl]

/-- Marking a node as dropped drops the die. -/
theorem ofNode_set_drop (node : Node) (text : String) :
    Die.ofNode (node.set "drop" text) = { Die.ofNode node with dropped := text == "yes" } := by
  unfold Die.ofNode Node.number? Node.value? Node.isDropped Node.hasText
  rw [Node.get?_set, Node.get?_set, if_pos rfl, if_neg (by decide)]
  rfl

/-- A fresh die shows its face and is not dropped. -/
private theorem ofNode_die (sides : Value) (face : Int) :
    Die.ofNode (Dice.die sides face) = ⟨face, false⟩ := rfl

/-- A fresh die is a die. -/
theorem isDie_die (sides : Value) (face : Int) : (Dice.die sides face).IsDie := ⟨face, rfl⟩

/-! ## Dice that count -/

/-- The live nodes stand for the dice that are not dropped. -/
theorem ofNode_live (nodes : List Node) :
    (Dice.live nodes).map Die.ofNode = (nodes.map Die.ofNode).filter fun die => !die.dropped := by
  rw [List.filter_map]
  rfl

/-- Dice have numbers, the faces of the dice they stand for. -/
theorem mapM_number? {nodes : List Node} (h : ∀ node ∈ nodes, node.IsDie) :
    nodes.mapM Node.number? = some (nodes.map fun node => Number.int (Die.ofNode node).face) := by
  induction nodes with
  | nil => rfl
  | cons node nodes ih =>
    rw [List.mapM_cons, (h node List.mem_cons_self).number?,
      ih fun n hn => h n (List.mem_cons_of_mem _ hn)]
    rfl

/-- The numbers of the live nodes are the faces of the live dice. -/
theorem liveNumbers?_eq {nodes : List Node} (h : ∀ node ∈ nodes, node.IsDie) :
    Dice.liveNumbers? nodes = some ((Roll.liveFaces (nodes.map Die.ofNode)).map Number.int) := by
  have all : ∀ node ∈ Dice.live nodes, node.IsDie := fun node hn => h node (Dice.mem_live.mp hn).1
  unfold Dice.liveNumbers? Roll.liveFaces
  rw [← ofNode_live, mapM_number? all, List.map_map, List.map_map]
  rfl

/-- Adding integers as numbers is adding them as integers. -/
theorem sum_ints (faces : List Int) : Number.sum (faces.map Number.int) = .ok (.int faces.sum) := by
  -- The induction needs the sum from any number on.
  have from_ : ∀ start : Int,
      (faces.map Number.int).foldlM Number.add (.int start) = .ok (.int (start + faces.sum)) := by
    induction faces with
    | nil =>
      intro start
      rw [List.sum_nil, Int.add_zero]
      rfl
    | cons face faces ih =>
      intro start
      rw [List.sum_cons, ← Int.add_assoc]
      exact ih (start + face)
  unfold Number.sum
  rw [from_ 0, Int.zero_add]

/-! ## Conditions -/

/-- The condition makes the test of every face. -/
def Condition.Tests (c : Condition) (due : Int → Bool) : Prop :=
  ∀ face : Int, c.holds (some (.int face)) = due face

/-- Numbers that are integers are compared as integers. -/
private theorem relates_int (op : Comparison) (a b : Int) :
    op.relates (.int a) (.int b) =
      match op with
      | .equal => decide (a = b)
      | .greater => decide (b < a)
      | .greaterOrEqual => decide (b ≤ a)
      | .less => decide (a < b)
      | .lessOrEqual => decide (a ≤ b) := by
  cases op <;> simp [Comparison.relates]

/-- A comparison holds of a number just as it relates the numbers. -/
theorem holds_number (op : Comparison) (a b : Number) :
    op.holds (.number a) (.number b) = op.relates a b := by
  cases op <;> rfl

/-- A condition that is written makes the test that is written. -/
theorem tests_bound (bound : Bound) (default : Int) :
    Condition.Tests ⟨bound.op, .int bound.limit⟩ (Roll.test (some bound) default) := by
  intro face
  have applied : Condition.holds ⟨bound.op, .int bound.limit⟩ (some (.int face)) =
      bound.op.holds (.int face) (.int bound.limit) := rfl
  rw [applied, holds_number, relates_int]
  rfl

/-- Without a condition the test is for the face. -/
theorem tests_face (default : Int) :
    (Condition.face default).Tests (Roll.test none default) := by
  intro face
  have applied : (Condition.face default).holds (some (.int face)) =
      Comparison.equal.holds (.int face) (.int default) := rfl
  rw [applied, holds_number, relates_int]
  rfl

/-! ## Requests -/

/-- A trace with some more requests for the same range. -/
def Trace.after (trace : Trace) (faces : Faces) (count : Nat) : Trace :=
  { trace with requests := trace.requests ++ List.replicate count faces }

/-- No further requests leave the trace as it is. -/
theorem after_zero (trace : Trace) (faces : Faces) : trace.after faces 0 = trace := by
  unfold Trace.after
  rw [List.replicate_zero, List.append_nil]

section Draws

variable (source : Source) (faces : Faces) (trace : Trace)

/-- What the source answers to the next requests for a range. -/
def Trace.answers : Draw := fun k => source (trace.requests.length + k) faces

/-- Asking once more answers the next draw. -/
private theorem ask_after (drawn : Nat) :
    Sem.ask source faces (trace.after faces drawn) =
      .ok (trace.answers source faces drawn) (trace.after faces (drawn + 1)) := by
  have asked : (trace.after faces drawn).requests.length = trace.requests.length + drawn := by
    unfold Trace.after
    rw [List.length_append, List.length_replicate]
  have more : { trace.after faces drawn with
      requests := (trace.after faces drawn).requests ++ [faces] } =
        trace.after faces (drawn + 1) := by
    unfold Trace.after
    rw [List.replicate_succ', List.append_assoc]
  rw [← more, Trace.answers, ← asked]
  rfl

/-- A random number is asked for, and the computation goes on. -/
private theorem bind_ask_after (drawn : Nat) (next : Int → Sem β) :
    (Sem.ask source faces >>= next) (trace.after faces drawn) =
      next (trace.answers source faces drawn) (trace.after faces (drawn + 1)) := by
  change EStateM.bind _ _ _ = _
  unfold EStateM.bind
  rw [ask_after]

/-- A computation whose result is known goes on with it. -/
theorem bind_of_ok {sem : Sem β} {next : β → Sem γ} {trace trace' : Trace} {b : β}
    (h : sem trace = .ok b trace') : (sem >>= next) trace = next b trace' := by
  change EStateM.bind _ _ _ = _
  unfold EStateM.bind
  rw [h]

/-! ## Rolling, exploding and rolling again -/

/-- Fresh dice show the next answers in order. -/
theorem fresh_after (count drawn : Nat) :
    Roll.fresh (Sem.ask source faces) count (trace.after faces drawn) =
      .ok ((List.range' drawn count).map fun k => ⟨trace.answers source faces k, false⟩)
        (trace.after faces (drawn + count)) := by
  induction count generalizing drawn with
  | zero => rfl
  | succ count ih =>
    rw [Roll.fresh, bind_ask_after, bind_of_ok (ih (drawn + 1)), List.range'_succ, List.map_cons,
      Nat.add_assoc, Nat.add_comm 1]
    rfl

/-- The chain of a die on a tree is that of the semantics, and it asks as often. -/
private theorem chain_after {c : Condition} {due : Int → Bool} (tests : c.Tests due)
    (budget drawn : Nat) (face : Int) :
    let chain := Dice.chain c (trace.answers source faces) budget drawn (some (.int face))
    Roll.chain (Sem.ask source faces) due budget face (trace.after faces drawn) =
      .ok chain (trace.after faces (drawn + chain.1.length)) := by
  -- The recursion is on the budget, and the answers are read on from where the last one stood.
  induction budget generalizing drawn face with
  | zero =>
    rw [Roll.chain, ← tests face]
    rfl
  | succ budget ih =>
    rw [Roll.chain, Dice.chain, tests face]
    by_cases h : due face
    · rw [if_pos h, if_pos h, bind_ask_after, bind_of_ok (ih _ _)]
      dsimp only
      rw [List.length_cons, Nat.add_assoc, Nat.add_comm 1]
      rfl
    · rw [if_neg h, if_neg h]
      rfl

/-- Dice explode on a tree into the dice of the semantics, one die after the other. -/
theorem explode_after {c : Condition} {due : Int → Bool} (penetrating : Bool) (sides : Value)
    {nodes : List Node} (h : ∀ node ∈ nodes, node.IsDie)
    (tests : ∀ node ∈ nodes, node.isDropped = false → c.Tests due) (budget drawn : Nat) :
    let explosion := Dice.explode c (trace.answers source faces) (Dice.extraDie sides penetrating)
      budget drawn nodes
    Roll.explode (Sem.ask source faces) due penetrating budget (nodes.map Die.ofNode)
        (trace.after faces drawn) =
      .ok (explosion.dice.map Die.ofNode, explosion.capped)
        (trace.after faces explosion.draws) := by
  have extraDie : ∀ face, Die.ofNode (Dice.extraDie sides penetrating face) =
      { face := if penetrating then face - 1 else face } := by
    intro face
    unfold Dice.extraDie
    rw [ofNode_set _ _ (by decide), ofNode_die]
  -- The dice behind a die that explodes have what its chain leaves of the budget.
  induction nodes generalizing budget drawn with
  | nil => rfl
  | cons node nodes ih =>
    have ih := ih (fun n hn => h n (List.mem_cons_of_mem _ hn))
      fun n hn => tests n (List.mem_cons_of_mem _ hn)
    have head := h node List.mem_cons_self
    rw [List.map_cons, Roll.explode, Dice.explode]
    have dropped : (Die.ofNode node).dropped = node.isDropped := rfl
    rw [dropped]
    cases hd : node.isDropped with
    | true =>
      simp only [if_true]
      rw [bind_of_ok (ih budget drawn)]
      rfl
    | false =>
      have hchain := chain_after source faces trace (tests node List.mem_cons_self hd) budget drawn
        (Die.ofNode node).face
      rw [← head.value?] at hchain
      simp only [Bool.false_eq_true, if_false] at hchain ⊢
      rw [bind_of_ok hchain]
      generalize Dice.chain c (trace.answers source faces) budget drawn node.value? = chain
      -- The dice that a chain adds are the same dice in both forms.
      have mapped : (chain.1.map (Dice.extraDie sides penetrating)).map Die.ofNode =
          chain.1.map fun face => { face := if penetrating then face - 1 else face : Die } := by
        rw [List.map_map]
        exact List.map_congr_left fun face _ => extraDie face
      -- A chain that was cut ends the explosion; else the next dice have the rest of the budget.
      cases hcapped : chain.2 with
      | true =>
        simp only [if_true]
        rw [List.map_append, List.map_cons, mapped]
        rfl
      | false =>
        have run := ih (budget - chain.1.length) (drawn + chain.1.length)
        simp only [Bool.false_eq_true, if_false]
        rw [bind_of_ok run, List.map_append, List.map_cons, mapped]
        rfl

/-- A die that is rolled again asks for as many numbers as it counts, and shows the last one. -/
private theorem rerollFace_after {c : Condition} {due : Int → Bool} (tests : c.Tests due)
    (once : Bool) (budget drawn : Nat) (face : Int) :
    let rerolled := Dice.rerollValue c (trace.answers source faces) once budget drawn
      (some (.int face))
    ∃ shown : Int, rerolled.value = some (.int shown) ∧ (rerolled.count = 0 → shown = face) ∧
      Roll.rerollFace (Sem.ask source faces) due once budget face (trace.after faces drawn) =
        .ok (shown, rerolled.capped) (trace.after faces (drawn + rerolled.count)) := by
  -- The face that is shown is the last one that was drawn, so it changes along the recursion.
  induction budget generalizing drawn face with
  | zero =>
    refine ⟨face, rfl, fun _ => rfl, ?_⟩
    rw [Roll.rerollFace, ← tests face]
    rfl
  | succ budget ih =>
    rw [Roll.rerollFace, Dice.rerollValue, tests face]
    -- A due die asks for the next face; the others ask for none and stay as they are.
    by_cases h : due face
    · rw [if_pos h, if_pos h, bind_ask_after]
      cases once with
      | true => exact ⟨_, rfl, nofun, rfl⟩
      | false =>
        obtain ⟨shown, value, -, run⟩ := ih (drawn + 1) (trace.answers source faces drawn)
        refine ⟨shown, value, nofun, ?_⟩
        rw [Nat.add_assoc, Nat.add_comm 1] at run
        exact run
    · rw [if_neg h, if_neg h]
      exact ⟨face, rfl, fun _ => rfl, rfl⟩

/-- A rerolled node stands for a die with the last face shown. -/
private theorem ofNode_applyTo {node : Node} {rerolled : Dice.RerolledDie} {shown : Int}
    (value : rerolled.value = some (.int shown))
    (unchanged : rerolled.count = 0 → shown = (Die.ofNode node).face) :
    Die.ofNode (rerolled.applyTo node) = ⟨shown, node.isDropped⟩ := by
  obtain ⟨_, count, capped⟩ := rerolled
  cases value
  cases count with
  | zero =>
    rw [unchanged rfl]
    rfl
  | succ count =>
    have applied : Dice.RerolledDie.applyTo ⟨some (.int shown), count + 1, capped⟩ node =
        (node.set "value" (.int shown)).set "rerolled" (.int (count + 1 : Nat)) := rfl
    rw [applied, ofNode_set _ _ (by decide), ofNode_set_value]
    rfl

/-- Dice are rerolled on a tree to the dice of the semantics, one die after the other. -/
theorem reroll_after {c : Condition} {due : Int → Bool} (once : Bool) (budget : Nat)
    {nodes : List Node} (h : ∀ node ∈ nodes, node.IsDie)
    (tests : ∀ node ∈ nodes, node.isDropped = false → c.Tests due) (drawn : Nat) :
    let rerolled := Dice.reroll c (trace.answers source faces) once budget drawn nodes
    Roll.reroll (Sem.ask source faces) due once budget (nodes.map Die.ofNode)
        (trace.after faces drawn) =
      .ok (rerolled.dice.map Die.ofNode, rerolled.capped)
        (trace.after faces rerolled.draws) := by
  -- Every die has the whole budget to itself; only the draws go on from die to die.
  induction nodes generalizing drawn with
  | nil => rfl
  | cons node nodes ih =>
    have head := h node List.mem_cons_self
    have ih := ih (fun n hn => h n (List.mem_cons_of_mem _ hn))
      fun n hn => tests n (List.mem_cons_of_mem _ hn)
    rw [List.map_cons, Roll.reroll, Dice.reroll]
    have dropped : (Die.ofNode node).dropped = node.isDropped := rfl
    rw [dropped]
    cases hd : node.isDropped with
    | true =>
      simp only [if_true]
      -- A dropped die is passed over.
      rw [bind_of_ok (ih drawn)]
      rfl
    | false =>
      obtain ⟨shown, value, unchanged, run⟩ := rerollFace_after source faces trace
        (tests node List.mem_cons_self hd) once budget drawn (Die.ofNode node).face
      rw [← head.value?] at value unchanged run
      have applied := ofNode_applyTo value unchanged
      have run' := ih (drawn + (Dice.rerollValue c (trace.answers source faces) once
        budget drawn node.value?).count)
      simp only [Bool.false_eq_true, if_false]
      rw [bind_of_ok run, bind_of_ok run', List.map_cons, applied, hd]
      rfl

end Draws

/-! ## Ranking -/

/-- Nodes with integers rank as the integers do. -/
theorem ranksBefore_int (descending : Bool) (m n : Int) :
    Dice.ranksBefore descending (some (.int m)) (some (.int n)) =
      Roll.ranksBefore descending m n := by
  unfold Dice.ranksBefore Roll.ranksBefore
  cases descending <;> simp [← decide_not]

/-- The same places are selected among nodes and among dice. -/
theorem selection_eq (highest : Bool) (amount : Int) {nodes : List Node}
    (h : ∀ node ∈ nodes, node.IsDie) :
    Dice.selection highest amount nodes =
      Roll.selection highest amount (nodes.map Die.ofNode) := by
  unfold Dice.selection Dice.ranking Roll.selection
  -- Each candidate is kept together with its place, which is not changed.
  let stand : Node × Nat → Die × Nat := Prod.map Die.ofNode id
  have candidates : ((nodes.map Die.ofNode).zipIdx.filter fun entry => !entry.1.dropped) =
      (nodes.zipIdx.filter fun entry => !entry.1.isDropped).map stand := by
    rw [List.zipIdx_map, List.filter_map]
    rfl
  -- The nodes are ranked by their numbers, and these are the faces of the dice that they stand for.
  have same : ∀ a ∈ nodes.zipIdx.filter fun entry => !entry.1.isDropped,
      ∀ b ∈ nodes.zipIdx.filter fun entry => !entry.1.isDropped,
        Dice.ranksBefore highest a.1.number? b.1.number? =
          Roll.ranksBefore highest (stand a).1.face (stand b).1.face := by
    intro a ha b hb
    have isDie : ∀ entry ∈ nodes.zipIdx, entry.1.IsDie :=
      fun entry hentry => h _ (List.fst_mem_of_mem_zipIdx hentry)
    rw [(isDie a (List.mem_filter.mp ha).1).number?, (isDie b (List.mem_filter.mp hb).1).number?,
      ranksBefore_int]
    rfl
  have ranked := List.map_mergeSort
    (s := fun (a b : Die × Nat) => Roll.ranksBefore highest a.1.face b.1.face) same
  dsimp only
  rw [candidates, ← ranked, List.map_map]
  rfl

/-- What is done to each node, knowing its place, is done to the die it stands for. -/
private theorem ofNode_map_zipIdx {f : Node × Nat → Node} {g : Die × Nat → Die} {nodes : List Node}
    (step : ∀ entry, Die.ofNode (f entry) = g (Die.ofNode entry.1, entry.2)) :
    (nodes.zipIdx.map f).map Die.ofNode = (nodes.map Die.ofNode).zipIdx.map g := by
  rw [List.zipIdx_map, List.map_map, List.map_map]
  exact List.map_congr_left fun entry _ => step entry

/-- Keeping nodes is keeping the dice they stand for. -/
theorem keep_ofNode (highest : Bool) (amount : Int) {nodes : List Node}
    (h : ∀ node ∈ nodes, node.IsDie) :
    (Dice.keep highest amount nodes).map Die.ofNode =
      Roll.keep highest amount (nodes.map Die.ofNode) := by
  unfold Dice.keep Roll.keep
  rw [selection_eq highest amount h]
  -- The selected places are the same, so each die is compared on its own.
  apply ofNode_map_zipIdx
  intro entry
  have dropped : (Die.ofNode entry.1).dropped = entry.1.isDropped := rfl
  dsimp only
  rw [dropped]
  split
  · rfl
  · split
    · next selected => rw [ofNode_set_drop, selected]; rfl
    · next passed =>
      rw [Bool.not_eq_true] at passed
      rw [ofNode_set_drop, passed]
      rfl

/-- Dropping nodes is dropping the dice they stand for. -/
theorem drop_ofNode (highest : Bool) (amount : Int) {nodes : List Node}
    (h : ∀ node ∈ nodes, node.IsDie) :
    (Dice.drop highest amount nodes).map Die.ofNode =
      Roll.drop highest amount (nodes.map Die.ofNode) := by
  unfold Dice.drop Roll.drop
  rw [selection_eq highest amount h]
  apply ofNode_map_zipIdx
  intro entry
  dsimp only
  split
  · rw [ofNode_set_drop]
    rfl
  · rfl

/-- Sorting nodes is sorting the dice they stand for. -/
theorem sort_ofNode (descending : Bool) {nodes : List Node} (h : ∀ node ∈ nodes, node.IsDie) :
    (Dice.sort descending nodes).map Die.ofNode =
      Roll.sort descending (nodes.map Die.ofNode) := by
  have same : ∀ a ∈ nodes, ∀ b ∈ nodes, Dice.ranksBefore descending a.number? b.number? =
      Roll.ranksBefore descending (Die.ofNode a).face (Die.ofNode b).face := by
    intro a ha b hb
    rw [(h a ha).number?, (h b hb).number?, ranksBefore_int]
  exact List.map_mergeSort same

/-- Critical marks leave the dice the same. -/
theorem markCritical_ofNode (c : Condition) (kind : Value) (nodes : List Node) :
    (Dice.markCritical c kind nodes).map Die.ofNode = nodes.map Die.ofNode := by
  unfold Dice.markCritical
  rw [List.map_map]
  apply List.map_congr_left
  intro node _
  rw [Function.comp_apply]
  split
  · exact ofNode_set _ _ (by decide)
  · rfl

end DiceNotation
