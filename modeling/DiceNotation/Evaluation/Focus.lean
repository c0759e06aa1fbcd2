import DiceNotation.Dice.Basic
import DiceNotation.Evaluation.Fault
import DiceNotation.Evaluation.Problem

/-! # Working in place on a tree

An evaluation changes the tree it works on.  A step (`EvalM`) has one node in focus, which it
may change, and a `Record` of what happened so far.  `onChild` moves the focus to a child for
the length of a step, `onDice` to the dice roll that first children lead to, and
`foldChildren` to each child in turn.  A step that fails keeps the changes made before the
failure, in the node and in the record. -/

namespace DiceNotation

/-- What has happened in an evaluation so far, each in order. -/
structure Record where
  /-- The problems collected. -/
  problems : Array Problem := #[]
  /-- The ranges from which random numbers were requested. -/
  requests : Array Faces := #[]
  /-- The log. -/
  notes : Array Note := #[]
deriving Inhabited

/-- A node and the record. -/
structure Focus where
  node : Node
  record : Record
deriving Inhabited

/-- A step of an evaluation. -/
abbrev EvalM := EStateM Fault Focus

namespace Record

/-- Add a line to the log. -/
def note (record : Record) (n : Note) : Record :=
  { record with notes := record.notes.push n }

/-- Collect a problem. -/
def collect (record : Record) (problem : Problem) : Record :=
  { record.note (.collected problem) with problems := record.problems.push problem }

/-- Add `count` requests for a random number from the same range. -/
def request (record : Record) (faces : Faces) (count : Nat) : Record :=
  { record with requests := record.requests ++ Array.replicate count faces }

end Record

namespace Node

/-- The dice roll that first children lead to, if they lead to one. -/
def findDice? : Node → Option Node
  | ⟨kind, attributes, children⟩ =>
    if kind = .dice then some ⟨kind, attributes, children⟩
    else
      match children with
      | [] => none
      | child :: _ => findDice? child

/-- Put another node in the place of the dice roll that first children lead to. -/
def replaceDice : (tree : Node) → (dice : Node) → Node
  | ⟨kind, attributes, children⟩, dice =>
    if kind = .dice then dice
    else
      match children with
      | [] => ⟨kind, attributes, []⟩
      | child :: rest => ⟨kind, attributes, replaceDice child dice :: rest⟩

end Node

namespace EvalM

/-- The node in focus. -/
def node : EvalM Node := return (← get).node

/-- Change the node in focus. -/
def modifyNode (f : Node → Node) : EvalM Unit :=
  modify fun s => { s with node := f s.node }

/-- Change the record. -/
def modifyRecord (f : Record → Record) : EvalM Unit :=
  modify fun s => { s with record := f s.record }

/-- Set an attribute of the node in focus. -/
def setAttribute (key : String) (value : Value) : EvalM Unit :=
  modifyNode fun n => n.set key value

/-- Add a line to the log. -/
def note (n : Note) : EvalM Unit := modifyRecord fun r => r.note n

/-- Collect a problem, if its message can be written. -/
def report (problem : Problem) : EvalM Unit := do
  if !problem.isWritable then throw .tooManyDigits
  modifyRecord fun r => r.collect problem

/-- The number of children of the node in focus. -/
def childCount : EvalM Nat := return (← node).childCount

/-- The value of a computation, or its failure as a fault. -/
def ofNumber : Except NumberError α → EvalM α
  | .ok a => pure a
  | .error e => throw (.outOfRange e)

/-- Do a step with child `i` in focus. -/
def onChild (i : Nat) (step : EvalM α) : EvalM α := fun s =>
  match s.node.children[i]? with
  | none => .error .missingChild s
  | some child =>
    match step ⟨child, s.record⟩ with
    | .ok a t => .ok a ⟨s.node.setChild i t.node, t.record⟩
    | .error e t => .error e ⟨s.node.setChild i t.node, t.record⟩

/-- Do a step with the node in focus that is reached by the given child indices. -/
def onPath (path : List Int) (step : EvalM α) : EvalM α :=
  match path with
  | [] => step
  | index :: rest => do
    match Node.position? (← childCount) index with
    | none => throw .missingChild
    | some i => onChild i (onPath rest step)

/-- Do a step with the dice roll in focus that first children lead to. -/
def onDice (step : EvalM α) : EvalM α := fun s =>
  match s.node.findDice? with
  | none => .error (.noDice s.node.kind) s
  | some dice =>
    match step ⟨dice, s.record⟩ with
    | .ok a t => .ok a ⟨s.node.replaceDice t.node, t.record⟩
    | .error e t => .error e ⟨s.node.replaceDice t.node, t.record⟩

/-- Do a step with each of the nodes in focus in turn, handing on a result.  On a failure the
    nodes behind are left as they are. -/
def foldNodes (step : β → EvalM β) : β → List Node → Record →
    EStateM.Result Fault (List Node × Record) β
  | acc, [], record => .ok acc ([], record)
  | acc, node :: rest, record =>
    match step acc ⟨node, record⟩ with
    | .error e t => .error e (t.node :: rest, t.record)
    | .ok acc t =>
      match foldNodes step acc rest t.record with
      | .ok acc (nodes, record) => .ok acc (t.node :: nodes, record)
      | .error e (nodes, record) => .error e (t.node :: nodes, record)

/-- Do a step with each child in focus in turn, handing on a result. -/
def foldChildren (step : β → EvalM β) (start : β) : EvalM β := fun s =>
  match foldNodes step start s.node.children s.record with
  | .ok acc (nodes, record) => .ok acc ⟨s.node.withChildren nodes, record⟩
  | .error e (nodes, record) => .error e ⟨s.node.withChildren nodes, record⟩

/-- Check that the node has exactly `needed` children. -/
def requireChildren (needed : Nat) : EvalM Unit := do
  let node ← node
  if node.childCount ≠ needed then
    throw (.wrongChildCount node.kind needed node.childCount)

/-- Check that the node has at least one child and at most `most`. -/
def requireChildrenUpTo (most : Nat) : EvalM Unit := do
  let node ← node
  if node.childCount = 0 ∨ most < node.childCount then
    throw (.childCountOutOfRange node.kind most node.childCount)

end EvalM

end DiceNotation
