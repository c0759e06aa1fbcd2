import DiceNotation.Proofs.Semantics.Constructs
import DiceNotation.Proofs.Trees.Chain
import DiceNotation.Proofs.Trees.Dice
import DiceNotation.Proofs.Trees.WellFormed

/-! # Expanded trees

An evaluation turns a well-formed tree into an expanded one: dice stand in the place of counts and
sides, groups hold their repeated members, targets of comparisons are marked, and a value is stored
on every node that was evaluated.  `Expands limits source before trace after value trace'` is the
relation between a tree, what was observed before, and what they become.  It has one rule for
each way in which a node can be evaluated; parts that are not evaluated stay as they are.

* `Alters`    what a modifier makes of the dice of the roll that it stands on
* `Unfolds`   what stands in a group when its members are evaluated
* `Expands`   a whole tree -/

namespace DiceNotation

open DiceNotation.Expr (Sides)
open Node (IsLiteral IsSides IsArgument WellFormed StandsOn)

namespace Node

/-- Store a number as the value of a node. -/
def store (node : Node) (n : Number) : Node := node.set "value" (.number n.normalize)

/-- Storing a value keeps the kind. -/
@[simp] theorem kind_store (node : Node) (n : Number) : (node.store n).kind = node.kind := rfl

/-- Storing a value keeps the children. -/
@[simp] theorem children_store (node : Node) (n : Number) :
    (node.store n).children = node.children := rfl

/-- What is stored is the value in its normal form. -/
@[simp] theorem value?_store (node : Node) (n : Number) :
    (node.store n).value? = some (.number n.normalize) := by
  simp [store, value?]

/-- Storing a value keeps the other attributes. -/
theorem get?_store (node : Node) (n : Number) {name : String} (other : name ≠ "value") :
    (node.store n).get? name = node.get? name := by
  simp [store, other]

/-- The node of a roll, with its dice. -/
def thrown (attributes : OrderedMap Value) (count : Int) (sides : Option Int)
    (dice : List Node) : Node :=
  (((⟨.dice, attributes, []⟩ : Node).set "count" (.int count)).set "sides"
    (shownSides sides)).withChildren dice

/-- A thrown roll shows its sides. -/
@[simp] theorem get?_sides_thrown (attributes : OrderedMap Value) (count : Int)
    (sides : Option Int) (dice : List Node) :
    (thrown attributes count sides dice).get? "sides" = some (shownSides sides) := by
  simp [thrown]

/-- The node of a roll with its dice changed and its value renewed. -/
def renewed (roll : Node) (dice : List Node) : Node :=
  (roll.withChildren dice).store (.int (Dice.total dice))

end Node

/-! ## Rolls -/

namespace Roll

/-- The dice that are thrown and what is observed then; none are thrown if that is not allowed. -/
def throwDice (source : Source) (allowed : Bool) (count : Nat) (sides : Option Int)
    (trace : Trace) : List Node × Trace :=
  if allowed then
    (Dice.fresh (shownSides sides) (trace.answers source (facesOf sides)) count,
      trace.after (facesOf sides) count)
  else ([], trace)

end Roll

/-! ## Modifiers -/

/-- The condition of a modifier with this argument, when it examines these dice. -/
inductive Stated (default : Condition) (examined : List Node) : List Node → Condition → Prop where
  | default {argument : List Node} (h : argument = [] ∨ examined = []) :
      Stated default examined argument default
  | given {op : Comparison} {attributes : OrderedMap Value} {limit : Node} {n : Nat}
      (present : examined ≠ []) (literal : limit.value? = some (.int n)) :
      Stated default examined [⟨.comparison op, attributes, [limit]⟩] ⟨op, .int n⟩

/-- How many dice a modifier with this argument keeps or drops. -/
inductive Amounts : List Node → Int → Prop where
  | one : Amounts [] 1
  | given {literal : Node} {n : Nat} {amount : Int} (value : literal.value? = some (.int n))
      (rounded : (Number.int n).roundHalfUp = .ok amount) : Amounts [literal] amount

/-- Collect a problem if a limit was reached. -/
def Sem.tell (capped : Bool) (problem : Problem) : Sem Unit :=
  if capped then Sem.collect problem else return

section

variable (limits : Limits) (source : Source)

/-- What a modifier `node` with an argument makes of the dice of a roll. -/
inductive Alters (node roll : Node) (argument : List Node) :
    Modifier → Trace → List Node → Trace → Prop where
  | explode {sides : Value} {faces : Faces} {c : Condition} {explosion : Dice.Explosion}
      {trace trace' : Trace} (hsides : roll.get? "sides" = some sides)
      (hfaces : Dice.faces sides = .ok (some faces))
      (stated : Stated (.face faces.high) (Dice.live roll.children) argument c)
      (exploded : Dice.explode c (trace.answers source faces)
        (Dice.extraDie sides (node.hasText "penetrate" "yes")) limits.maxIterations 0
        roll.children = explosion)
      (told : Sem.tell explosion.capped (.explosionLimit limits.maxIterations)
        (trace.after faces explosion.draws) = .ok () trace') :
      Alters node roll argument .explode trace explosion.dice trace'
  | keep {amount : Int} {trace : Trace} (amounts : Amounts argument amount) :
      Alters node roll argument .keep trace
        (Dice.keep (node.hasText "type" "highest") amount roll.children) trace
  | drop {amount : Int} {trace : Trace} (amounts : Amounts argument amount) :
      Alters node roll argument .drop trace
        (Dice.drop (node.hasText "type" "highest") amount roll.children) trace
  | critical {sides kind : Value} {faces : Faces} {c : Condition} {trace : Trace}
      (hsides : roll.get? "sides" = some sides) (hfaces : Dice.faces sides = .ok (some faces))
      (hkind : (node.get? "type").getD "success" = kind)
      (stated : Stated (.face (if kind.isText "success" then faces.high else faces.low))
        roll.children argument c) :
      Alters node roll argument .critical trace (Dice.markCritical c kind roll.children) trace
  | reroll {sides : Value} {faces : Faces} {c : Condition} {rerolled : Dice.Rerolled}
      {trace trace' : Trace} (hsides : roll.get? "sides" = some sides)
      (hfaces : Dice.faces sides = .ok (some faces))
      (stated : Stated (.face faces.low) (Dice.live roll.children) argument c)
      (hrerolled : Dice.reroll c (trace.answers source faces) (node.hasText "once" "yes")
        limits.maxIterations 0 roll.children = rerolled)
      (told : Sem.tell rerolled.capped (.rerollLimit limits.maxIterations)
        (trace.after faces rerolled.draws) = .ok () trace') :
      Alters node roll argument .reroll trace rerolled.dice trace'
  | sort {trace : Trace} :
      Alters node roll argument .sort trace
        (Dice.sort (node.hasText "direction" "descending") roll.children) trace

end

/-! ## Groups -/

/-- What stands in a group when its members are evaluated. -/
inductive Unfolds (limits : Limits) (group : Node) (trace : Trace) : Node → Trace → Prop where
  | once (single : group.get? "repeat" = none) : Unfolds limits group trace group trace
  | repeated {times : Nat} (given : group.get? "repeat" = some (.int times))
      (within : ∀ limit ∈ limits.maxRolls, times ≤ limit) :
      Unfolds limits group trace
        (((group.unset "repeat").withChildren
          (List.replicate times group.children).flatten).set "repeated" (.int times)) trace
  | excess {times limit : Nat} {trace' : Trace}
      (given : group.get? "repeat" = some (.int times))
      (limited : limits.maxRolls = some limit) (above : limit < times)
      (told : Sem.collect (.tooManyRepeats (.int times) limit) trace = .ok () trace') :
      Unfolds limits group trace ((group.unset "repeat").withChildren []) trace'

/-- The evaluation of a member of a group. -/
structure Visit where
  before : Node
  start : Trace
  after : Node
  value : Number
  finish : Trace

/-- Each visit begins where the one before it ended. -/
def Visit.Linked : List Visit → Trace → Trace → Prop
  | [], trace, trace' => trace = trace'
  | visit :: visits, trace, trace' => visit.start = trace ∧ Linked visits visit.finish trace'

/-! ## Trees -/

section

variable (limits : Limits) (source : Source)

/-- The tree `before` is evaluated to the tree `after` with the given value. -/
inductive Expands : (before : Node) → Trace → (after : Node) → Number → Trace → Prop where
  | literal {attributes : OrderedMap Value} {n : Nat} {trace : Trace}
      (stored : attributes.get? "value" = some (.int n)) :
      Expands ⟨.integer, attributes, []⟩ trace ⟨.integer, attributes, []⟩ (.int n) trace
  | negate {attributes : OrderedMap Value} {operand operand' : Node} {a : Number}
      {trace trace' : Trace} (h : Expands operand trace operand' a trace') :
      Expands ⟨.negate, attributes, [operand]⟩ trace
        (Node.store ⟨.negate, attributes, [operand']⟩ a.negate) a.negate.normalize trace'
  | operator {op : Operator} {attributes : OrderedMap Value} {left left' right right' : Node}
      {a b n : Number} {trace trace₁ trace₂ trace' : Trace}
      (hleft : Expands left trace left' a trace₁) (hright : Expands right trace₁ right' b trace₂)
      (applied : Sem.operate op a b trace₂ = .ok n trace') :
      Expands ⟨.operator op, attributes, [left, right]⟩ trace
        (Node.store ⟨.operator op, attributes, [left', right']⟩ n) n.normalize trace'
  -- There is nothing to test, and the threshold is not evaluated.
  | untested {op : Comparison} {attributes : OrderedMap Value} {left left' right : Node}
      {a : Number} {trace trace' : Trace} (hleft : Expands left trace left' a trace')
      (empty : left'.targets? = some []) (hright : right.WellFormed) :
      Expands ⟨.comparison op, attributes, [left, right]⟩ trace
        (Node.store ⟨.comparison op, attributes, [left', right]⟩ 0) (.int 0) trace'
  | tested {op : Comparison} {attributes : OrderedMap Value} {left left' right right' : Node}
      {a b : Number} {targets : List Node} {passed : Nat} {trace trace₁ trace' : Trace}
      (hleft : Expands left trace left' a trace₁) (found : left'.targets? = some targets)
      (present : targets ≠ []) (hright : Expands right trace₁ right' b trace')
      (count : (targets.countP fun target => Condition.holds ⟨op, .number b⟩ target.value?) =
        passed) :
      Expands ⟨.comparison op, attributes, [left, right]⟩ trace
        (Node.store ⟨.comparison op, attributes,
          [left'.mapTargets (Condition.mark ⟨op, .number b⟩), right']⟩ (.int passed))
        (.int passed) trace'
  | call {attributes : OrderedMap Value} {name : String} {f : Number → Sem Number}
      {argument argument' : Node} {a n : Number} {trace trace₁ trace' : Trace}
      (named : attributes.get? "name" = some (.text name)) (known : Sem.function? name = some f)
      (h : Expands argument trace argument' a trace₁) (applied : f a trace₁ = .ok n trace') :
      Expands ⟨.function, attributes, [argument]⟩ trace
        (Node.store ⟨.function, attributes, [argument']⟩ n) n.normalize trace'
  -- With another number of arguments than one, none is evaluated.
  | miscall {attributes : OrderedMap Value} {name : String} {f : Number → Sem Number}
      {arguments : List Node} {trace trace' : Trace}
      (named : attributes.get? "name" = some (.text name)) (known : Sem.function? name = some f)
      (wrong : arguments.length ≠ 1) (harguments : ∀ argument ∈ arguments, argument.WellFormed)
      (told : Sem.collect (.argumentCount (some (.text name)) arguments.length) trace =
        .ok () trace') :
      Expands ⟨.function, attributes, arguments⟩ trace
        (Node.store ⟨.function, attributes, arguments⟩ 0) (.int 0) trace'
  | group {group unfolded : Node} {visits : List Visit} {sum : Number}
      {trace trace₁ trace' : Trace} (kind : group.kind = .group)
      (unfolds : Unfolds limits group trace unfolded trace₁)
      (members : unfolded.children = visits.map Visit.before)
      (linked : Visit.Linked visits trace₁ trace')
      (h : ∀ visit ∈ visits, Expands visit.before visit.start visit.after visit.value visit.finish)
      (added : Number.sum (visits.map Visit.value) = .ok sum) :
      Expands group trace ((unfolded.withChildren (visits.map Visit.after)).store sum)
        sum.normalize trace'
  | roll {attributes sidesAttributes : OrderedMap Value} {count count' : Node} {sides : Sides}
      {a : Number} {times : Int} {sides' : Option Int} {countAllowed sidesAllowed : Bool}
      {dice : List Node} {trace trace₁ trace₂ trace₃ trace' : Trace}
      (stored : sidesAttributes.get? "value" = some sides.toValue)
      (hcount : Expands count trace count' a trace₁) (rounded : a.roundHalfUp = .ok times)
      (hsides : Roll.sideCount sides = pure sides')
      (countChecked : Roll.countAllowed limits times trace₁ = .ok countAllowed trace₂)
      (sidesChecked : Roll.sidesAllowed limits sides' trace₂ = .ok sidesAllowed trace₃)
      (threw : Roll.throwDice source (countAllowed && sidesAllowed) times.toNat sides' trace₃ =
        (dice, trace')) :
      Expands ⟨.dice, attributes, [count, ⟨.diceSides, sidesAttributes, []⟩]⟩ trace
        ((Node.thrown attributes times sides' dice).store (.int (Dice.total dice)))
        (.int (Dice.total dice)) trace'
  | modifier {m : Modifier} {attributes : OrderedMap Value} {operand operand' roll : Node}
      {argument dice : List Node} {a : Number} {trace trace₁ trace' : Trace}
      (h : Expands operand trace operand' a trace₁) (stands : StandsOn roll operand')
      (hargument : IsArgument m argument)
      (alters : Alters limits source ⟨.modifier m, attributes, operand :: argument⟩ roll argument m
        trace₁ dice trace') :
      Expands ⟨.modifier m, attributes, operand :: argument⟩ trace
        (Node.store ⟨.modifier m, attributes,
          operand'.replaceDice (roll.renewed dice) :: argument⟩ (.int (Dice.total dice)))
        (.int (Dice.total dice)) trace'

end

/-! ## What an expanded tree holds -/

/-- A roll that was thrown: it has its sides, its dice and their sum. -/
structure Node.IsThrown (roll : Node) : Prop where
  sides : ∃ sides, roll.get? "sides" = some (shownSides sides)
  value : roll.value? = some (.int (Dice.total roll.children))
  dice : ∀ die ∈ roll.children, die.IsDiceRoll

/-- The dice of a thrown roll show faces. -/
theorem Node.IsThrown.faces {roll : Node} (h : roll.IsThrown) : ∀ die ∈ roll.children, die.IsDie :=
  fun die hdie => (h.dice die hdie).face

/-- The live dice of a thrown roll show faces. -/
theorem Node.IsThrown.live {roll : Node} (h : roll.IsThrown) :
    ∀ die ∈ Dice.live roll.children, die.IsDie :=
  fun die hdie => h.faces die (Dice.mem_live.mp hdie).1

/-- A thrown roll with other dice and their sum is a thrown roll. -/
theorem Node.IsThrown.renewed {roll : Node} (h : roll.IsThrown) {dice : List Node}
    (hdice : ∀ die ∈ dice, die.IsDiceRoll) : (roll.renewed dice).IsThrown where
  sides := by
    obtain ⟨sides, hsides⟩ := h.sides
    refine ⟨sides, ?_⟩
    rw [Node.renewed, Node.get?_store _ _ (by decide)]
    exact hsides
  value := Node.value?_store ..
  dice := hdice

/-- A roll with fresh dice and their sum is a thrown roll. -/
theorem Node.isThrown_thrown {attributes : OrderedMap Value} {count : Int} {sides : Option Int}
    {dice : List Node} (hdice : ∀ die ∈ dice, die.IsDiceRoll) :
    ((Node.thrown attributes count sides dice).store (.int (Dice.total dice))).IsThrown where
  sides := ⟨sides, by rw [Node.get?_store _ _ (by decide), Node.get?_sides_thrown]⟩
  value := Node.value?_store ..
  dice := hdice

section

variable {limits : Limits} {source : Source}

/-- What is kept within the faces that the source answers holds of the dice that are thrown. -/
theorem keptWithin_throwDice {shown : Int → Prop} {P : Node → Prop} (kept : KeptWithin shown P)
    {allowed : Bool} {count : Nat} {sides : Option Int} {dice : List Node} {trace trace' : Trace}
    (answers : allowed = true → ∀ k, shown (source k (Roll.facesOf sides)))
    (threw : Roll.throwDice source allowed count sides trace = (dice, trace')) :
    ∀ die ∈ dice, P die := by
  unfold Roll.throwDice at threw
  cases allowed with
  | true =>
    cases threw
    exact kept.fresh _ (fun _ => answers rfl _) _
  | false =>
    cases threw
    intro die hdie
    cases hdie

/-- What is thrown are dice. -/
theorem isDiceRoll_of_throwDice {allowed : Bool} {count : Nat} {sides : Option Int}
    {dice : List Node} {trace trace' : Trace}
    (threw : Roll.throwDice source allowed count sides trace = (dice, trace')) :
    ∀ die ∈ dice, die.IsDiceRoll :=
  keptWithin_throwDice kept_isDiceRoll.within (fun _ _ => trivial) threw

/-- What is kept within the faces that the source answers holds of the dice that a modifier
    leaves.  Where dice explode and penetrate, the extra dice show one less. -/
theorem Alters.keptWithin {shown : Int → Prop} {P : Node → Prop} (kept : KeptWithin shown P)
    {node roll : Node} {argument dice : List Node} {m : Modifier} {trace trace' : Trace}
    (alters : Alters limits source node roll argument m trace dice trace')
    (answers : roll.children ≠ [] → ∀ sides faces, roll.get? "sides" = some sides →
      Dice.faces sides = .ok (some faces) → ∀ k, shown (source k faces) ∧
        (m = .explode → node.hasText "penetrate" "yes" = true → shown (source k faces - 1)))
    (h : ∀ die ∈ roll.children, P die) : ∀ die ∈ dice, P die := by
  -- Only explosions and rerolls show faces that the source has answered.
  cases alters with
  | @explode _ _ _ _ trace _ hsides hfaces _ exploded =>
    subst exploded
    apply kept.explode _ _ _ _ _ h
    intro dice k
    have answer := answers dice _ _ hsides hfaces (trace.requests.length + k)
    by_cases penetrating : node.hasText "penetrate" "yes" = true
    · rw [if_pos penetrating]
      exact answer.2 rfl penetrating
    · rw [if_neg penetrating]
      exact answer.1
  | keep _ => exact kept.keep _ _ h
  | drop _ => exact kept.drop _ _ h
  | critical _ _ _ _ => exact kept.markCritical _ _ h
  | reroll hsides hfaces _ rerolled =>
    subst rerolled
    apply kept.reroll _ _ _ _ _ h
    intro dice k
    exact (answers dice _ _ hsides hfaces _).1
  | sort => exact Kept.sort _ h

/-- What is kept by every change of dice holds of the dice that a modifier leaves. -/
theorem Alters.kept {P : Node → Prop} (kept : Kept P) {node roll : Node}
    {argument dice : List Node} {m : Modifier} {trace trace' : Trace}
    (alters : Alters limits source node roll argument m trace dice trace')
    (h : ∀ die ∈ roll.children, P die) : ∀ die ∈ dice, P die :=
  alters.keptWithin kept.within (fun _ _ _ _ _ _ => ⟨trivial, fun _ _ => trivial⟩) h

/-- A group unfolds to a group. -/
theorem Unfolds.kind {group unfolded : Node} {trace trace' : Trace}
    (h : Unfolds limits group trace unfolded trace') : unfolded.kind = group.kind := by
  cases h <;> rfl

/-- Unfolding a group stores no value. -/
theorem Unfolds.value? {group unfolded : Node} {trace trace' : Trace}
    (h : Unfolds limits group trace unfolded trace') : unfolded.value? = group.value? := by
  cases h with
  | once _ => rfl
  | repeated _ _ => simp [Node.value?]
  | excess _ _ _ _ => simp [Node.value?]

/-- The repeats of a group are forgotten. -/
theorem Unfolds.single {group unfolded : Node} {trace trace' : Trace}
    (h : Unfolds limits group trace unfolded trace') : unfolded.get? "repeat" = none := by
  cases h with
  | once single => exact single
  | repeated _ _ => simp
  | excess _ _ _ _ => simp

/-- The members of a group are its own, however often they are repeated. -/
theorem Unfolds.mem_children {group unfolded member : Node} {trace trace' : Trace}
    (h : Unfolds limits group trace unfolded trace') (hmember : member ∈ unfolded.children) :
    member ∈ group.children := by
  cases h with
  | once _ => exact hmember
  | repeated _ _ =>
    obtain ⟨copy, hcopy, inside⟩ := List.mem_flatten.mp hmember
    rwa [List.eq_of_mem_replicate hcopy] at inside
  | excess _ _ _ _ => cases hmember

/-- What a group unfolds to are copies of its members. -/
theorem Unfolds.before_mem {group unfolded : Node} {trace trace' : Trace} {visits : List Visit}
    {visit : Visit} (h : Unfolds limits group trace unfolded trace')
    (members : unfolded.children = visits.map Visit.before) (hvisit : visit ∈ visits) :
    visit.before ∈ group.children := by
  apply h.mem_children
  rw [members]
  exact List.mem_map_of_mem hvisit

namespace Expands

variable {before after : Node} {n : Number} {trace trace' : Trace}

/-- An evaluation stores the value that it comes to. -/
theorem stored (h : Expands limits source before trace after n trace') :
    after.value? = some (.number n) := by
  cases h with
  | literal stored => exact stored
  | _ => exact Node.value?_store ..

/-- An expanded node keeps its kind. -/
theorem kind_eq (h : Expands limits source before trace after n trace') :
    after.kind = before.kind := by
  cases h with
  | group _ unfolds _ _ _ _ => exact unfolds.kind
  | _ => rfl

/-- An evaluation never leaves a die by itself. -/
theorem kind_ne_diceRoll (h : Expands limits source before trace after n trace') :
    after.kind ≠ .diceRoll := by
  rw [h.kind_eq]
  cases h with
  | group kind _ _ _ _ _ =>
    rw [kind]
    nofun
  | _ => nofun

/-- A roll with modifiers becomes a roll that was thrown, with the same modifiers; its value is
    the sum of the dice that count. -/
theorem onRoll (h : Expands limits source before trace after n trace')
    (isRoll : before.kind.isRoll = true) :
    ∃ roll, StandsOn roll after ∧ roll.IsThrown ∧ n = .int (Dice.total roll.children) := by
  -- Only the last two rules are about rolls and modifiers.
  induction h with
  | literal _ => cases isRoll
  | negate _ _ => cases isRoll
  | operator _ _ _ _ _ => cases isRoll
  | untested _ _ _ _ => cases isRoll
  | tested _ _ _ _ _ _ _ => cases isRoll
  | call _ _ _ _ _ => cases isRoll
  | miscall _ _ _ _ _ => cases isRoll
  | group kind _ _ _ _ _ _ =>
    rw [kind] at isRoll
    cases isRoll
  | roll _ _ _ _ _ _ threw _ =>
    exact ⟨_, .roll rfl, Node.isThrown_thrown (isDiceRoll_of_throwDice threw), rfl⟩
  | @modifier m _ operand operand' _ _ _ _ _ _ _ h stands _ alters ih =>
    -- The roll that the operand stands on is the one that the operand's evaluation threw.
    have below : operand.kind.isRoll = true := by
      rw [← h.kind_eq]
      exact stands.isRoll
    obtain ⟨roll, stands', thrown, -⟩ := ih below
    obtain rfl : roll = _ := Option.some.inj (stands'.findDice?.symm.trans stands.findDice?)
    have hdice := alters.kept kept_isDiceRoll thrown.dice
    exact ⟨_, .modifier (stands.replace stands.kind), thrown.renewed hdice, rfl⟩

/-- The roll that an expanded node stands on was thrown. -/
theorem isThrown {roll : Node} (h : Expands limits source before trace after n trace')
    (stands : StandsOn roll after) : roll.IsThrown := by
  have isRoll : before.kind.isRoll = true := by
    rw [← h.kind_eq]
    exact stands.isRoll
  obtain ⟨roll', stands', thrown, -⟩ := h.onRoll isRoll
  obtain rfl : roll = roll' := Option.some.inj (stands.findDice?.symm.trans stands'.findDice?)
  exact thrown

/-- There is something for a comparison to test, and it has numbers. -/
theorem targets (h : Expands limits source before trace after n trace') :
    ∃ targets, after.targets? = some targets ∧
      ∀ target ∈ targets, ∃ n, target.value? = some (.number n) := by
  unfold Node.targets?
  -- The targets are the dice of a roll, the members of a group, or the node itself.
  by_cases isRoll : after.kind.isRoll
  · obtain ⟨roll, stands, thrown, -⟩ := h.onRoll (by rw [← h.kind_eq]; exact isRoll)
    rw [if_pos isRoll, stands.findDice?]
    exact ⟨Dice.live roll.children, rfl,
      fun target htarget => ⟨_, (thrown.live target htarget).value?⟩⟩
  · rw [if_neg isRoll]
    by_cases isGroup : after.kind = .group
    · rw [if_pos isGroup]
      refine ⟨after.children, rfl, ?_⟩
      -- The members were all visited.
      cases h with
      | group _ _ _ _ hvisits _ =>
        intro target htarget
        obtain ⟨visit, hvisit, rfl⟩ := List.mem_map.mp htarget
        exact ⟨visit.value, (hvisits visit hvisit).stored⟩
      | _ => cases isGroup
    · rw [if_neg isGroup]
      refine ⟨[after], rfl, fun target htarget => ?_⟩
      rw [List.mem_singleton.mp htarget]
      exact ⟨n, h.stored⟩

end Expands

end

end DiceNotation
