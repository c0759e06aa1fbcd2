import DiceNotation.Proofs.Semantics.Requests
import DiceNotation.Proofs.Trees.Determinism
import DiceNotation.Proofs.Trees.Notes
import DiceNotation.Proofs.Trees.Sums

/-! # What became of the numbers that were drawn

The dice in a tree account for what was drawn, if dice are not thrown to find out how many dice to
throw, for those are not left in the tree.  What is drawn is a thrown die or noted on a die that is
thrown again.  But a note is not added to an older one: when a second modifier throws a die again
that carries a note already, the older note is lost.  Nothing else goes missing.

What is missing after an evaluation is what is missing after its parts, and what is lost in this
step (`Visit.AddsUp`).  Nothing is drawn or lost but in rolls and modifiers (`Visit.Splits`).

* `Expands.addsUp`       one step of an evaluation
* `Visit.Overwrites`     the loss of a note
* `interpret_draws`      parsed texts -/

namespace DiceNotation

open Node (Everywhere Written StandsOn CountsAlone everywhere_iff)

namespace Node

/-- The draws that a node accounts for. -/
def draws (node : Node) : Int := if node.kind = .diceRoll then 1 + node.rerolls else 0

variable {node roll : Node}

/-- Another attribute than the note of rerolls leaves the draws of the node. -/
private theorem draws_set {key : String} (value : Value) (other : key ≠ "rerolled") :
    (node.set key value).draws = node.draws := by
  unfold draws
  rw [rerolls_set value other]
  rfl

/-- Nothing but a die accounts for draws. -/
private theorem draws_of_kind (plain : node.kind ≠ .diceRoll) : node.draws = 0 := if_neg plain

/-- The draws of a node do not depend on the nodes below it. -/
private theorem countsAlone_draws : CountsAlone draws := fun _ _ _ _ _ => rfl

/-! ## What changes in a tree -/

/-- Another attribute than the note of rerolls leaves the draws of the tree. -/
private theorem sumOver_draws_set {key : String} (value : Value) (other : key ≠ "rerolled") :
    (node.set key value).sumOver draws = node.sumOver draws := by
  rw [sumOver_set, draws_set value other]
  omega

/-- Storing a value leaves the draws of the tree. -/
private theorem sumOver_draws_store (n : Number) :
    (node.store n).sumOver draws = node.sumOver draws :=
  sumOver_draws_set _ (by decide)

/-- What was written accounts for nothing. -/
private theorem sumOver_draws_of_written (h : Everywhere Written node) : node.sumOver draws = 0 :=
  sumOver_eq_zero fun inside hinside => draws_of_kind (h inside hinside).plain

/-- No draws are accounted for in what has not been evaluated. -/
private theorem sum_draws_of_written {nodes : List Node}
    (h : ∀ node ∈ nodes, Everywhere Written node) : (nodes.map (sumOver draws)).sum = 0 := by
  apply List.sum_eq_zero
  intro count hcount
  obtain ⟨node, hnode, rfl⟩ := List.mem_map.mp hcount
  exact sumOver_draws_of_written (h node hnode)

/-- The draws of a tree with no die at its root are those of its children. -/
private theorem sumOver_draws_of_kind (plain : node.kind ≠ .diceRoll) :
    node.sumOver draws = (node.children.map (sumOver draws)).sum := by
  rw [sumOver_eq, draws_of_kind plain, Int.zero_add]

/-- A roll accounts for what its dice account for. -/
private theorem sumOver_draws_dice {dice : List Node} (h : ∀ die ∈ dice, die.IsDiceRoll) :
    (dice.map (sumOver draws)).sum = Dice.accounted dice := by
  induction dice with
  | nil => rfl
  | cons die dice ih =>
    obtain ⟨first, others⟩ := List.forall_mem_cons.mp h
    rw [List.map_cons, List.sum_cons, ih others, Dice.accounted_cons, sumOver_of_leaf first.leaf,
      draws, if_pos first.kind]
    push_cast
    omega

/-- The draws of a roll are those of its dice. -/
private theorem sumOver_draws_roll (kind : roll.kind = .dice)
    (h : ∀ die ∈ roll.children, die.IsDiceRoll) :
    roll.sumOver draws = Dice.accounted roll.children := by
  rw [sumOver_draws_of_kind (by rw [kind]; nofun), sumOver_draws_dice h]

/-- Tests change nothing. -/
private theorem sumOver_draws_mapTargets {targets : List Node} (c : Condition)
    (rolls : node.kind.isRoll = true → ∃ roll, StandsOn roll node)
    (found : node.targets? = some targets) :
    (node.mapTargets c.mark).sumOver draws = node.sumOver draws := by
  rw [sumOver_mapTargets countsAlone_draws c rolls found]
  have same : ∀ target, draws (c.mark target) - draws target = 0 := by
    intro target
    rw [show draws (c.mark target) = draws target from draws_set _ (by decide)]
    omega
  simp [same]

end Node

/-- Nothing is drawn between the two traces. -/
private theorem Asks.requests_eq {α : Type} {sem : Sem α} {post : α → Prop}
    (h : Asks (fun _ => False) sem post) {a : α} {trace trace' : Trace}
    (run : sem trace = .ok a trace') : trace'.requests = trace.requests := by
  have met := h.met trace
  rw [run] at met
  obtain ⟨⟨made, same, none⟩, -⟩ := met
  rw [same, List.eq_nil_iff_forall_not_mem.mpr none, List.append_nil]

/-- Telling of a limit asks for nothing. -/
private theorem Asks.tell {permitted : Faces → Prop} (capped : Bool) (problem : Problem) :
    Asks permitted (Sem.tell capped problem) fun _ => True := by
  unfold Sem.tell
  split
  · exact collect problem
  · exact pure trivial

section

variable {limits : Limits} {source : Source}

/-- The dice of a roll that are due to be thrown again, and of which one carries a note. -/
inductive Overwrites (limits : Limits) (roll : Node) (argument : List Node) : Prop where
  | intro {sides : Value} {faces : Faces} {c : Condition} {die : Node}
      (hsides : roll.get? "sides" = some sides) (hfaces : Dice.faces sides = .ok (some faces))
      (stated : Stated (.face faces.low) (Dice.live roll.children) argument c)
      (hdie : die ∈ Dice.live roll.children) (due : c.holds die.value? = true)
      (budget : 0 < limits.maxIterations) (noted : die.rerolls ≠ 0)

/-- A trace grows by the requests that are made. -/
private theorem Trace.length_after (trace : Trace) (faces : Faces) (count : Nat) :
    (trace.after faces count).requests.length = trace.requests.length + count := by
  simp [Trace.after]

/-- As many dice are thrown as numbers are drawn. -/
private theorem accounted_throwDice {allowed : Bool} {count : Nat} {sides : Option Int}
    {dice : List Node} {trace trace' : Trace}
    (threw : Roll.throwDice source allowed count sides trace = (dice, trace')) :
    trace.requests.length + Dice.accounted dice = trace'.requests.length := by
  unfold Roll.throwDice at threw
  cases allowed with
  | true =>
    cases threw
    rw [Dice.accounted_fresh, Trace.length_after]
  | false =>
    cases threw
    rfl

/-- Unfolding a group asks for nothing. -/
private theorem Unfolds.requests_eq {group unfolded : Node} {trace trace' : Trace}
    (h : Unfolds limits group trace unfolded trace') : trace'.requests = trace.requests := by
  cases h with
  | once _ => rfl
  | repeated _ _ => rfl
  | excess _ _ _ told => exact (Asks.collect _).requests_eq told

/-- What is drawn for a modifier is accounted for, but for notes that are lost. -/
theorem Alters.accounted {node roll : Node} {argument dice : List Node} {m : Modifier}
    {trace trace' : Trace} (alters : Alters limits source node roll argument m trace dice trace') :
    ∃ lost : Nat, Dice.accounted dice + trace.requests.length + lost =
        Dice.accounted roll.children + trace'.requests.length ∧
      (lost = 0 ↔ ¬ (m = .reroll ∧ Overwrites limits roll argument)) := by
  -- Only explosions and rerolls draw; the other modifiers leave the notes as they are.
  have kept {dice : List Node} (same : Dice.accounted dice = Dice.accounted roll.children)
      (other : m ≠ .reroll) :
      ∃ lost : Nat, Dice.accounted dice + trace.requests.length + lost =
          Dice.accounted roll.children + trace.requests.length ∧
        (lost = 0 ↔ ¬ (m = .reroll ∧ Overwrites limits roll argument)) :=
    ⟨0, by omega, by simp [other]⟩
  cases alters with
  | @explode sides faces c explosion _ _ _ _ _ exploded told =>
    subst exploded
    have drawn := Dice.accounted_explode c (trace.answers source faces) sides
      (node.hasText "penetrate" "yes") limits.maxIterations 0 roll.children
    refine ⟨0, ?_, by simp⟩
    -- Reporting that the cap was reached asks for nothing.
    rw [(Asks.tell _ _).requests_eq told, Trace.length_after]
    omega
  | keep _ => exact kept (Dice.accounted_congr (Dice.rerolls_keep ..)) nofun
  | drop _ => exact kept (Dice.accounted_congr (Dice.rerolls_drop ..)) nofun
  | critical _ _ _ _ => exact kept (Dice.accounted_congr (Dice.rerolls_markCritical ..)) nofun
  | @reroll sides faces c rerolled _ _ hsides hfaces stated hrerolled told =>
    subst hrerolled
    have drawn := Dice.accounted_reroll c (trace.answers source faces)
      (node.hasText "once" "yes") limits.maxIterations 0 roll.children
    refine ⟨Dice.overwritten c limits.maxIterations roll.children, ?_, ?_⟩
    · rw [(Asks.tell _ _).requests_eq told, Trace.length_after]
      omega
    · rw [Dice.overwritten_eq_zero]
      constructor
      · -- The condition and the faces are determined, so these are the dice that were thrown again.
        rintro new ⟨-, hsides', hfaces', stated', hdie, due, budget, noted⟩
        cases hsides.symm.trans hsides'
        cases hfaces.symm.trans hfaces'
        cases stated.unique stated'
        exact noted (new _ hdie due budget)
      · intro none die hdie due budget
        by_contra noted
        exact none ⟨rfl, .intro hsides hfaces stated hdie due budget noted⟩
  | sort => exact kept (Dice.accounted_sort ..) nofun

/-- Only dice that are thrown again get notes. -/
private theorem Alters.rerolls_eq_zero {node roll : Node} {argument dice : List Node} {m : Modifier}
    {trace trace' : Trace} (alters : Alters limits source node roll argument m trace dice trace')
    (other : m ≠ .reroll) (new : ∀ die ∈ roll.children, die.rerolls = 0) :
    ∀ die ∈ dice, die.rerolls = 0 := by
  -- Modifiers that only mark dice leave every count as it was.
  have kept {dice : List Node} (same : dice.map Node.rerolls = roll.children.map Node.rerolls) :
      ∀ die ∈ dice, die.rerolls = 0 := by
    have counts : ∀ count ∈ dice.map Node.rerolls, count = 0 := by
      rw [same]
      exact List.forall_mem_map.mpr new
    exact List.forall_mem_map.mp counts
  cases alters with
  | explode _ _ _ exploded _ =>
    subst exploded
    intro die hdie
    -- The dice that an explosion adds are new.
    rcases Dice.mem_explode hdie with old | ⟨-, k, rfl⟩
    · exact new die old
    · exact Dice.rerolls_extraDie ..
  | keep _ => exact kept (Dice.rerolls_keep ..)
  | drop _ => exact kept (Dice.rerolls_drop ..)
  | critical _ _ _ _ => exact kept (Dice.rerolls_markCritical ..)
  | reroll _ _ _ _ _ => exact absurd rfl other
  | sort => exact fun die hdie => new die ((Dice.sort_perm _ _).mem_iff.mp hdie)

/-! ## Expanded trees -/

/-- No dice are thrown to find out how many dice to throw. -/
def Node.PlainCount (node : Node) : Prop :=
  node.kind = .dice → ∀ count ∈ node.children.head?,
    Everywhere (fun inside => inside.kind ≠ .dice) count

instance {P : Node → Prop} [DecidablePred P] (root : Node) : Decidable (Everywhere P root) :=
  inferInstanceAs (Decidable (∀ node ∈ root.preorder, P node))

instance : DecidablePred Node.PlainCount :=
  fun node => inferInstanceAs (Decidable (node.kind = .dice → ∀ count ∈ node.children.head?,
    Everywhere (fun inside => inside.kind ≠ .dice) count))

/-- Modifiers stand on dice. -/
private theorem Expands.exists_dice {before after : Node} {n : Number} {trace trace' : Trace}
    (h : Expands limits source before trace after n trace')
    (isRoll : before.kind.isRoll = true) : ∃ roll ∈ before.preorder, roll.kind = .dice := by
  induction h with
  | group kind _ _ _ _ _ _ =>
    rw [kind] at isRoll
    cases isRoll
  | roll _ _ _ _ _ _ _ _ => exact ⟨_, Node.self_mem_preorder _, rfl⟩
  | modifier h stands _ _ ih =>
    obtain ⟨roll, inside, kind⟩ := ih (h.kind_eq ▸ stands.isRoll)
    exact ⟨roll, Node.mem_preorder.mpr (.inr ⟨_, List.mem_cons_self, inside⟩), kind⟩
  | _ => cases isRoll

namespace Visit

variable {visit first second : Visit} {parts : List Visit}

/-- What was drawn in an evaluation and is not accounted for in the tree that is left. -/
def missing (visit : Visit) : Int :=
  visit.finish.requests.length - visit.start.requests.length - visit.after.sumOver Node.draws

/-- Draws are made and accounted for in the parts of the evaluation only. -/
structure Splits (limits : Limits) (source : Source) (visit : Visit) (parts : List Visit) :
    Prop where
  hasParts : visit.HasParts limits source parts
  drawn : (visit.finish.requests.length : Int) - visit.start.requests.length =
    (parts.map fun part => (part.finish.requests.length : Int) - part.start.requests.length).sum
  accounted : visit.after.sumOver Node.draws =
    (parts.map fun part => part.after.sumOver Node.draws).sum

/-- What is missing in an evaluation is missing in its parts. -/
private theorem Splits.missing (h : visit.Splits limits source parts) :
    visit.missing = (parts.map Visit.missing).sum := by
  unfold Visit.missing
  rw [h.drawn, h.accounted]
  -- A sum of differences is the difference of the sums.
  clear h
  induction parts with
  | nil => rfl
  | cons part parts ih =>
    simp only [List.map_cons, List.sum_cons] at ih ⊢
    omega

/-- What is drawn in several evaluations. -/
private theorem Linked.drawn {visits : List Visit} {trace trace' : Trace}
    (linked : Linked visits trace trace') :
    (trace'.requests.length : Int) - trace.requests.length =
      (visits.map fun visit =>
        (visit.finish.requests.length : Int) - visit.start.requests.length).sum := by
  induction visits generalizing trace with
  | nil =>
    cases linked
    simp
  | cons visit visits ih =>
    obtain ⟨begins, linked⟩ := linked
    have rest := ih linked
    rw [List.map_cons, List.sum_cons, ← rest, begins]
    omega

end Visit

/-- One step of an evaluation, unless dice are thrown in it. -/
private theorem Expands.splits {before after : Node} {n : Number} {trace trace' : Trace}
    (h : Expands limits source before trace after n trace') (other : before.kind.isRoll = false) :
    ∃ parts, Visit.Splits limits source ⟨before, trace, after, n, trace'⟩ parts := by
  have whole : Visit.Evaluated limits source ⟨before, trace, after, n, trace'⟩ := h
  -- Each rule names the parts; what it does besides draws nothing and adds no dice.
  cases h with
  | literal stored =>
    refine ⟨[], Visit.hasParts_nil nofun (.inl rfl), ?_, ?_⟩
    · exact Int.sub_self _
    · exact Node.sumOver_draws_of_written (Node.IsLiteral.intro _ stored).written
  | negate h =>
    refine ⟨_, Visit.hasParts_first ⟨_, _, _, _, _⟩ whole h nofun nofun rfl rfl nofun nofun, ?_, ?_⟩
    · rw [List.map_singleton, List.sum_singleton]
    · rw [Node.sumOver_draws_store, Node.sumOver_draws_of_kind (by nofun)]
      rfl
  | operator hleft hright applied =>
    refine ⟨_, Visit.hasParts_both ⟨_, _, _, _, _⟩ ⟨_, _, _, _, _⟩ whole hleft hright
      (.inl ⟨_, rfl⟩) rfl rfl rfl, ?_, ?_⟩
    · have same := (Asks.operate _ _ _).requests_eq applied
      simp only [List.map_cons, List.map_nil, List.sum_cons, List.sum_nil, same]
      omega
    · rw [Node.sumOver_draws_store, Node.sumOver_draws_of_kind (by nofun)]
      rfl
  -- The right side was not evaluated, so it is no part and has no dice in it.
  | untested hleft empty hright =>
    refine ⟨_, Visit.hasParts_first ⟨_, _, _, _, _⟩ whole hleft nofun nofun rfl rfl nofun
      fun _ _ => empty, ?_, ?_⟩
    · rw [List.map_singleton, List.sum_singleton]
    · rw [Node.sumOver_draws_store, Node.sumOver_draws_of_kind (by nofun), List.map_cons,
        List.map_singleton, Node.sumOver_draws_of_written hright.written]
      rfl
  | @tested op _ _ _ _ _ _ b _ _ _ _ _ hleft found present hright count =>
    have more := fun empty => present (Option.some.inj (found.symm.trans empty))
    refine ⟨_, Visit.hasParts_both ⟨_, _, _, _, _⟩ ⟨_, _, _, _, _⟩ whole hleft hright
      (.inr ⟨⟨_, rfl⟩, more⟩) rfl rfl rfl, ?_, ?_⟩
    · simp only [List.map_cons, List.map_nil, List.sum_cons, List.sum_nil]
      omega
    · rw [Node.sumOver_draws_store, Node.sumOver_draws_of_kind (by nofun), List.map_cons,
        Node.sumOver_draws_mapTargets ⟨op, .number b⟩ hleft.exists_standsOn found]
      rfl
  | call named known h applied =>
    refine ⟨_, Visit.hasParts_first ⟨_, _, _, _, _⟩ whole h nofun (fun _ => rfl) rfl rfl nofun
      nofun, ?_, ?_⟩
    · have same := (Asks.function known _).requests_eq applied
      rw [List.map_singleton, List.sum_singleton, same]
    · rw [Node.sumOver_draws_store, Node.sumOver_draws_of_kind (by nofun)]
      rfl
  -- With a wrong number of arguments none of them is evaluated.
  | miscall named known wrong harguments told =>
    refine ⟨[], Visit.hasParts_nil nofun (.inr ⟨rfl, wrong⟩), ?_, ?_⟩
    · rw [(Asks.collect _).requests_eq told]
      exact Int.sub_self _
    · rw [Node.sumOver_draws_store, Node.sumOver_draws_of_kind (by nofun)]
      exact Node.sum_draws_of_written fun argument hargument =>
        (harguments argument hargument).written
  | @group _ unfolded visits _ _ _ _ kind unfolds members linked h added =>
    refine ⟨visits, Visit.hasParts_members whole kind unfolds members linked h, ?_, ?_⟩
    · rw [← linked.drawn, unfolds.requests_eq]
    · have unfoldedKind : (unfolded.withChildren (visits.map Visit.after)).kind = .group :=
        unfolds.kind.trans kind
      rw [Node.sumOver_draws_store, Node.sumOver_draws_of_kind (by rw [unfoldedKind]; nofun)]
      exact congrArg List.sum (List.map_map ..)
  | roll _ _ _ _ _ _ _ => cases other
  | modifier _ _ _ _ => cases other

namespace Visit

variable {visit first second : Visit} {parts : List Visit}

/-- Where there are no dice in a tree, there are none after its evaluation. -/
private theorem Evaluated.sumOver_draws_eq_zero (h : visit.Evaluated limits source)
    (noDice : Everywhere (fun inside => inside.kind ≠ .dice) visit.before) :
    visit.after.sumOver Node.draws = 0 := by
  -- The parts are children, and therefore less deep.
  induction size : visit.before.depth using Nat.strong_induction_on generalizing visit with
  | _ depth ih =>
    subst size
    by_cases isRoll : visit.before.kind.isRoll
    · obtain ⟨roll, inside, kind⟩ := Expands.exists_dice h isRoll
      exact absurd kind (noDice roll inside)
    · obtain ⟨parts, splits⟩ := Expands.splits h (Bool.not_eq_true _ ▸ isRoll)
      rw [splits.accounted]
      apply List.sum_eq_zero
      intro count hcount
      obtain ⟨part, hpart, rfl⟩ := List.mem_map.mp hcount
      have isPart := (splits.hasParts part).mpr hpart
      exact ih _ (Node.depth_lt_of_mem isPart.mem_children) (isPart.within.evaluated h)
        (noDice.child isPart.mem_children) rfl

/-- The evaluation throws dice again, and a note on one of them is lost. -/
inductive Overwrites (limits : Limits) (source : Source) (visit : Visit) : Prop where
  | intro (first : Visit) {attributes : OrderedMap Value} {roll : Node} {argument : List Node}
      (before : visit.before = ⟨.modifier .reroll, attributes, first.before :: argument⟩)
      (hfirst : first.Evaluated limits source) (begins : first.start = visit.start)
      (stands : StandsOn roll first.after)
      (overwrites : DiceNotation.Overwrites limits roll argument)

/-- What is missing is missing in the parts already, but for what is lost. -/
structure AddsUp (limits : Limits) (source : Source) (visit : Visit) (parts : List Visit)
    (lost : Int) : Prop where
  hasParts : visit.HasParts limits source parts
  sum : visit.missing = (parts.map missing).sum + lost
  nonneg : 0 ≤ lost
  lossless : lost = 0 ↔ ¬ visit.Overwrites limits source

/-- Parts add up if nothing but them is missing and nothing is rerolled. -/
private theorem AddsUp.of_sum (hasParts : visit.HasParts limits source parts)
    (other : visit.before.kind ≠ .modifier .reroll)
    (sum : visit.missing = (parts.map missing).sum) : visit.AddsUp limits source parts 0 where
  hasParts := hasParts
  sum := by omega
  nonneg := Int.le_refl 0
  lossless := by
    refine iff_of_true rfl ?_
    rintro ⟨_, before, -⟩
    rw [before] at other
    exact other rfl

end Visit

/-- One step of an evaluation. -/
theorem Expands.addsUp {before after : Node} {n : Number} {trace trace' : Trace}
    (h : Expands limits source before trace after n trace') (plain : before.PlainCount) :
    ∃ parts lost, Visit.AddsUp limits source ⟨before, trace, after, n, trace'⟩ parts lost := by
  have whole : Visit.Evaluated limits source ⟨before, trace, after, n, trace'⟩ := h
  -- Only rolls and modifiers draw by themselves.
  by_cases other : before.kind.isRoll = false
  · obtain ⟨parts, splits⟩ := h.splits other
    refine ⟨parts, 0, .of_sum splits.hasParts (fun kind => ?_) splits.missing⟩
    rw [show before.kind = _ from kind] at other
    cases other
  cases h with
  | @roll attributes _ count count' _ a times sides' _ _ dice _ trace₁ _ _ _ _ hcount _ _
      countChecked sidesChecked threw =>
    have counted : Visit.Evaluated limits source ⟨count, trace, count', a, trace₁⟩ := hcount
    have part := Visit.hasParts_first ⟨_, _, _, _, _⟩ whole hcount nofun nofun rfl rfl nofun nofun
    refine ⟨_, 0, .of_sum part nofun ?_⟩
    -- The count is not left in the tree, but there are no dice in it.
    have inCount := counted.sumOver_draws_eq_zero (plain rfl _ rfl)
    have same := (Asks.within _ _).requests_eq countChecked
    have same' := (Asks.sidesAllowed _).requests_eq sidesChecked
    have thrown : (Node.thrown attributes times sides' dice).sumOver Node.draws =
        Dice.accounted dice := Node.sumOver_draws_roll rfl (isDiceRoll_of_throwDice threw)
    have drawn := accounted_throwDice threw
    rw [same', same] at drawn
    simp only [List.map_singleton, List.sum_singleton, Visit.missing, Node.sumOver_draws_store,
      thrown, inCount]
    omega
  | @modifier m attributes operand operand' roll argument dice _ _ _ _ h stands hargument alters =>
    have part := Visit.hasParts_first ⟨_, _, _, _, _⟩ whole h nofun nofun rfl rfl nofun nofun
    obtain ⟨lost, balance, overwrites⟩ := alters.accounted
    -- The draws are noted on the dice that take the place of the old ones.
    refine ⟨_, lost, part, ?_, by omega, ?_⟩
    · have oldDice := (h.isThrown stands).dice
      have old := Node.sumOver_draws_roll stands.kind oldDice
      have renewed : (roll.renewed dice).sumOver Node.draws = Dice.accounted dice :=
        Node.sumOver_draws_roll stands.kind (alters.kept kept_isDiceRoll oldDice)
      have replaced := stands.sumOver_replaceDice Node.countsAlone_draws (roll.renewed dice)
      have written := Node.sum_draws_of_written hargument.written
      rw [Visit.missing, Node.sumOver_draws_store, Node.sumOver_draws_of_kind (by nofun),
        List.map_cons, List.sum_cons, written]
      simp only [List.map_singleton, List.sum_singleton, Visit.missing]
      omega
    · rw [Int.natCast_eq_zero, overwrites, not_iff_not]
      constructor
      · rintro ⟨rfl, inside⟩
        exact .intro ⟨_, _, _, _, _⟩ rfl h rfl stands inside
      · rintro ⟨⟨_, _, _, _, _⟩, before, hfirst, begins, stands', inside⟩
        cases before
        cases begins
        -- The roll was thrown in the only evaluation of the operand.
        obtain ⟨rfl, rfl, rfl⟩ := h.unique hfirst
        cases stands.findDice?.symm.trans stands'.findDice?
        exact ⟨rfl, inside⟩
  | group kind _ _ _ _ _ => exact absurd (by rw [kind]; rfl) other
  | _ => exact absurd rfl other

/-- What is missing is never negative, and it is zero if no note is lost. -/
private theorem Visit.Evaluated.missing_nonneg {visit : Visit} (h : visit.Evaluated limits source)
    (plain : Everywhere Node.PlainCount visit.before) :
    0 ≤ visit.missing ∧ (visit.missing = 0 ↔
      ∀ inner : Visit, inner.Within limits source visit → ¬ inner.Overwrites limits source) := by
  apply Visit.sum_eq_zero_iff
  intro inner within
  obtain ⟨parts, lost, addsUp⟩ :=
    Expands.addsUp (within.evaluated h) (plain _ within.mem_preorder)
  exact ⟨parts, lost, addsUp.hasParts, addsUp.sum, addsUp.nonneg, addsUp.lossless⟩

namespace Node

/-- The dice in a tree. -/
def rolledDice (root : Node) : List Node := root.preorder.filter fun node => node.kind = .diceRoll

/-- The draws that a tree accounts for. -/
private theorem sumOver_draws (root : Node) :
    root.sumOver draws = root.rolledDice.length + (root.rolledDice.map rerolls).sum := by
  unfold sumOver rolledDice
  induction root.preorder with
  | nil => rfl
  | cons node nodes ih =>
    rw [List.map_cons, List.sum_cons, ih, List.filter_cons, draws]
    by_cases die : node.kind = .diceRoll
    · simp [die]
      omega
    · simp [die]

end Node

/-! ## Throwing again what was thrown again -/

namespace Node

/-- Whether a modifier of the roll that first children lead to throws its dice again. -/
def throwsAgain : Node → Bool
  | ⟨.modifier m, _, operand :: _⟩ => m == .reroll || throwsAgain operand
  | _ => false

/-- The node does not throw dice again that were thrown again below it. -/
def ThrowsOnce (node : Node) : Prop :=
  node.kind = .modifier .reroll → ∀ operand ∈ node.children.head?, operand.throwsAgain = false

instance : DecidablePred ThrowsOnce :=
  fun node => inferInstanceAs (Decidable (node.kind = .modifier .reroll →
    ∀ operand ∈ node.children.head?, operand.throwsAgain = false))

end Node

/-- Where no modifier throws dice again, there are no notes on them. -/
private theorem Expands.rerolls_eq_zero {before after : Node} {n : Number} {trace trace' : Trace}
    (h : Expands limits source before trace after n trace') (once : before.throwsAgain = false)
    {roll : Node} (stands : StandsOn roll after) : ∀ die ∈ roll.children, die.rerolls = 0 := by
  induction h generalizing roll with
  | @group _ unfolded _ _ _ _ _ kind unfolds _ _ _ _ _ =>
    have isRoll : unfolded.kind.isRoll = true := stands.isRoll
    rw [unfolds.kind.trans kind] at isRoll
    cases isRoll
  | roll _ _ _ _ _ _ threw _ =>
    cases (Node.findDice?_of_kind rfl).symm.trans stands.findDice?
    unfold Roll.throwDice at threw
    split at threw
    · cases threw
      exact Dice.rerolls_fresh _ _ _
    · cases threw
      exact nofun
  | @modifier m attributes _ _ old argument dice _ _ _ _ _ stands' _ alters ih =>
    -- This modifier is no reroll, and there is none below it.
    obtain ⟨other, below⟩ := Bool.or_eq_false_iff.mp once
    have replaced : StandsOn (old.renewed dice) _ := stands'.replace stands'.kind
    have above : StandsOn (old.renewed dice) ⟨.modifier m, attributes, _ :: argument⟩ :=
      .modifier replaced
    -- The roll below the modifier is the one that it has renewed.
    cases above.findDice?.symm.trans stands.findDice?
    exact alters.rerolls_eq_zero (by simpa using other) (ih below stands')
  | _ => cases stands.isRoll

/-- If dice are thrown again by one modifier at most, no note is lost in the course of the
    evaluation. -/
private theorem Visit.not_overwrites {visit : Visit}
    (once : Everywhere Node.ThrowsOnce visit.before) :
    ∀ inner : Visit, inner.Within limits source visit → ¬ inner.Overwrites limits source := by
  rintro inner within ⟨first, before, hfirst, -, stands, ⟨-, -, -, hdie, -, -, noted⟩⟩
  have here := once _ within.mem_preorder
  rw [before] at here
  exact noted (Expands.rerolls_eq_zero hfirst (here rfl _ rfl) stands _ (Dice.mem_live.mp hdie).1)

/-- When a text is interpreted that does not throw dice to find out how many dice to throw, the dice
    that are left account for no more than was drawn.  They account for all of it exactly if no note
    on a die is lost in the whole evaluation, so in particular if no dice are thrown again by two
    modifiers of a roll. -/
theorem interpret_draws {text : String} {root : Node} (parsed : parse text = .ok ⟨root, []⟩)
    (plain : Everywhere Node.PlainCount root) {limits : Limits} {source : Source}
    {record record' : Record} {outcome : Outcome}
    (finished : interpret ⟨limits, .default, source⟩ root record = (.ok outcome, record')) :
    ∃ n, outcome.total = .number n ∧
      let run : Visit := ⟨root, ⟨[], record.requests.toList⟩, outcome.tree, n,
        ⟨outcome.problems, record'.requests.toList⟩⟩
      let dice := outcome.tree.rolledDice
      let accounted := record.requests.size + (dice.length + (dice.map Node.rerolls).sum)
      run.Evaluated limits source ∧ accounted ≤ record'.requests.size ∧
        (accounted = record'.requests.size ↔
          ∀ visit : Visit, visit.Within limits source run → ¬ visit.Overwrites limits source) ∧
        (Everywhere Node.ThrowsOnce root → accounted = record'.requests.size) := by
  obtain ⟨e, rfl, -⟩ := accepts_of_parse parsed
  obtain ⟨n, total, expands⟩ := interpret_expands e.toNode_wellFormed finished
  have evaluated : Visit.Evaluated limits source ⟨e.toNode, ⟨[], record.requests.toList⟩,
      outcome.tree, n, ⟨outcome.problems, record'.requests.toList⟩⟩ := expands
  refine ⟨n, total, evaluated, ?_⟩
  -- What is missing is never negative, and zero exactly if no note was overwritten.
  obtain ⟨nonneg, complete⟩ := evaluated.missing_nonneg plain
  have kept := fun once => complete.mpr (Visit.not_overwrites once)
  rw [← complete]
  unfold Visit.missing at nonneg kept ⊢
  rw [Node.sumOver_draws] at nonneg kept ⊢
  simp only [Array.length_toList] at nonneg kept ⊢
  refine ⟨by omega, by omega, fun once => ?_⟩
  have all := kept once
  omega

/-- Dice that explode and are thrown again, in a group. -/
theorem interpret_draws_group :
    let root := (Expr.group [.roll (.literal 2) (.faces 6) [.explode false none,
      .reroll false (some ⟨.less, 5⟩)], .literal 4] (some 2)).toNode
    let rules : Rules := ⟨{}, .default, fun request _ => 6 - request / 2⟩
    parse "\x7b2d6!r<5, 4\x7d...2" = .ok ⟨root, []⟩ ∧ Everywhere Node.PlainCount root ∧
      Everywhere Node.ThrowsOnce root ∧ ∃ outcome record',
        interpret rules root {} = (.ok outcome, record') ∧
          0 + (outcome.tree.rolledDice.length + (outcome.tree.rolledDice.map Node.rerolls).sum) =
            record'.requests.size := by
  intro root rules
  have read : parse "\x7b2d6!r<5, 4\x7d...2" = .ok ⟨root, []⟩ := rfl
  have plain : Everywhere Node.PlainCount root := by decide
  have once : Everywhere Node.ThrowsOnce root := by decide
  have answered : (interpret rules root {}).1.isOk = true := by decide +kernel
  obtain ⟨outcome, record', finished⟩ := exists_outcome answered
  obtain ⟨-, -, -, -, -, all⟩ := interpret_draws read plain finished
  exact ⟨read, plain, once, outcome, record', finished, all once⟩

/-- A die that is thrown again by two modifiers carries the note of the second one only. -/
theorem second_reroll_not_accounted :
    let root := (Expr.roll (.literal 1) (.faces 6)
      [.reroll false (some ⟨.equal, 1⟩), .reroll false (some ⟨.equal, 2⟩)]).toNode
    let rules : Rules := ⟨{}, .default, fun request _ => request + 1⟩
    parse "1d6r=1r=2" = .ok ⟨root, []⟩ ∧ Everywhere Node.PlainCount root ∧
      ∃ outcome record', interpret rules root {} = (.ok outcome, record') ∧
        outcome.tree.rolledDice.length = 1 ∧
        (outcome.tree.rolledDice.map Node.rerolls).sum = 1 ∧ record'.requests.size = 3 ∧
        0 + (outcome.tree.rolledDice.length + (outcome.tree.rolledDice.map Node.rerolls).sum) ≠
          record'.requests.size := by
  intro root rules
  refine ⟨rfl, by decide, ?_⟩
  -- Of the three faces that were drawn, one die and one reroll are accounted for.
  have one : ((interpret rules root {}).1.toOption.map fun outcome =>
      (outcome.tree.rolledDice.length, (outcome.tree.rolledDice.map Node.rerolls).sum)) =
        some (1, 1) := by decide +kernel
  have three : (interpret rules root {}).2.requests.size = 3 := by decide +kernel
  generalize interpret rules root {} = result at one three
  obtain ⟨_ | outcome, record'⟩ := result
  · cases one
  · obtain ⟨dice, rerolls⟩ := Prod.mk.inj (Option.some.inj one)
    refine ⟨outcome, record', rfl, dice, rerolls, three, ?_⟩
    rw [dice, rerolls, three]
    decide

end

end DiceNotation
