import DiceNotation.Proofs.Trees.Visits

/-! # Evaluations are determined by where they begin

A node that is evaluated after the same observations becomes the same node, with the same value, and
the same is observed afterwards.  So there is one evaluation of a tree, and what is found within it
are its parts and nothing else.

* `Expands.unique`         by induction on how the tree was expanded
* `Visit.Part.unique`      a part is known by what is evaluated and when it begins -/

namespace DiceNotation

open Node (StandsOn)

/-- A modifier states one condition. -/
theorem Stated.unique {default c c' : Condition} {examined argument : List Node}
    (h : Stated default examined argument c) (h' : Stated default examined argument c') :
    c' = c := by
  -- The condition is the default exactly if there is no argument.
  cases h with
  | default without =>
    cases h' with
    | default _ => rfl
    | given present _ => exact absurd without (by simp [present])
  | given present literal =>
    cases h' with
    | default without => exact absurd without (by simp [present])
    | given _ literal' =>
      rw [literal] at literal'
      cases literal'
      rfl

/-- A modifier states one amount. -/
private theorem Amounts.unique {argument : List Node} {amount amount' : Int}
    (h : Amounts argument amount) (h' : Amounts argument amount') : amount' = amount := by
  -- Without an argument the amount is one, and with one it is the rounded number.
  cases h with
  | one =>
    cases h'
    rfl
  | given value rounded =>
    cases h' with
    | given value' rounded' =>
      rw [value] at value'
      cases value'
      rw [rounded] at rounded'
      cases rounded'
      rfl

section

variable {limits : Limits} {source : Source}

/-- A modifier makes the same dice of a roll, with the same trace. -/
private theorem Alters.unique {node roll : Node} {argument dice dice' : List Node} {m : Modifier}
    {trace trace₁ trace₂ : Trace} (h : Alters limits source node roll argument m trace dice trace₁)
    (h' : Alters limits source node roll argument m trace dice' trace₂) :
    dice' = dice ∧ trace₂ = trace₁ := by
  -- The modifier says which rule applies, and the premises of a rule determine what it leaves.
  cases h with
  | explode hsides hfaces stated exploded told =>
    cases h' with
    | explode hsides' hfaces' stated' exploded' told' =>
      cases hsides.symm.trans hsides'
      cases hfaces.symm.trans hfaces'
      -- The condition is determined first, since what is drawn depends on it.
      cases stated.unique stated'
      cases exploded.symm.trans exploded'
      cases told.symm.trans told'
      exact ⟨rfl, rfl⟩
  | keep amounts =>
    cases h' with
    | keep amounts' =>
      cases amounts.unique amounts'
      exact ⟨rfl, rfl⟩
  | drop amounts =>
    cases h' with
    | drop amounts' =>
      cases amounts.unique amounts'
      exact ⟨rfl, rfl⟩
  | critical hsides hfaces hkind stated =>
    cases h' with
    | critical hsides' hfaces' hkind' stated' =>
      cases hsides.symm.trans hsides'
      cases hfaces.symm.trans hfaces'
      cases hkind.symm.trans hkind'
      cases stated.unique stated'
      exact ⟨rfl, rfl⟩
  | reroll hsides hfaces stated rerolled told =>
    cases h' with
    | reroll hsides' hfaces' stated' rerolled' told' =>
      cases hsides.symm.trans hsides'
      cases hfaces.symm.trans hfaces'
      cases stated.unique stated'
      cases rerolled.symm.trans rerolled'
      cases told.symm.trans told'
      exact ⟨rfl, rfl⟩
  | sort =>
    cases h' with
    | sort => exact ⟨rfl, rfl⟩

/-- A group unfolds in one way. -/
private theorem Unfolds.unique {group unfolded unfolded' : Node} {trace trace₁ trace₂ : Trace}
    (h : Unfolds limits group trace unfolded trace₁)
    (h' : Unfolds limits group trace unfolded' trace₂) :
    unfolded' = unfolded ∧ trace₂ = trace₁ := by
  -- Whether a number of repeats is given, and whether it is above the limit, says which rule
  -- applies.
  cases h with
  | once single =>
    cases h' with
    | once _ => exact ⟨rfl, rfl⟩
    | repeated given _ => cases single.symm.trans given
    | excess given _ _ _ => cases single.symm.trans given
  | repeated given within =>
    cases h' with
    | once single => cases single.symm.trans given
    | repeated given' _ =>
      cases given.symm.trans given'
      exact ⟨rfl, rfl⟩
    | excess given' limited above _ =>
      cases given.symm.trans given'
      exact absurd (within _ limited) (Nat.not_le.mpr above)
  | excess given limited above told =>
    cases h' with
    | once single => cases single.symm.trans given
    | repeated given' within =>
      cases given.symm.trans given'
      exact absurd (within _ limited) (Nat.not_le.mpr above)
    | excess given' limited' _ told' =>
      cases given.symm.trans given'
      cases limited.symm.trans limited'
      cases told.symm.trans told'
      exact ⟨rfl, rfl⟩

/-- Visits of the same nodes that begin together are the same, if each one is determined. -/
private theorem Visit.Linked.unique {visits visits' : List Visit} {trace finish finish' : Trace}
    (linked : Visit.Linked visits trace finish) (linked' : Visit.Linked visits' trace finish')
    (same : visits'.map Visit.before = visits.map Visit.before)
    (determined : ∀ visit ∈ visits, ∀ visit' ∈ visits', visit'.before = visit.before →
      visit'.start = visit.start → visit' = visit) :
    visits' = visits ∧ finish' = finish := by
  induction visits generalizing visits' trace with
  | nil =>
    obtain rfl := List.map_eq_nil_iff.mp same
    exact ⟨rfl, linked'.symm.trans linked⟩
  | cons visit visits ih =>
    cases visits' with
    | nil => cases same
    | cons visit' visits' =>
      obtain ⟨begins, linked⟩ := linked
      obtain ⟨begins', linked'⟩ := linked'
      obtain ⟨before, rest⟩ := List.cons.inj same
      -- The first visits begin together.  So they are the same, and the others begin where these
      -- end.
      obtain rfl := determined visit List.mem_cons_self visit' List.mem_cons_self before
        (begins'.trans begins.symm)
      obtain ⟨rfl, rfl⟩ := ih linked linked' rest fun visit hvisit visit' hvisit' =>
        determined visit (List.mem_cons_of_mem _ hvisit) visit' (List.mem_cons_of_mem _ hvisit')
      exact ⟨rfl, rfl⟩

/-- What a node is evaluated to depends on nothing but what was observed before. -/
theorem Expands.unique {before after after' : Node} {n n' : Number} {trace trace₁ trace₂ : Trace}
    (h : Expands limits source before trace after n trace₁)
    (h' : Expands limits source before trace after' n' trace₂) :
    after' = after ∧ n' = n ∧ trace₂ = trace₁ := by
  -- The kind of the node leaves one rule, but two for comparisons and two for calls.  There it is
  -- said by the targets that were found, or by the number of arguments, which rule applies.
  induction h generalizing after' n' trace₂ with
  | literal stored =>
    cases h' with
    | literal stored' =>
      cases stored.symm.trans stored'
      exact ⟨rfl, rfl, rfl⟩
    | group kind _ _ _ _ _ => cases kind
  | negate _ ih =>
    cases h' with
    | negate h =>
      obtain ⟨rfl, rfl, rfl⟩ := ih h
      exact ⟨rfl, rfl, rfl⟩
    | group kind _ _ _ _ _ => cases kind
  | operator _ _ applied ih ih' =>
    cases h' with
    | operator hleft hright applied' =>
      obtain ⟨rfl, rfl, rfl⟩ := ih hleft
      obtain ⟨rfl, rfl, rfl⟩ := ih' hright
      cases applied.symm.trans applied'
      exact ⟨rfl, rfl, rfl⟩
    | group kind _ _ _ _ _ => cases kind
  | untested _ empty _ ih =>
    cases h' with
    | untested hleft _ _ =>
      obtain ⟨rfl, rfl, rfl⟩ := ih hleft
      exact ⟨rfl, rfl, rfl⟩
    | tested hleft found present _ _ =>
      obtain ⟨rfl, rfl, rfl⟩ := ih hleft
      cases empty.symm.trans found
      exact absurd rfl present
    | group kind _ _ _ _ _ => cases kind
  | tested _ found present _ count ih ih' =>
    cases h' with
    | untested hleft empty _ =>
      obtain ⟨rfl, rfl, rfl⟩ := ih hleft
      cases empty.symm.trans found
      exact absurd rfl present
    | tested hleft found' _ hright count' =>
      obtain ⟨rfl, rfl, rfl⟩ := ih hleft
      obtain ⟨rfl, rfl, rfl⟩ := ih' hright
      cases found.symm.trans found'
      cases count.symm.trans count'
      exact ⟨rfl, rfl, rfl⟩
    | group kind _ _ _ _ _ => cases kind
  | call named known _ applied ih =>
    cases h' with
    | call named' known' h applied' =>
      obtain ⟨rfl, rfl, rfl⟩ := ih h
      cases named.symm.trans named'
      cases known.symm.trans known'
      cases applied.symm.trans applied'
      exact ⟨rfl, rfl, rfl⟩
    | miscall _ _ wrong _ _ => exact absurd rfl wrong
    | group kind _ _ _ _ _ => cases kind
  | miscall named known wrong _ told =>
    cases h' with
    | call _ _ _ _ => exact absurd rfl wrong
    | miscall named' _ _ _ told' =>
      cases named.symm.trans named'
      cases told.symm.trans told'
      exact ⟨rfl, rfl, rfl⟩
    | group kind _ _ _ _ _ => cases kind
  | group kind unfolds members linked h added ih =>
    cases h' with
    | group _ unfolds' members' linked' h' added' =>
      -- The members are determined one by one, each starting where the one before has ended.
      obtain ⟨rfl, rfl⟩ := unfolds.unique unfolds'
      obtain ⟨rfl, rfl⟩ := linked.unique linked' (members'.symm.trans members) (by
        rintro visit hvisit ⟨_, _, after, value, finish⟩ hvisit' rfl rfl
        have again := h' ⟨visit.before, visit.start, after, value, finish⟩ hvisit'
        obtain ⟨rfl, rfl, rfl⟩ := ih visit hvisit again
        rfl)
      cases added.symm.trans added'
      exact ⟨rfl, rfl, rfl⟩
    | _ => cases kind
  | roll stored _ rounded hsides countChecked sidesChecked threw ih =>
    cases h' with
    | roll stored' hcount rounded' hsides' countChecked' sidesChecked' threw' =>
      obtain ⟨rfl, rfl, rfl⟩ := ih hcount
      cases Expr.Sides.toValue_inj (Option.some.inj (stored.symm.trans stored'))
      cases rounded.symm.trans rounded'
      have same := congrFun (hsides.symm.trans hsides') trace
      cases same
      cases countChecked.symm.trans countChecked'
      cases sidesChecked.symm.trans sidesChecked'
      cases threw.symm.trans threw'
      exact ⟨rfl, rfl, rfl⟩
    | group kind _ _ _ _ _ => cases kind
  | modifier _ stands _ alters ih =>
    cases h' with
    | modifier h stands' _ alters' =>
      obtain ⟨rfl, rfl, rfl⟩ := ih h
      cases stands.findDice?.symm.trans stands'.findDice?
      obtain ⟨rfl, rfl⟩ := alters.unique alters'
      exact ⟨rfl, rfl, rfl⟩
    | group kind _ _ _ _ _ => cases kind

/-! ## The parts of an evaluation -/

namespace Visit

variable {visit inner : Visit} {rest : List Node}

/-- Two evaluations of one tree from the same trace are the same. -/
private theorem Evaluated.unique {visit visit' : Visit} (h : visit.Evaluated limits source)
    (h' : visit'.Evaluated limits source) (before : visit'.before = visit.before)
    (start : visit'.start = visit.start) : visit' = visit := by
  obtain ⟨_, _, after, value, finish⟩ := visit
  obtain ⟨_, _, after', value', finish'⟩ := visit'
  cases before
  cases start
  obtain ⟨rfl, rfl, rfl⟩ := Expands.unique h h'
  rfl

/-- The evaluation is made up of these parts. -/
def HasParts (limits : Limits) (source : Source) (visit : Visit) (parts : List Visit) : Prop :=
  ∀ inner : Visit, Part limits source inner visit ↔ inner ∈ parts

/-- Nothing is evaluated in a literal, or in a call with a wrong number of arguments. -/
theorem hasParts_nil (plain : visit.before.kind ≠ .group)
    (without : visit.before.children = [] ∨
      visit.before.kind = .function ∧ visit.before.children.length ≠ 1) :
    visit.HasParts limits source [] := by
  refine fun inner => ⟨fun part => ?_, nofun⟩
  -- A part would need a child, or a call with exactly one argument.
  cases part with
  | first _ _ _ single children _ =>
    rw [children] at without
    rcases without with none | ⟨kind, wrong⟩
    · cases none
    · rw [single kind] at wrong
      exact absurd rfl wrong
  | second _ _ _ _ goesOn children _ _ =>
    rw [children] at without
    rcases without with none | ⟨kind, -⟩
    · cases none
    · rw [kind] at goesOn
      obtain ⟨_, ⟨⟩⟩ | ⟨⟨_, ⟨⟩⟩, -⟩ := goesOn
  | member _ kind _ _ _ _ _ => exact absurd kind plain

/-- Of several children only the first one is evaluated, unless the node is an operator or a
    comparison that goes on. -/
theorem hasParts_first (first : Visit) (whole : visit.Evaluated limits source)
    (h : first.Evaluated limits source) (plain : visit.before.kind ≠ .group)
    (single : visit.before.kind = .function → rest = [])
    (children : visit.before.children = first.before :: rest) (begins : first.start = visit.start)
    (binary : ∀ op, visit.before.kind ≠ .operator op)
    (stops : ∀ op, visit.before.kind = .comparison op → first.after.targets? = some []) :
    visit.HasParts limits source [first] := by
  intro inner
  rw [List.mem_singleton]
  constructor
  · intro part
    cases part with
    | first _ h' _ _ children' begins' =>
      rw [children] at children'
      exact h.unique h' (List.cons.inj children').1.symm (begins'.trans begins.symm)
    | second before _ hbefore _ goesOn children' begins' _ =>
      rw [children] at children'
      obtain rfl := h.unique hbefore (List.cons.inj children').1.symm (begins'.trans begins.symm)
      rcases goesOn with ⟨op, isOperator⟩ | ⟨⟨op, isComparison⟩, more⟩
      · -- Nothing goes on after the first child.
        exact absurd isOperator (binary op)
      · exact absurd (stops op isComparison) more
    | member _ kind _ _ _ _ _ => exact absurd kind plain
  · rintro rfl
    exact .first whole h plain single children begins

/-- An operation, or a comparison with targets, has both sides as its parts. -/
theorem hasParts_both (first second : Visit) (whole : visit.Evaluated limits source)
    (h : first.Evaluated limits source) (h' : second.Evaluated limits source)
    (goesOn : (∃ op, visit.before.kind = .operator op) ∨
      (∃ op, visit.before.kind = .comparison op) ∧ first.after.targets? ≠ some [])
    (children : visit.before.children = [first.before, second.before])
    (begins : first.start = visit.start) (follows : second.start = first.finish) :
    visit.HasParts limits source [first, second] := by
  -- Neither operators nor comparisons are groups or calls, whose parts are others.
  have plain : visit.before.kind ≠ .group ∧ visit.before.kind ≠ .function := by
    rcases goesOn with ⟨op, kind⟩ | ⟨⟨op, kind⟩, -⟩
    · rw [kind]
      exact ⟨nofun, nofun⟩
    · rw [kind]
      exact ⟨nofun, nofun⟩
  intro inner
  rw [List.mem_cons, List.mem_singleton]
  constructor
  · intro part
    cases part with
    | first _ inside _ _ children' begins' =>
      rw [children] at children'
      exact .inl (h.unique inside (List.cons.inj children').1.symm (begins'.trans begins.symm))
    | second before _ hbefore inside _ children' begins' follows' =>
      rw [children] at children'
      obtain ⟨same, same'⟩ := List.cons.inj children'
      -- The first part is determined, and with it where the second one starts.
      obtain rfl := h.unique hbefore same.symm (begins'.trans begins.symm)
      exact .inr (h'.unique inside (List.cons.inj same').1.symm (follows'.trans follows.symm))
    | member _ kind _ _ _ _ _ => exact absurd kind plain.1
  · rintro (rfl | rfl)
    · exact .first whole h plain.1 (fun kind => absurd kind plain.2) children begins
    · exact .second first whole h h' goesOn children begins follows

/-- A group has the members that it unfolds to as its parts. -/
theorem hasParts_members {visits : List Visit} {unfolded : Node} {trace : Trace}
    (whole : visit.Evaluated limits source) (kind : visit.before.kind = .group)
    (unfolds : Unfolds limits visit.before visit.start unfolded trace)
    (members : unfolded.children = visits.map Visit.before)
    (linked : Visit.Linked visits trace visit.finish)
    (h : ∀ visit ∈ visits, visit.Evaluated limits source) :
    visit.HasParts limits source visits := by
  refine fun inner => ⟨fun part => ?_, .member whole kind unfolds members linked h⟩
  cases part with
  | first _ _ plain _ _ _ => exact absurd kind plain
  | second _ _ _ _ goesOn _ _ _ =>
    rw [kind] at goesOn
    obtain ⟨_, ⟨⟩⟩ | ⟨⟨_, ⟨⟩⟩, -⟩ := goesOn
  | member _ _ unfolds' members' linked' h' mem =>
    obtain ⟨rfl, rfl⟩ := unfolds.unique unfolds'
    obtain ⟨rfl, -⟩ := linked.unique linked' (members'.symm.trans members)
      fun visit hvisit visit' hvisit' => (h visit hvisit).unique (h' visit' hvisit')
    exact mem

/-- What adds up over the parts of evaluations is zero if nothing is added anywhere. -/
theorem sum_eq_zero_iff {cost : Visit → Int} {Adds : Visit → Prop}
    (step : ∀ inner : Visit, inner.Within limits source visit → ∃ parts added,
      inner.HasParts limits source parts ∧ cost inner = (parts.map cost).sum + added ∧
        0 ≤ added ∧ (added = 0 ↔ ¬ Adds inner)) :
    0 ≤ cost visit ∧
      (cost visit = 0 ↔ ∀ inner : Visit, inner.Within limits source visit → ¬ Adds inner) := by
  -- The parts of an evaluation are evaluations of children.
  induction size : visit.before.depth using Nat.strong_induction_on generalizing visit with
  | _ depth ih =>
    subst size
    obtain ⟨parts, added, hasParts, whole, addedNonneg, addedZero⟩ := step visit .refl
    have below : ∀ part ∈ parts, 0 ≤ cost part ∧
        (cost part = 0 ↔ ∀ inner : Visit, inner.Within limits source part → ¬ Adds inner) := by
      intro part hpart
      have isPart := (hasParts part).mpr hpart
      exact ih _ (Node.depth_lt_of_mem isPart.mem_children)
        (fun inner within => step inner (within.part isPart)) rfl
    -- No part costs less than nothing, so the parts cost nothing together only if each one does.
    have nonneg : ∀ n ∈ parts.map cost, 0 ≤ n := by
      intro n hn
      obtain ⟨part, hpart, rfl⟩ := List.mem_map.mp hn
      exact (below part hpart).1
    have sumNonneg := List.sum_nonneg nonneg
    refine ⟨by omega, fun zero inner within => ?_, fun free => ?_⟩
    · rcases Relation.ReflTransGen.cases_tail within with rfl | ⟨part, within, isPart⟩
      · exact addedZero.mp (by omega)
      · have hpart := (hasParts part).mp isPart
        have partZero : cost part = 0 :=
          List.all_zero_of_le_zero_le_of_sum_eq_zero nonneg (by omega)
            (List.mem_map_of_mem hpart)
        exact (below part hpart).2.mp partZero inner within
    · have partsZero : (parts.map cost).sum = 0 := by
        apply List.sum_eq_zero
        intro n hn
        obtain ⟨part, hpart, rfl⟩ := List.mem_map.mp hn
        exact (below part hpart).2.mpr fun inner within =>
          free inner (within.part ((hasParts part).mpr hpart))
      have addedNone := addedZero.mpr (free visit .refl)
      omega

end Visit

end

end DiceNotation
