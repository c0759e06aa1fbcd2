import DiceNotation.Proofs.Modifiers.AnyOrder
import DiceNotation.Proofs.Range.Rounding

/-! # All dice or none

A roll throws all of its dice, or it throws none of them and says why.  The number of dice and their
sides are judged one after the other, each against a least and a most amount, and whatever is wrong
with the one, the other is judged too.  Nothing is asked for until both are allowed.

What the count of the roll is made of does not matter: it may roll dice itself, and be negative or a
fraction.

* `Judged`               what is said about an amount between two bounds
* `ensures_checked`      a check says that, and does nothing else
* `roll_allOrNothing`    all dice are thrown if and only if nothing is said -/

namespace DiceNotation

open DiceNotation.EvalM (evaluateWithin)

/-! ## What is said about a roll -/

/-- The number of dice, or of the sides that they have, is not within the limits. -/
def Limits.Refuses (limits : Limits) (n : Int) (sides : Option Int) : Prop :=
  n < 0 ∨ (∃ limit ∈ limits.maxRolls, (limit : Int) < n) ∨
    ∃ k ∈ sides, k < 1 ∨ ∃ limit ∈ limits.maxSides, (limit : Int) < k

/-- What is said about an amount: why it is not allowed, or nothing. -/
inductive Judged (least : Int) (most : Option Nat) (tooFew : String) (tooMany : Nat → String)
    (n : Int) : List String → Prop where
  | few (below : n < least) : Judged least most tooFew tooMany n [tooFew]
  | many {limit : Nat} (low : least ≤ n) (given : most = some limit) (above : limit < n) :
      Judged least most tooFew tooMany n [tooMany limit]
  | allowed (low : least ≤ n) (high : ∀ limit ∈ most, n ≤ limit) :
      Judged least most tooFew tooMany n []

/-- What is said about a number of dice. -/
def Limits.CountJudged (limits : Limits) (n : Int) : List String → Prop :=
  Judged 0 limits.maxRolls s!"Invalid number of rolls: {n}. Minimum allowed: 0."
    (fun limit => s!"Invalid number of rolls: {n}. Maximum allowed: {limit}.") n

/-- What is said about the sides of dice.  Fate dice are always allowed. -/
inductive Limits.SidesJudged (limits : Limits) : Option Int → List String → Prop where
  | fate : SidesJudged limits none []
  | numbered {k : Int} {said : List String}
      (judged : Judged 1 limits.maxSides
        s!"Invalid number of dice sides: {k}. Minimum allowed: 1."
        (fun limit => s!"Invalid number of dice sides: {k}. Maximum allowed: {limit}.") k said) :
      SidesJudged limits (some k) said

/-- Problems with these messages are collected, and nothing else happens. -/
def Trace.Tells (trace trace' : Trace) (said : List String) : Prop :=
  ∃ problems, problems.map Problem.message = said ∧
    trace' = { trace with problems := trace.problems ++ problems }

section

variable {limits : Limits} {least : Int} {most : Option Nat} {tooFew : String}
  {tooMany : Nat → String} {n : Int} {sides : Option Int} {said ofCount ofSides : List String}

/-- Nothing is said of an amount if and only if it is neither too small nor too great. -/
private theorem Judged.eq_nil_iff (h : Judged least most tooFew tooMany n said) :
    said = [] ↔ ¬ (n < least ∨ ∃ limit ∈ most, (limit : Int) < n) := by
  cases h with
  | few below => exact iff_of_false (List.cons_ne_nil _ _) (not_not.mpr (.inl below))
  | @many limit low given above =>
    exact iff_of_false (List.cons_ne_nil _ _) (not_not.mpr (.inr ⟨limit, given, above⟩))
  | allowed low high =>
    refine iff_of_true rfl ?_
    rintro (below | ⟨limit, given, above⟩)
    · omega
    · have := high limit given
      omega

/-- Nothing is said of the sides if and only if there are none or their number is allowed. -/
private theorem Limits.SidesJudged.eq_nil_iff (h : limits.SidesJudged sides said) :
    said = [] ↔ ¬ ∃ k ∈ sides, k < 1 ∨ ∃ limit ∈ limits.maxSides, (limit : Int) < k := by
  cases h with
  | fate =>
    refine iff_of_true rfl ?_
    rintro ⟨k, given, -⟩
    cases given
  | @numbered k said judged =>
    rw [judged.eq_nil_iff]
    refine not_congr ⟨fun wrong => ⟨k, rfl, wrong⟩, ?_⟩
    rintro ⟨_, ⟨⟩, wrong⟩
    exact wrong

/-- A roll is refused if and only if something is said about it. -/
private theorem Limits.refuses_iff (count : limits.CountJudged n ofCount)
    (judged : limits.SidesJudged sides ofSides) :
    limits.Refuses n sides ↔ ofCount ++ ofSides ≠ [] := by
  have counted : ofCount = [] ↔ ¬ (n < 0 ∨ ∃ limit ∈ limits.maxRolls, (limit : Int) < n) :=
    count.eq_nil_iff
  rw [Ne, List.append_eq_nil_iff, counted, judged.eq_nil_iff, ← not_or, not_not, or_assoc]
  rfl

namespace Trace.Tells

variable {trace trace₁ trace₂ : Trace}

/-- A trace tells nothing more than itself. -/
private theorem nothing (trace : Trace) : trace.Tells trace [] :=
  ⟨[], rfl, by simp⟩

/-- What is told in two steps is told in order. -/
theorem trans (first : trace.Tells trace₁ ofCount) (second : trace₁.Tells trace₂ ofSides) :
    trace.Tells trace₂ (ofCount ++ ofSides) := by
  obtain ⟨problems, rfl, rfl⟩ := first
  obtain ⟨problems', rfl, rfl⟩ := second
  exact ⟨problems ++ problems', List.map_append, by rw [List.append_assoc]⟩

/-- If nothing is said, nothing happens at all. -/
private theorem eq_of_nothing (h : trace.Tells trace₁ []) : trace₁ = trace := by
  obtain ⟨problems, none, rfl⟩ := h
  obtain rfl := List.map_eq_nil_iff.mp none
  rw [List.append_nil]

end Trace.Tells

end

/-! ## The checks -/

section

variable {allowed : Fault → Prop} {limits : Limits} {node : Node} {trace : Trace} {n : Int}

/-- A problem whose message can be written is collected. -/
private theorem ensures_reported {problem : Problem} (writable : problem.isWritable = true) :
    Ensures allowed node trace (EvalM.report problem) fun _ after trace' =>
      after = node ∧ trace.Tells trace' [problem.message] := by
  have long : problem.isWritable = false → allowed .tooManyDigits := by
    rw [writable]
    nofun
  apply (ensures_report long).mono
  intro _ after trace' found
  obtain ⟨same, told⟩ := found
  unfold Sem.collect at told
  rw [if_pos writable] at told
  cases told
  exact ⟨same, [problem], rfl, rfl⟩

/-- A check of an amount says what is wrong with it, and does nothing else. -/
private theorem ensures_within (bounds : Bounds) (small : (Value.int n).isWritable = true) :
    Ensures allowed node trace (EvalM.within bounds n) fun ok after trace' => after = node ∧
      ∃ said, Judged bounds.least bounds.most (bounds.tooFew n).message
          (fun limit => (bounds.tooMany n limit).message) n said ∧
        ok = said.isEmpty ∧ trace.Tells trace' said := by
  unfold EvalM.within
  -- The three ways a number is judged: too few, within the limit or without one, and too many.
  by_cases below : n < bounds.least
  · rw [if_pos below]
    apply (ensures_reported (bounds.isWritable_tooFew small)).bind
    intro _ _ trace' found
    obtain ⟨rfl, told⟩ := found
    exact .pure ⟨rfl, _, .few below, rfl, told⟩
  · have low : bounds.least ≤ n := by omega
    rw [if_neg below]
    cases bounded : bounds.most with
    | none => exact .pure ⟨rfl, [], .allowed low nofun, rfl, .nothing _⟩
    | some limit =>
      dsimp only
      by_cases above : (limit : Int) < n
      · rw [if_pos above]
        apply Ensures.note_bind
        apply (ensures_reported (bounds.isWritable_tooMany small above)).bind
        intro _ _ trace' found
        obtain ⟨rfl, told⟩ := found
        exact .pure ⟨rfl, _, .many low rfl above, rfl, told⟩
      · have high : ∀ most ∈ some limit, n ≤ (most : Int) := by
          rintro _ ⟨⟩
          omega
        rw [if_neg above]
        exact .pure ⟨rfl, [], .allowed low high, rfl, .nothing _⟩

end

/-! ## Rolls -/

/-- The node says how many sides the dice of a roll have: a number, which is rounded, or none for
    fate dice. -/
inductive Node.GivesSides (node : Node) : Option Int → Prop where
  | fate (kind : node.kind = .diceSides) (value : node.value? = some .fate) : node.GivesSides none
  | numbered {s : Number} {k : Int} (kind : node.kind = .diceSides)
      (value : node.value? = some (.number s)) (rounded : s.roundHalfUp = .ok k) :
      node.GivesSides (some k)

/-- What is left of a roll of `n` dice that throws them all, when `trace` was observed until its
    count was evaluated. -/
structure ThrewAll (source : Source) (attributes : OrderedMap Value) (n : Int) (sides : Option Int)
    (trace : Trace) (value : Value) (after : Focus) : Prop where
  value : value = .int (Roll.drawn source trace n sides).sum
  node : after.node = Node.store (.thrown attributes n sides
      ((Roll.drawn source trace n sides).map (Dice.die (shownSides sides))))
    (.int (Roll.drawn source trace n sides).sum)
  problems : after.record.trace.problems = trace.problems
  requests : after.record.trace.requests =
    trace.requests ++ List.replicate n.toNat (Roll.facesOf sides)

/-- What is left of a roll of `n` dice that throws none of them: it says why. -/
structure ThrewNone (limits : Limits) (attributes : OrderedMap Value) (n : Int)
    (sides : Option Int) (trace : Trace) (value : Value) (after : Focus) : Prop where
  value : value = .int 0
  node : after.node = Node.store (.thrown attributes n sides []) 0
  told : ∃ ofCount ofSides problems, limits.CountJudged n ofCount ∧
    limits.SidesJudged sides ofSides ∧ ofCount ++ ofSides ≠ [] ∧
    problems.map Problem.message = ofCount ++ ofSides ∧
    after.record.trace.problems = trace.problems ++ problems
  requests : after.record.trace.requests = trace.requests

section

variable {rules : Rules} {levels : Nat} {attributes : OrderedMap Value} {count sides : Node}
  {record : Record} {first : Focus} {c : Number} {n : Int} {shown : Option Int}

/-- The sides that a node gives are those that the roll reads off it. -/
private theorem Node.GivesSides.yields (h : sides.GivesSides shown) :
    Yields shown ⟨.dice, attributes, [count, sides]⟩ EvalM.rollSides := by
  intro record
  unfold EvalM.rollSides
  rw [EvalM.run_node_bind]
  cases h with
  | fate kind value =>
    simp only [List.getElem?_cons_succ, List.getElem?_cons_zero, kind, value]
    rfl
  | @numbered s k kind value rounded =>
    -- The sides hold a number, which the check only has to round.
    have read : Yields (some k) ⟨.dice, attributes, [count, sides]⟩
        (do return some (← EvalM.rounded (pure (Value.number s)))) :=
      ((yields_pure _).rounded rounded).bind (yields_pure _)
    simp only [List.getElem?_cons_succ, List.getElem?_cons_zero, kind, value]
    exact read record

/-- A number of sides that was rounded can be written. -/
private theorem Node.GivesSides.isWritable (h : sides.GivesSides (some n)) :
    (Value.int n).isWritable = true := by
  cases h with
  | numbered _ _ rounded => exact Number.isWritable_of_roundHalfUp rounded

/-- What a roll leaves before its value is stored. -/
def ThrewOrTold (rules : Rules) (attributes : OrderedMap Value) (n : Int) (shown : Option Int)
    (trace : Trace) (value : Value) (after : Node) (trace' : Trace) : Prop :=
  ∃ ofCount ofSides told dice, rules.limits.CountJudged n ofCount ∧
    rules.limits.SidesJudged shown ofSides ∧ trace.Tells told (ofCount ++ ofSides) ∧
    Roll.throwDice rules.source (ofCount ++ ofSides).isEmpty n.toNat shown told = (dice, trace') ∧
    value = .int (Dice.total dice) ∧ after = .thrown attributes n shown dice

/-- When its count has been evaluated, a roll judges its count and its sides, and throws its dice if
    nothing was said about them. -/
private theorem exists_threwOrTold
    (counted : evaluateWithin rules levels ⟨count, record⟩ = .ok (.number c) first)
    (rounded : c.roundHalfUp = .ok n) (given : sides.GivesSides shown) :
    ∃ value after, EvalM.roll rules (evaluateWithin rules levels)
        ⟨⟨.dice, attributes, [count, sides]⟩, record⟩ = .ok value after ∧
      ThrewOrTold rules attributes n shown first.record.trace value after.node
        after.record.trace := by
  have small : (Value.int n).isWritable = true := Number.isWritable_of_roundHalfUp rounded
  -- The number of dice is known by now, so the evaluation is followed from the first check on.
  have two : EvalM.requireChildren 2 ⟨⟨.dice, attributes, [count, sides]⟩, record⟩ =
      .ok () ⟨⟨.dice, attributes, [count, sides]⟩, record⟩ := EvalM.run_requireChildren rfl record
  unfold EvalM.roll
  rw [EvalM.bind_of_ok two,
    EvalM.bind_of_ok (EvalM.onChild_of_ok rfl (run_rounded counted rounded))]
  apply Ensures.result
  apply Ensures.run_bind given.yields
  apply Ensures.modifyNode_bind
  apply (ensures_within rules.limits.onCount small).bind
  intro countAllowed _ trace₁ found
  obtain ⟨rfl, ofCount, countJudged, rfl, toldCount⟩ := found
  -- What is left is the same for numbered dice and for fate dice.
  have rest : ∀ ofSides trace₂, rules.limits.SidesJudged shown ofSides →
      trace₁.Tells trace₂ ofSides →
      Ensures (fun _ => False) (.thrown attributes n shown []) trace₂
        (EvalM.throwDice rules (ofCount.isEmpty && ofSides.isEmpty) n shown)
        (ThrewOrTold rules attributes n shown first.record.trace) := by
    intro ofSides trace₂ sidesJudged toldSides
    apply (ensures_throwDice _ n shown).mono
    intro value after trace' found
    obtain ⟨dice, threw, same, thrown⟩ := found
    have both : (ofCount.isEmpty && ofSides.isEmpty) = (ofCount ++ ofSides).isEmpty := by
      cases ofCount <;> rfl
    rw [both] at threw
    exact ⟨ofCount, ofSides, trace₂, dice, countJudged, sidesJudged, toldCount.trans toldSides,
      threw, same, thrown⟩
  -- Only numbered dice have sides that are judged.
  cases shown with
  | none => exact rest [] trace₁ .fate (.nothing _)
  | some k =>
    apply (ensures_within rules.limits.onSides given.isWritable).bind
    intro sidesAllowed _ trace₂ found
    obtain ⟨rfl, ofSides, judged, rfl, toldSides⟩ := found
    exact rest ofSides trace₂ (.numbered judged) toldSides

end

/-- A roll whose count was evaluated throws all of its dice, or none if their number or their sides
    are not within the limits.  In this case nothing is asked for, and what is wrong with the number
    of dice is told before what is wrong with the sides. -/
theorem roll_allOrNothing {rules : Rules} {levels : Nat} {attributes : OrderedMap Value}
    {count sides : Node} {record : Record} {first : Focus} {c : Number} {n : Int}
    {shown : Option Int} (new : attributes.get? "value" = none)
    (counted : evaluateWithin rules levels ⟨count, record⟩ = .ok (.number c) first)
    (rounded : c.roundHalfUp = .ok n) (given : sides.GivesSides shown) :
    ∃ value after, evaluateWithin rules (levels + 1)
        ⟨⟨.dice, attributes, [count, sides]⟩, record⟩ = .ok value after ∧
      (rules.limits.Refuses n shown →
        ThrewNone rules.limits attributes n shown first.record.trace value after) ∧
      (¬ rules.limits.Refuses n shown →
        ThrewAll rules.source attributes n shown first.record.trace value after) := by
  obtain ⟨value, rolled, ran, ofCount, ofSides, told, dice, countJudged, sidesJudged, tells, threw,
    rfl, thrown⟩ := @exists_threwOrTold rules levels attributes _ _ _ _ _ _ _ counted rounded given
  -- What was said of the count and of the sides decides between the two parts.
  have refuses := Limits.refuses_iff countJudged sidesJudged
  rw [run_new_roll new, EvalM.bind_of_ok ran]
  refine ⟨_, _, rfl, ?_, ?_⟩
  · -- Something was said, so that no dice were asked for and the dice are left as they were.
    intro refused
    have said := refuses.mp refused
    rw [List.isEmpty_eq_false_iff.mpr said] at threw
    obtain ⟨rfl, same⟩ := Prod.mk.inj threw
    obtain ⟨problems, messages, rfl⟩ := tells
    have asked : rolled.record.trace.requests = first.record.trace.requests := by
      rw [← same]
    have more : rolled.record.trace.problems = first.record.trace.problems ++ problems := by
      rw [← same]
    exact ⟨rfl, congrArg (Node.store · 0) thrown,
      ⟨ofCount, ofSides, problems, countJudged, sidesJudged, said, messages, more⟩, asked⟩
  · -- Nothing was said, so that the dice that were thrown are all that has changed.
    intro accepted
    have nothing := of_not_not (mt refuses.mpr accepted)
    rw [nothing] at tells threw
    obtain rfl := tells.eq_of_nothing
    obtain ⟨rfl, same⟩ := Prod.mk.inj threw
    -- Fresh dice are all live, so their sum is that of all faces drawn.
    have total : Dice.total (Dice.fresh (shownSides shown)
        (first.record.trace.answers rules.source (Roll.facesOf shown)) n.toNat) =
        (Roll.drawn rules.source first.record.trace n shown).sum :=
      congrArg List.sum (Dice.liveFaces_fresh _ _ _)
    have dice : Dice.fresh (shownSides shown)
        (first.record.trace.answers rules.source (Roll.facesOf shown)) n.toNat =
        (Roll.drawn rules.source first.record.trace n shown).map (Dice.die (shownSides shown)) := by
      unfold Dice.fresh Roll.drawn
      rw [List.map_map]
      rfl
    rw [total]
    rw [dice] at thrown
    have asked : rolled.record.trace.requests =
        first.record.trace.requests ++ List.replicate n.toNat (Roll.facesOf shown) := by
      rw [← same]
      rfl
    have unchanged : rolled.record.trace.problems = first.record.trace.problems := by
      rw [← same]
      rfl
    exact ⟨rfl, congrArg (Node.store · _) thrown, unchanged, asked⟩

/-- Thirty dice without sides are wrong in two ways; three fate dice are thrown. -/
theorem roll_allOrNothing_small :
    let rules : Rules := ⟨⟨some 20, some 100, 1⟩, .default, fun request _ => request % 2⟩
    let sides : Value → Node := fun s => ⟨.diceSides, .ofList [("value", s)], []⟩
    (∃ value after, evaluateWithin rules 2
        ⟨⟨.dice, .empty, [.integer 30, sides (.int 0)]⟩, {}⟩ = .ok value after ∧
      ThrewNone rules.limits .empty 30 (some 0) {} value after) ∧
    ∃ value after, evaluateWithin rules 2
        ⟨⟨.dice, .empty, [.integer 3, sides .fate]⟩, {}⟩ = .ok value after ∧
      ThrewAll rules.source .empty 3 none {} value after := by
  intro rules sides
  have thirty : (Number.int 30).roundHalfUp = .ok 30 := by decide +kernel
  have zero : (Number.int 0).roundHalfUp = .ok 0 := by decide +kernel
  have three : (Number.int 3).roundHalfUp = .ok 3 := by decide +kernel
  -- Thirty dice are more than the limit, and their sides are too few as well.
  have refused : rules.limits.Refuses 30 (some 0) := .inr (.inl ⟨20, rfl, by decide⟩)
  have accepted : ¬ rules.limits.Refuses 3 none := by
    rintro (negative | ⟨_, ⟨⟩, above⟩ | ⟨_, ⟨⟩, _⟩)
    · exact absurd negative (by decide)
    · exact absurd above (by decide)
  obtain ⟨value, after, run, none, -⟩ := @roll_allOrNothing rules 1 .empty (.integer 30)
    (sides (.int 0)) {} _ _ _ _ rfl rfl thirty (.numbered rfl rfl zero)
  obtain ⟨value', after', run', -, all⟩ := @roll_allOrNothing rules 1 .empty (.integer 3)
    (sides .fate) {} _ _ _ _ rfl rfl three (.fate rfl rfl)
  exact ⟨⟨value, after, run, none refused⟩, value', after', run', all accepted⟩

end DiceNotation
