import DiceNotation.Proofs.Range.InRange
import DiceNotation.Proofs.Range.Rounding

/-! # In range means safe

The evaluation of a legible expression is safe if and only if it stays in range
(`safe_meaning`).  Dice themselves never break down: exploding and rolling again only ask for
random numbers, and what the limits say of a count or a number of sides that was rounded can be
written. -/

namespace DiceNotation

open DiceNotation.Expr (Sides Bound Step Writable)
open Sem

variable {limits : Limits} {source : Source} {trace : Trace}

/-! ## Operators and functions -/

/-- A problem that names two values can be written if both can. -/
theorem isWritable_pair {problem : Problem} {a b : Value} (h : problem.values = [a, b]) :
    problem.isWritable = true ↔ a.isWritable = true ∧ b.isWritable = true := by
  unfold Problem.isWritable
  rw [h]
  simp

/-- A problem that names one value can be written if it can. -/
theorem isWritable_single {problem : Problem} {a : Value} (h : problem.values = [a]) :
    problem.isWritable = true ↔ a.isWritable = true := by
  unfold Problem.isWritable
  rw [h]
  simp

/-- A limit below a number that can be written can be written. -/
theorem isWritable_of_lt {limit : Nat} {n : Int} (above : limit < n)
    (small : (Value.int n).isWritable = true) : (Value.int limit).isWritable = true := by
  unfold Value.isWritable Number.isWritable at small ⊢
  rw [decide_eq_true_eq] at small ⊢
  omega

namespace Bounds

/-- What is said of too small an amount can be written if the amount can. -/
theorem isWritable_tooFew (bounds : Bounds) {n : Int} (small : (Value.int n).isWritable = true) :
    (bounds.tooFew n).isWritable = true :=
  (isWritable_single (bounds.tooFew_values n)).mpr small

/-- What is said of too great an amount can be written if the amount can, as the limit is less. -/
theorem isWritable_tooMany (bounds : Bounds) {n : Int} {limit : Nat}
    (small : (Value.int n).isWritable = true) (above : limit < n) :
    (bounds.tooMany n limit).isWritable = true :=
  (isWritable_pair (bounds.tooMany_values n limit)).mpr ⟨small, isWritable_of_lt above small⟩

end Bounds

/-- An operation is refused if and only if its operands are out of range. -/
private theorem safe_operate (op : Operator) (a b : Number) :
    Safe Refusal (operate op a b) trace ↔ op.InRange a b := by
  -- A problem is told with both operands, which therefore must be short enough.
  have reported {problem : Problem} (h : problem.values = [.number a, .number b]) :
      Safe Refusal (do collect problem; return (0 : Number)) trace ↔
        a.isWritable = true ∧ b.isWritable = true := by
    rw [safe_bind, safe_collect, isWritable_pair h]
    exact and_iff_left (after_trivial fun _ _ => safe_pure _)
  unfold operate Operator.InRange
  cases op.apply a b with
  | ok result =>
    dsimp only
    cases result.isUnbounded with
    | true =>
      simp only [if_true, true_imp_iff]
      exact reported rfl
    | false => exact iff_of_true (safe_pure _) nofun
  | error e =>
    cases e with
    -- Only a division by zero is told without the operands.
    | divisionByZero =>
      refine iff_of_true ?_ trivial
      rw [safe_bind, safe_collect]
      exact ⟨rfl, after_trivial fun _ _ => safe_pure _⟩
    | _ => exact reported rfl

/-- A function is refused if and only if its argument does not suit it. -/
private theorem safe_function {name : String} {f : Number → Sem Number}
    (h : function? name = some f) (n : Number) : Safe Refusal (f n) trace ↔ n.Suits name := by
  -- The functions that round fail just where the conversion does.
  have integer {g : Number → Except NumberError Int} :
      Safe Refusal (do return Number.int (← demand (g n))) trace ↔ ∃ k, g n = .ok k := by
    rw [safe_bind, safe_demand]
    exact and_iff_left (after_trivial fun _ _ => safe_pure _)
  unfold function? at h
  unfold Number.Suits
  split at h <;> cases h
  · exact iff_of_true (safe_pure _) trivial
  · exact integer
  · exact integer
  · exact integer
  · -- A negative radicand is reported, with the number in the text.
    unfold squareRoot
    cases n.lt 0 with
    | true =>
      simp only [if_true]
      rw [safe_bind, safe_collect, isWritable_single rfl]
      exact and_iff_left (after_trivial fun _ _ => safe_pure _)
    | false => exact safe_demand

/-! ## Dice -/

namespace Roll

variable {faces : Faces} {due : Int → Bool} {allowed : Fault → Prop}

/-- A chain of explosions is safe. -/
private theorem safe_chain (budget : Nat) (face : Int) (trace : Trace) :
    Safe allowed (chain (ask source faces) due budget face) trace := by
  induction budget generalizing face trace with
  | zero => exact safe_pure _
  | succ budget ih =>
    rw [chain]
    by_cases h : due face
    · rw [if_pos h, safe_bind]
      refine ⟨safe_ask source faces, after_trivial fun next trace => ?_⟩
      rw [safe_bind]
      exact ⟨ih next trace, after_trivial fun _ _ => safe_pure _⟩
    · rw [if_neg h]
      exact safe_pure _

/-- Exploding is safe. -/
theorem safe_explode (penetrating : Bool) (budget : Nat) (dice : List Die) (trace : Trace) :
    Safe allowed (explode (ask source faces) due penetrating budget dice) trace := by
  -- Neither the dice that were drawn before nor what is left of the budget matters.
  induction dice generalizing budget trace with
  | nil => exact safe_pure _
  | cons die dice ih =>
    rw [explode]
    split
    · rw [safe_bind]
      exact ⟨ih budget trace, after_trivial fun _ _ => safe_pure _⟩
    · rw [safe_bind]
      refine ⟨safe_chain budget die.face trace, after_trivial fun chain trace => ?_⟩
      dsimp only
      split
      · exact safe_pure _
      · rw [safe_bind]
        exact ⟨ih _ trace, after_trivial fun _ _ => safe_pure _⟩

/-- Rolling one die again is safe. -/
private theorem safe_rerollFace (once : Bool) (budget : Nat) (face : Int) (trace : Trace) :
    Safe allowed (rerollFace (ask source faces) due once budget face) trace := by
  induction budget generalizing face trace with
  | zero => exact safe_pure _
  | succ budget ih =>
    rw [rerollFace]
    split
    · rw [safe_bind]
      refine ⟨safe_ask source faces, after_trivial fun next trace => ?_⟩
      split
      · exact safe_pure _
      · exact ih next trace
    · exact safe_pure _

/-- Rolling dice again is safe. -/
theorem safe_reroll (once : Bool) (budget : Nat) (dice : List Die) (trace : Trace) :
    Safe allowed (reroll (ask source faces) due once budget dice) trace := by
  induction dice generalizing trace with
  | nil => exact safe_pure _
  | cons die dice ih =>
    rw [reroll]
    split
    · rw [safe_bind]
      exact ⟨ih trace, after_trivial fun _ _ => safe_pure _⟩
    · rw [safe_bind]
      refine ⟨safe_rerollFace once budget die.face trace, after_trivial fun _ trace => ?_⟩
      rw [safe_bind]
      exact ⟨ih trace, after_trivial fun _ _ => safe_pure _⟩

/-- A fresh roll is safe. -/
theorem safe_fresh (count : Nat) (trace : Trace) :
    Safe allowed (fresh (ask source faces) count) trace := by
  induction count generalizing trace with
  | zero => exact safe_pure _
  | succ count ih =>
    rw [fresh, safe_bind]
    refine ⟨safe_ask source faces, after_trivial fun _ trace => ?_⟩
    rw [safe_bind]
    exact ⟨ih trace, after_trivial fun _ _ => safe_pure _⟩

/-- An amount is refused if and only if it cannot be rounded. -/
private theorem safe_amount (amount : Option Nat) :
    Safe Refusal (Roll.amount amount) trace ↔ ∀ n ∈ amount, (Number.int n).Roundable := by
  cases amount with
  | none => exact iff_of_true (safe_pure _) fun n hn => absurd hn (Option.not_mem_none n)
  | some n =>
    have given : Roll.amount (some n) = demand (Number.int n).roundHalfUp := rfl
    rw [given, safe_demand]
    exact ⟨fun h k hk => Option.mem_some_iff.mp hk ▸ h, fun h => h n rfl⟩

/-- Dice that come with the note whether a limit was reached, of which a problem tells. -/
private theorem safe_capped {dice : Sem (List Die × Bool)} {problem : Problem}
    (h : Safe Refusal dice trace) (values : problem.values = [.int limits.maxIterations]) :
    Safe Refusal (do
      let (dice, capped) ← dice
      if capped then collect problem
      return dice) trace ↔
    After dice trace fun result _ => result.2 = true → Writable limits.maxIterations := by
  rw [safe_bind, and_iff_right h]
  refine after_congr fun result trace => ?_
  obtain ⟨dice, capped⟩ := result
  cases capped with
  | true =>
    dsimp only
    simp only [if_true, true_imp_iff]
    rw [safe_bind, safe_collect, isWritable_single values, ← Expr.writable_iff]
    exact and_iff_left (after_trivial fun _ _ => safe_pure _)
  | false => exact iff_of_true (safe_pure _) nofun

/-- A modifier is refused if and only if its amount is out of range. -/
private theorem safe_transform (step : Step) (dice : List Die) :
    Safe Refusal (transform limits source faces step dice) trace ↔
      StepInRange limits source faces step dice trace := by
  unfold transform StepInRange
  cases step with
  | explode penetrating bound => exact safe_capped (safe_explode _ _ _ _) rfl
  -- Only the number of dice to keep or to drop is rounded and may fail.
  | keep highest amount =>
    dsimp only
    rw [safe_bind, safe_amount]
    exact and_iff_left (after_trivial fun _ _ => safe_pure _)
  | drop highest amount =>
    dsimp only
    rw [safe_bind, safe_amount]
    exact and_iff_left (after_trivial fun _ _ => safe_pure _)
  | critical success bound => exact iff_of_true (safe_pure _) trivial
  | reroll once bound => exact safe_capped (safe_reroll _ _ _ _) rfl
  | sort descending => exact iff_of_true (safe_pure _) trivial

/-- Modifiers are refused if and only if one of them is out of range. -/
private theorem safe_modify (steps : List Step) (dice : List Die) (trace : Trace) :
    Safe Refusal (modify limits source faces steps dice) trace ↔
      StepsInRange limits source faces steps dice trace := by
  unfold modify
  induction steps generalizing dice trace with
  | nil => exact iff_of_true (safe_pure _) trivial
  | cons step steps ih =>
    rw [List.foldlM_cons, safe_bind, safe_transform, StepsInRange]
    exact and_congr_right fun _ => after_congr fun dice trace => ih dice trace

/-! ## Rolls -/

/-- A problem is collected, and the answer is no. -/
private theorem safe_refuse {problem : Problem} (h : problem.isWritable = true) (trace : Trace) :
    Safe Refusal (do collect problem; return false) trace := by
  rw [safe_bind, safe_collect]
  exact ⟨h, after_trivial fun _ _ => safe_pure _⟩

/-- What is said about an amount can be written if the amount can. -/
theorem safe_within (bounds : Bounds) {n : Int} (small : (Value.int n).isWritable = true)
    (trace : Trace) : Safe Refusal (within bounds n) trace := by
  unfold within
  split
  · exact safe_refuse (bounds.isWritable_tooFew small) trace
  · split
    · exact safe_pure _
    · split
      · next above => exact safe_refuse (bounds.isWritable_tooMany small above) trace
      · exact safe_pure _

/-- What is said about the sides can be written. -/
theorem safe_sidesAllowed {sides : Option Int}
    (small : ∀ s ∈ sides, (Value.int s).isWritable = true) (trace : Trace) :
    Safe Refusal (sidesAllowed limits sides) trace := by
  cases sides with
  | none => exact safe_pure _
  | some s => exact safe_within limits.onSides (small s rfl) trace

/-- The start of a roll is safe if its count and its sides can be written. -/
private theorem safe_start {count : Int} {sides : Option Int}
    (hcount : (Value.int count).isWritable = true)
    (hsides : ∀ s ∈ sides, (Value.int s).isWritable = true) (trace : Trace) :
    Safe Refusal (start limits source count sides) trace := by
  unfold start
  rw [safe_bind]
  refine ⟨safe_within _ hcount trace, after_trivial fun _ trace => ?_⟩
  rw [safe_bind]
  refine ⟨safe_sidesAllowed hsides trace, after_trivial fun _ trace => ?_⟩
  split
  · exact safe_fresh _ _
  · exact safe_pure _

/-- A number of sides is refused if and only if it is out of range. -/
private theorem safe_sideCount (sides : Sides) : Safe Refusal
    (sideCount sides) trace ↔ sides.InRange := by
  cases sides with
  | fate => exact iff_of_true (safe_pure _) trivial
  | faces n =>
    unfold sideCount Expr.Sides.InRange
    dsimp only
    rw [safe_bind, safe_demand]
    exact and_iff_left (after_trivial fun _ _ => safe_pure _)

/-- What holds after the number of sides, if there is one. -/
private theorem after_sideCount (sides : Sides) {post : Option Int → Trace → Prop} :
    After (sideCount sides) trace post ↔
      ∀ sides', sideCount sides = pure sides' → post sides' trace := by
  rcases sideCount_cases sides with ⟨s, hs⟩ | ⟨e, hs⟩
  · rw [hs, after_pure]
    refine ⟨fun h sides' same => ?_, fun h => h s rfl⟩
    cases congrFun same trace
    exact h
  · rw [hs]
    refine iff_of_true nofun fun sides' same => ?_
    cases congrFun same trace

/-- A number of sides that was rounded can be written. -/
private theorem isWritable_of_sideCount {sides : Sides} {sides' : Option Int}
    (h : sideCount sides = pure sides') : ∀ s ∈ sides', (Value.int s).isWritable = true := by
  intro s hs
  cases sides with
  | fate =>
    cases congrFun h {}
    cases hs
  | faces n =>
    unfold sideCount at h
    dsimp only at h
    -- The sides are a rounded number, which always can be written.
    cases hn : (Number.int n).roundHalfUp with
    | error e =>
      rw [hn] at h
      cases congrFun h {}
    | ok k =>
      rw [hn] at h
      cases congrFun h {}
      cases hs
      exact Number.isWritable_of_roundHalfUp hn

/-- A roll whose count has been evaluated. -/
private theorem safe_rolled {n : Number} {sides : Sides} {steps : List Step} :
    Safe Refusal (do
      let times ← demand n.roundHalfUp
      let sides ← sideCount sides
      let dice ← start limits source times sides
      return Meaning.ofDice (← modify limits source (facesOf sides) steps dice)) trace ↔
    n.Roundable ∧ sides.InRange ∧
      ∀ times sides', n.roundHalfUp = .ok times → sideCount sides = pure sides' →
        After (start limits source times sides') trace
          (StepsInRange limits source (facesOf sides') steps) := by
  -- What the number of dice is rounded to is known when the sides are looked at.
  have rest : ∀ times, n.roundHalfUp = .ok times →
      (Safe Refusal (do
        let sides ← sideCount sides
        let dice ← start limits source times sides
        return Meaning.ofDice (← modify limits source (facesOf sides) steps dice)) trace ↔
      sides.InRange ∧ ∀ sides', sideCount sides = pure sides' →
        After (start limits source times sides') trace
          (StepsInRange limits source (facesOf sides') steps)) := by
    intro times htimes
    rw [safe_bind, safe_sideCount, after_sideCount]
    refine and_congr_right fun _ => forall_congr' fun sides' => imp_congr_right fun hsides => ?_
    -- A throw itself is always safe, so only the modifiers are left.
    rw [safe_bind, and_iff_right (safe_start (Number.isWritable_of_roundHalfUp htimes)
      (isWritable_of_sideCount hsides) trace)]
    refine after_congr fun dice trace => ?_
    rw [safe_bind, safe_modify]
    exact and_iff_left (after_trivial fun _ _ => safe_pure _)
  rw [safe_bind, safe_demand, after_demand]
  constructor
  · rintro ⟨⟨times, htimes⟩, h⟩
    refine ⟨⟨times, htimes⟩, ((rest times htimes).mp (h times htimes)).1, ?_⟩
    exact fun times sides' htimes => ((rest times htimes).mp (h times htimes)).2 sides'
  · rintro ⟨roundable, hsides, h⟩
    refine ⟨roundable, fun times htimes => (rest times htimes).mpr ⟨hsides, ?_⟩⟩
    exact fun sides' => h times sides' htimes

end Roll

/-! ## Groups -/

/-- The passes over a group are refused if and only if one of them is out of range. -/
private theorem safe_sumPasses {pass : Number → Sem (Number × List Number)}
    {inRange : Number → Trace → Prop}
    (h : ∀ sum trace, Safe Refusal (pass sum) trace ↔ inRange sum trace)
    (times : Nat) (sum : Number) (trace : Trace) :
    Safe Refusal (sumPasses pass times sum) trace ↔ PassesInRange pass inRange times sum trace := by
  induction times generalizing sum trace with
  | zero => exact iff_of_true (safe_pure _) trivial
  | succ times ih =>
    rw [sumPasses, safe_bind, h, PassesInRange]
    refine and_congr_right fun _ => after_congr fun result trace => ?_
    obtain ⟨sum, first⟩ := result
    dsimp only
    rw [safe_bind, ih]
    exact and_iff_left (after_trivial fun _ _ => safe_pure _)

/-- A group is refused if and only if it is within its limit and a pass is out of range. -/
private theorem safe_sumGroup {pass : Number → Sem (Number × List Number)}
    {inRange : Number → Trace → Prop}
    (h : ∀ sum trace, Safe Refusal (pass sum) trace ↔ inRange sum trace)
    {repeats : Option Nat} (small : ∀ n ∈ repeats, Writable n) :
    Safe Refusal (sumGroup limits repeats pass) trace ↔
      (∃ times ∈ repeats, ∃ limit ∈ limits.maxRolls, limit < times) ∨
        PassesInRange pass inRange (repeats.getD 1) 0 trace := by
  -- Too many repetitions are reported and nothing is evaluated.
  by_cases excess : ∃ times ∈ repeats, ∃ limit ∈ limits.maxRolls, limit < times
  · rw [iff_true_right (.inl excess)]
    obtain ⟨times, rfl, limit, hlimit, above⟩ := excess
    have low : (Value.int times).isWritable = true := Expr.writable_iff.mp (small times rfl)
    have lower := isWritable_of_lt (Int.ofNat_lt.mpr above) low
    rw [sumGroup_above hlimit above, safe_bind, safe_collect, isWritable_pair rfl]
    exact ⟨⟨low, lower⟩, after_trivial fun _ _ => safe_pure _⟩
  · rw [or_iff_right excess, ← safe_sumPasses h]
    have within : ∀ times ∈ repeats, ∀ limit ∈ limits.maxRolls, times ≤ limit :=
      fun times ht limit hl => Nat.not_lt.mp fun above => excess ⟨times, ht, limit, hl, above⟩
    rw [sumGroup_within within, safe_bind]
    exact and_iff_left (after_trivial fun _ _ => safe_pure _)

/-! ## Expressions -/

/-- A sum of members is refused if and only if one of them or the sum is out of range. -/
private theorem safe_addMembers {members : List Expr}
    (h : ∀ e ∈ members, ∀ trace,
      Safe Refusal (meaning limits source e) trace ↔ InRange limits source e trace)
    (sum : Number) (trace : Trace) :
    Safe Refusal (addMembers limits source members sum) trace ↔
      MembersInRange limits source members sum trace := by
  induction members generalizing sum trace with
  | nil =>
    rw [addMembers, MembersInRange]
    exact iff_of_true (safe_pure _) trivial
  | cons member members ih =>
    have ih := ih fun e he => h e (List.mem_cons_of_mem _ he)
    rw [addMembers, safe_bind, h member List.mem_cons_self, MembersInRange]
    refine and_congr_right fun _ => after_congr fun m trace => ?_
    -- What comes behind a member depends on the sum so far.
    have rest : ∀ total, Safe Refusal (addMembers limits source members total >>= fun others =>
        pure (others.1, m.value :: others.2)) trace ↔
          MembersInRange limits source members total trace := by
      intro total
      rw [safe_bind, ih]
      exact and_iff_left (after_trivial fun _ _ => safe_pure _)
    dsimp only
    rw [safe_bind, safe_demand, after_demand]
    constructor
    · rintro ⟨⟨total, added⟩, h⟩
      exact ⟨total, added, (rest total).mp (h total added)⟩
    · -- The sum is a function of the numbers, so it is the one that was found safe.
      rintro ⟨total, added, inRange⟩
      refine ⟨⟨total, added⟩, fun total' added' => ?_⟩
      rw [added] at added'
      cases added'
      exact (rest total).mpr inRange

/-- A call is refused if and only if its argument is out of range. -/
private theorem safe_call {name : String} {arguments : List Expr}
    (h : ∀ e ∈ arguments, ∀ trace,
      Safe Refusal (meaning limits source e) trace ↔ InRange limits source e trace) :
    Safe Refusal (meaning limits source (.call name arguments)) trace ↔
      ArgumentInRange limits source name arguments trace := by
  rw [meaning]
  cases hf : function? name with
  | none =>
    -- An unknown name is the fault that is allowed.
    have refused :
        Safe Refusal (throw (.unknownFunction (some (.text name))) : Sem Meaning) trace := by
      intro e trace' same
      cases same
      rfl
    refine iff_of_true refused ?_
    unfold ArgumentInRange
    rw [hf]
    split
    · exact nofun
    · trivial
  | some f =>
    dsimp only
    rw [safe_bind, and_iff_left (after_trivial fun _ _ => safe_pure _)]
    unfold ArgumentInRange
    rw [hf]
    split
    · next argument =>
      rw [meaningOfOnly, applyTo, safe_bind, h argument List.mem_cons_self]
      simp only [Option.isSome_some, true_imp_iff]
      exact and_congr_right fun _ => after_congr fun m trace => safe_function hf m.value
    · next others =>
      have none : meaningOfOnly limits source arguments = none := by
        unfold meaningOfOnly
        split
        · next argument => exact absurd rfl (others argument)
        · rfl
      -- The problem that is collected can be written.
      rw [none, applyTo, safe_bind, safe_collect, isWritable_single rfl]
      exact iff_of_true ⟨rfl, after_trivial fun _ _ => safe_pure _⟩ trivial

/-- A legible expression is evaluated safely if and only if its evaluation stays in range. -/
theorem safe_meaning {e : Expr} (legible : e.Legible) (trace : Trace) :
    Safe Refusal (meaning limits source e) trace ↔ InRange limits source e trace := by
  induction e generalizing trace with
  | literal n =>
    rw [meaning, InRange]
    exact iff_of_true (safe_pure _) trivial
  | roll count sides steps ih =>
    rw [Expr.Legible] at legible
    rw [meaning, InRange, safe_bind, ih legible.1]
    refine and_congr_right fun _ => after_congr fun m trace => ?_
    exact Roll.safe_rolled
  | negate operand ih =>
    rw [Expr.Legible] at legible
    rw [meaning, InRange, safe_bind, ih legible]
    exact and_iff_left (after_trivial fun _ _ => safe_pure _)
  | binary op left right ih ih' =>
    rw [Expr.Legible] at legible
    rw [meaning, InRange, safe_bind, ih legible.1]
    refine and_congr_right fun _ => after_congr fun a trace => ?_
    rw [safe_bind, ih' legible.2]
    refine and_congr_right fun _ => after_congr fun b trace => ?_
    rw [safe_bind, safe_operate]
    exact and_iff_left (after_trivial fun _ _ => safe_pure _)
  -- The right side is evaluated only if there is something to test.
  | compare op left right ih ih' =>
    rw [Expr.Legible] at legible
    rw [meaning, InRange, safe_bind, ih legible.1]
    refine and_congr_right fun _ => after_congr fun tested trace => ?_
    cases tested.targets.isEmpty with
    | true => exact iff_of_true (safe_pure _) (.inl rfl)
    | false =>
      simp only [Bool.false_eq_true, if_false, false_or]
      rw [safe_bind, ih' legible.2]
      exact and_iff_left (after_trivial fun _ _ => safe_pure _)
  | call name arguments ih =>
    rw [Expr.Legible, Expr.legibleAll_iff] at legible
    rw [InRange]
    exact safe_call fun e he => ih e he (legible.2 e he)
  | group members repeats ih =>
    rw [Expr.Legible, Expr.legibleAll_iff] at legible
    rw [meaning, InRange]
    exact safe_sumGroup (safe_addMembers fun e he => ih e he (legible.1 e he)) legible.2

end DiceNotation
