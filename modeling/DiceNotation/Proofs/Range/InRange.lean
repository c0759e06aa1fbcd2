import DiceNotation.Proofs.Printing.Legible
import DiceNotation.Proofs.Semantics.Meaning

/-! # Numbers in range

Every step of an evaluation that computes with a number has a range outside of which it breaks
down.  `InRange limits source e trace` says that the evaluation of `e` stays in all of them, when
`trace` is what has been observed before:

* what is rounded to an integer (a count, a number of sides, an amount, an argument of `round`) is
  a number that can be rounded; the arguments of the other functions have an integer part or a root
* the sum of a group adds no double to an integer beyond the doubles
* the operands of an operation that fails, and a limit that is reached, have few enough digits to
  stand in a message

A part that is not evaluated may be anything. -/

namespace DiceNotation

open DiceNotation.Expr (Sides Bound Step Writable)

namespace Sem

/-- A fault of the computation is one of those allowed. -/
def Safe (allowed : Fault → Prop) (sem : Sem α) (trace : Trace) : Prop :=
  ∀ e trace', sem trace = .error e trace' → allowed e

/-- A fault that refuses the expression. -/
abbrev Refusal (e : Fault) : Prop := e.isRefusal = true

/-- A result of the computation is as `post` says, and so is what is observed until then. -/
def After (sem : Sem α) (trace : Trace) (post : α → Trace → Prop) : Prop :=
  ∀ a trace', sem trace = .ok a trace' → post a trace'

section Rules

variable {α β : Type} {allowed : Fault → Prop} {sem : Sem α} {next : α → Sem β} {trace : Trace}

/-- Two computations one behind the other are safe if the first one is, and the second one after it.
    -/
theorem safe_bind :
    Safe allowed (sem >>= next) trace ↔
      Safe allowed sem trace ∧ After sem trace fun a trace => Safe allowed (next a) trace := by
  have bound : (sem >>= next) trace = EStateM.bind sem next trace := rfl
  unfold Safe After
  rw [bound]
  unfold EStateM.bind
  -- What the first step does with the trace decides which half of the conjunction says something.
  cases hrun : sem trace with
  | ok a trace' =>
    dsimp only
    constructor
    · intro h
      refine ⟨nofun, fun b trace'' same => ?_⟩
      cases same
      exact h
    · -- The first step gave a value, so its half holds trivially.
      exact fun h => h.2 a trace' rfl
  | error e trace' =>
    dsimp only
    constructor
    · intro h
      refine ⟨fun e' trace'' same => ?_, nofun⟩
      cases same
      exact h e trace' rfl
    · intro h e' trace'' same
      cases same
      exact h.1 e trace' rfl

/-- A value is always safe. -/
@[simp] theorem safe_pure (a : α) : Safe allowed (pure a) trace := nofun

/-- A number is refused if and only if there is none. -/
theorem safe_demand {number : Except NumberError α} :
    Safe Refusal (demand number) trace ↔ ∃ a, number = .ok a := by
  cases number with
  | ok a => exact ⟨fun _ => ⟨a, rfl⟩, fun _ => safe_pure a⟩
  | error e =>
    refine iff_of_false (fun h => ?_) fun h => ?_
    · exact absurd (h _ trace rfl) Bool.false_ne_true
    · obtain ⟨a, same⟩ := h
      cases same

/-- A problem is refused if and only if it cannot be written. -/
theorem safe_collect {problem : Problem} :
    Safe Refusal (collect problem) trace ↔ problem.isWritable = true := by
  unfold collect
  cases problem.isWritable with
  | true => exact iff_of_true nofun rfl
  | false =>
    refine iff_of_false (fun h => ?_) nofun
    exact absurd (h _ trace rfl) Bool.false_ne_true

/-- A random number is always given. -/
theorem safe_ask (source : Source) (faces : Faces) : Safe allowed (ask source faces) trace := nofun

/-- What holds after a value. -/
theorem after_pure {a : α} {post : α → Trace → Prop} :
    After (pure a) trace post ↔ post a trace := by
  refine ⟨fun h => h a trace rfl, fun h b trace' same => ?_⟩
  cases same
  exact h

/-- What holds after a number, if there is one. -/
theorem after_demand {number : Except NumberError α} {post : α → Trace → Prop} :
    After (demand number) trace post ↔ ∀ a, number = .ok a → post a trace := by
  cases number with
  | ok a =>
    refine ⟨fun h b same => ?_, fun h b trace' same => ?_⟩
    · cases same
      exact h a trace rfl
    · cases same
      exact h a rfl
  | error e => exact iff_of_true nofun nofun

/-- What always holds holds after any computation. -/
theorem after_trivial {post : α → Trace → Prop} (h : ∀ a trace, post a trace) :
    After sem trace post :=
  fun a trace' _ => h a trace'

/-- The same holds after a computation, however it is put. -/
theorem after_congr {post post' : α → Trace → Prop} (h : ∀ a trace, post a trace ↔ post' a trace) :
    After sem trace post ↔ After sem trace post' :=
  ⟨fun hp a trace' run => (h a trace').mp (hp a trace' run),
    fun hp a trace' run => (h a trace').mpr (hp a trace' run)⟩

end Rules

end Sem

open Sem

/-! ## Single steps -/

namespace Number

/-- The number can be rounded to an integer. -/
def Roundable (n : Number) : Prop := ∃ k, n.roundHalfUp = .ok k

end Number

/-- If the operation fails or is not finite, its operands can be written. -/
def Operator.InRange (op : Operator) (a b : Number) : Prop :=
  match op.apply a b with
  | .ok result => result.isUnbounded = true → a.isWritable = true ∧ b.isWritable = true
  | .error .divisionByZero => True
  | .error _ => a.isWritable = true ∧ b.isWritable = true

/-- The function of this name can be applied to the number. -/
def Number.Suits (n : Number) (name : String) : Prop :=
  match name with
  | "ceil" => ∃ k, n.ceil = .ok k
  | "floor" => ∃ k, n.floor = .ok k
  | "round" => n.Roundable
  | "sqrt" => if n.lt 0 then n.isWritable = true else ∃ root, n.sqrt = .ok root
  | _ => True

/-- The number of sides can be rounded. -/
def Expr.Sides.InRange : Sides → Prop
  | .fate => True
  | .faces n => (Number.int n).Roundable

namespace Roll

section

variable (limits : Limits) (source : Source) (faces : Faces)

/-- The amount of a modifier can be rounded, and a limit that it reaches can be written. -/
def StepInRange (step : Step) (dice : List Die) (trace : Trace) : Prop :=
  match step with
  | .keep _ amount | .drop _ amount => ∀ n ∈ amount, (Number.int n).Roundable
  | .explode penetrating bound =>
    After (explode (ask source faces) (test bound faces.high) penetrating limits.maxIterations dice)
      trace fun exploded _ => exploded.2 = true → Writable limits.maxIterations
  | .reroll once bound =>
    After (reroll (ask source faces) (test bound faces.low) once limits.maxIterations dice) trace
      fun rerolled _ => rerolled.2 = true → Writable limits.maxIterations
  | .critical _ _ | .sort _ => True

/-- Each modifier is in range when it comes to it. -/
def StepsInRange : List Step → List Die → Trace → Prop
  | [], _, _ => True
  | step :: steps, dice, trace =>
    StepInRange limits source faces step dice trace ∧
      After (transform limits source faces step dice) trace (StepsInRange steps)

end

end Roll

/-- Each of so many passes is in range when it comes to it. -/
def Sem.PassesInRange (pass : Number → Sem (Number × List Number))
    (inRange : Number → Trace → Prop) : (times : Nat) → Number → Trace → Prop
  | 0, _, _ => True
  | times + 1, sum, trace =>
    inRange sum trace ∧ After (pass sum) trace fun result trace =>
      PassesInRange pass inRange times result.1 trace

/-! ## Expressions -/

section

variable (limits : Limits) (source : Source)

mutual

/-- The evaluation of an expression stays in range. -/
def InRange : Expr → Trace → Prop
  | .literal _, _ => True
  | .negate operand, trace => InRange operand trace
  | .binary op left right, trace =>
    InRange left trace ∧ After (meaning limits source left) trace fun a trace =>
      InRange right trace ∧ After (meaning limits source right) trace fun b _ =>
        op.InRange a.value b.value
  | .compare _ left right, trace =>
    InRange left trace ∧ After (meaning limits source left) trace fun tested trace =>
      tested.targets.isEmpty = true ∨ InRange right trace
  | .roll count sides steps, trace =>
    InRange count trace ∧ After (meaning limits source count) trace fun m trace =>
      m.value.Roundable ∧ sides.InRange ∧
        ∀ times sides', m.value.roundHalfUp = .ok times → Roll.sideCount sides = pure sides' →
          After (Roll.start limits source times sides') trace
            (Roll.StepsInRange limits source (Roll.facesOf sides') steps)
  | .call name arguments, trace => ArgumentInRange name arguments trace
  | .group members repeats, trace =>
    (∃ times ∈ repeats, ∃ limit ∈ limits.maxRolls, limit < times) ∨
      PassesInRange (addMembers limits source members) (MembersInRange members)
        (repeats.getD 1) 0 trace

/-- The only argument of a function stays in range and suits the function. -/
def ArgumentInRange (name : String) : List Expr → Trace → Prop
  | [argument], trace =>
    (function? name).isSome = true →
      InRange argument trace ∧ After (meaning limits source argument) trace fun m _ =>
        m.value.Suits name
  | _, _ => True

/-- Members that are added to a sum stay in range, and so does the sum. -/
def MembersInRange : List Expr → Number → Trace → Prop
  | [], _, _ => True
  | member :: others, sum, trace =>
    InRange member trace ∧ After (meaning limits source member) trace fun m trace =>
      ∃ total, sum.add m.value = .ok total ∧ MembersInRange others total trace

end

end

end DiceNotation
