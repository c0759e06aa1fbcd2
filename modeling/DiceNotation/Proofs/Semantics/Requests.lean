import DiceNotation.Proofs.Semantics.Refinement

/-! # Which random numbers are asked for

An evaluation asks for numbers between minus one and one, or between one and a number of sides that
is allowed; never for a number from an empty range.  The sides are kept on a roll that is not
allowed as well, but such a roll has no dice, and modifiers ask for nothing where there are no dice.

`Asks permitted sem post` says that a computation makes permitted requests only, whether it has a
result or not, and that a result is as `post` says.  There is one rule for each way to compose
computations and one for each part of the semantics.

* `Asks.meaning`        expressions
* `requests_interpret`  trees of expressions, for every outcome of their interpretation -/

namespace DiceNotation

open DiceNotation.Expr (Sides Step)

/-- The range is that of fate dice, or that of dice with an allowed number of sides. -/
def Limits.Permits (limits : Limits) (faces : Faces) : Prop :=
  faces = ⟨-1, 1⟩ ∨
    ∃ sides : Int, faces = ⟨1, sides⟩ ∧ 1 ≤ sides ∧ ∀ limit ∈ limits.maxSides, sides ≤ limit

/-- There is a number in a range that is permitted. -/
theorem Limits.Permits.low_le_high {limits : Limits} {faces : Faces} (h : limits.Permits faces) :
    faces.low ≤ faces.high := by
  rcases h with rfl | ⟨sides, rfl, atLeast, -⟩
  · decide
  · exact atLeast

/-- All requests made between the two traces are permitted. -/
def Trace.Extends (permitted : Faces → Prop) (trace trace' : Trace) : Prop :=
  ∃ made, trace'.requests = trace.requests ++ made ∧ ∀ faces ∈ made, permitted faces

namespace Trace.Extends

variable {permitted : Faces → Prop} {trace trace₁ trace' : Trace}

/-- Equal requests extend the trace by nothing. -/
private theorem of_same (h : trace'.requests = trace.requests) : trace.Extends permitted trace' :=
  ⟨[], by rw [h, List.append_nil], nofun⟩

/-- Two extensions are one. -/
theorem trans (first : trace.Extends permitted trace₁) (second : trace₁.Extends permitted trace') :
    trace.Extends permitted trace' := by
  obtain ⟨made, hmade, legal⟩ := first
  obtain ⟨made', hmade', legal'⟩ := second
  refine ⟨made ++ made', ?_, List.forall_mem_append.mpr ⟨legal, legal'⟩⟩
  rw [hmade', hmade, List.append_assoc]

end Trace.Extends

/-- The computation makes permitted requests only, and its result is as `post` says. -/
structure Asks (permitted : Faces → Prop) (sem : Sem α) (post : α → Prop) : Prop where
  met : ∀ trace,
    match sem trace with
    | .ok a trace' => trace.Extends permitted trace' ∧ post a
    | .error _ trace' => trace.Extends permitted trace'

namespace Asks

variable {α β : Type} {permitted : Faces → Prop} {sem : Sem α} {post : α → Prop}

/-! ## Composing computations -/

/-- Returning a result asks for nothing. -/
theorem pure {a : α} (h : post a) : Asks permitted (Pure.pure a) post :=
  ⟨fun _ => ⟨.of_same rfl, h⟩⟩

/-- A failure asks for nothing. -/
theorem throw (e : Fault) : Asks permitted (MonadExcept.throw e : Sem α) post :=
  ⟨fun _ => .of_same rfl⟩

/-- What was asked for in the first part stays, also if the second part has no result. -/
theorem bind {next : α → Sem β} {post' : β → Prop} (h : Asks permitted sem post)
    (hnext : ∀ a, post a → Asks permitted (next a) post') :
    Asks permitted (sem >>= next) post' := by
  constructor
  intro trace
  have met := h.met trace
  change match EStateM.bind sem next trace with
    | .ok b trace' => trace.Extends permitted trace' ∧ post' b
    | .error _ trace' => trace.Extends permitted trace'
  unfold EStateM.bind
  -- What was asked before a failure is permitted too.
  cases run : sem trace with
  | error e trace₁ =>
    rw [run] at met
    exact met
  | ok a trace₁ =>
    rw [run] at met
    obtain ⟨first, holds⟩ := met
    -- The permitted requests of the second step come behind those of the first.
    have later := (hnext a holds).met trace₁
    dsimp only
    cases run' : next a trace₁ with
    | error e trace' =>
      rw [run'] at later
      exact first.trans later
    | ok b trace' =>
      rw [run'] at later
      exact ⟨first.trans later.1, later.2⟩

/-- What is known of the result can be weakened. -/
theorem mono {weaker : α → Prop} (h : Asks permitted sem post)
    (implied : ∀ a, post a → weaker a) : Asks permitted sem weaker := by
  rw [← bind_pure sem]
  exact h.bind fun a holds => pure (implied a holds)

/-- Demanding a number asks for nothing. -/
private theorem demand (number : Except NumberError α) :
    Asks permitted (Sem.demand number) fun _ => True := by
  cases number with
  | ok a => exact pure trivial
  | error e => exact throw _

/-- Collecting a problem asks for nothing. -/
theorem collect (problem : Problem) : Asks permitted (Sem.collect problem) fun _ => True := by
  unfold Sem.collect
  split
  · exact ⟨fun _ => ⟨.of_same rfl, trivial⟩⟩
  · exact throw _

/-- A problem is collected, and there is a result. -/
theorem report (problem : Problem) {a : α} (h : post a) :
    Asks permitted (do Sem.collect problem; return a) post :=
  (collect problem).bind fun _ _ => pure h

/-- A request is permitted if its faces are. -/
private theorem ask {faces : Faces} (h : permitted faces) (source : Source) :
    Asks permitted (Sem.ask source faces) fun _ => True :=
  ⟨fun _ => ⟨⟨[faces], rfl, List.forall_mem_singleton.mpr h⟩, trivial⟩⟩

/-! ## Operators and functions -/

/-- An operation asks for nothing. -/
theorem operate (op : Operator) (a b : Number) :
    Asks permitted (Sem.operate op a b) fun _ => True := by
  unfold Sem.operate
  split
  · split
    · exact report _ trivial
    · exact pure trivial
  · exact report _ trivial
  · exact report _ trivial

/-- A function on numbers asks for nothing. -/
theorem function {name : String} {f : Number → Sem Number} (h : Sem.function? name = some f)
    (n : Number) : Asks permitted (f n) fun _ => True := by
  unfold Sem.function? at h
  split at h <;> cases h
  · exact pure trivial
  · exact (demand _).bind fun _ _ => pure trivial
  · exact (demand _).bind fun _ _ => pure trivial
  · exact (demand _).bind fun _ _ => pure trivial
  · unfold Sem.squareRoot
    split
    · exact report _ trivial
    · exact demand _

/-! ## Dice -/

section Dice

variable {ask : Sem Int} (hask : Asks permitted ask fun _ => True) {due : Int → Bool}
include hask

/-- The chain of a die asks for the faces of the die alone. -/
private theorem chain (budget : Nat) (face : Int) :
    Asks permitted (Roll.chain ask due budget face) fun _ => True := by
  induction budget generalizing face with
  | zero => exact pure trivial
  | succ budget ih =>
    rw [Roll.chain]
    split
    · apply hask.bind
      intro next _
      exact (ih next).bind fun _ _ => pure trivial
    · exact pure trivial

/-- Explosions ask for the faces of the dice alone. -/
private theorem explode (penetrating : Bool) (budget : Nat) (dice : List Die) :
    Asks permitted (Roll.explode ask due penetrating budget dice) fun _ => True := by
  -- A chain asks for the faces of the roll only, whatever is left of the budget.
  induction dice generalizing budget with
  | nil => exact pure trivial
  | cons die dice ih =>
    rw [Roll.explode]
    split
    · exact (ih budget).bind fun _ _ => pure trivial
    · apply (chain hask budget die.face).bind
      intro chain _
      dsimp only
      split
      · exact pure trivial
      · exact (ih _).bind fun _ _ => pure trivial

/-- The rerolls of a die ask for its faces alone. -/
private theorem rerollFace (once : Bool) (budget : Nat) (face : Int) :
    Asks permitted (Roll.rerollFace ask due once budget face) fun _ => True := by
  induction budget generalizing face with
  | zero => exact pure trivial
  | succ budget ih =>
    rw [Roll.rerollFace]
    split
    · apply hask.bind
      intro next _
      split
      · exact pure trivial
      · exact ih next
    · exact pure trivial

/-- Rerolls ask for the faces of the dice alone. -/
private theorem reroll (once : Bool) (budget : Nat) (dice : List Die) :
    Asks permitted (Roll.reroll ask due once budget dice) fun _ => True := by
  induction dice with
  | nil => exact pure trivial
  | cons die dice ih =>
    rw [Roll.reroll]
    split
    · exact ih.bind fun _ _ => pure trivial
    · apply (rerollFace hask once budget die.face).bind
      intro rerolled _
      exact ih.bind fun _ _ => pure trivial

/-- Fresh dice ask for their faces alone. -/
private theorem fresh (count : Nat) : Asks permitted (Roll.fresh ask count) fun _ => True := by
  induction count with
  | zero => exact pure trivial
  | succ count ih =>
    rw [Roll.fresh]
    apply hask.bind
    intro face _
    exact ih.bind fun _ _ => pure trivial

end Dice

/-! ## Rolls -/

section Rolls

variable {limits : Limits} {source : Source} {faces : Faces}

/-- Dice that come with the note whether a limit was reached, of which a problem tells. -/
theorem capped {dice : Sem (List Die × Bool)} {holds : List Die → Prop} (problem : Problem)
    (h : Asks permitted dice fun result => holds result.1) :
    Asks permitted (do
      let (dice, capped) ← dice
      if capped then Sem.collect problem
      return dice) holds := by
  apply h.bind
  intro result found
  obtain ⟨dice, capped⟩ := result
  cases capped with
  | true => exact report _ found
  | false => exact pure found

/-- Finding the amount asks for nothing. -/
private theorem amount (n : Option Nat) : Asks permitted (Roll.amount n) fun _ => True := by
  cases n with
  | none => exact pure trivial
  | some n => exact demand _

/-- A modifier asks for what the faces of the roll permit, or for nothing if there are no dice. -/
private theorem transform (step : Step) {dice : List Die} (h : permitted faces ∨ dice = []) :
    Asks permitted (Roll.transform limits source faces step dice) fun dice' =>
      permitted faces ∨ dice' = [] := by
  unfold Roll.transform
  -- Without dice no modifier asks for anything, whether or not the faces are permitted.
  rcases h with legal | rfl
  · -- Extra dice and new faces are asked for with the faces of the roll.
    have hask : Asks permitted (Sem.ask source faces) fun _ => True := ask legal source
    cases step with
    | explode penetrating bound =>
      exact capped _ ((hask.explode penetrating _ dice).mono fun _ _ => .inl legal)
    | keep highest n => exact (amount n).bind fun _ _ => pure (.inl legal)
    | drop highest n => exact (amount n).bind fun _ _ => pure (.inl legal)
    | critical success bound => exact pure (.inl legal)
    | reroll once bound =>
      exact capped _ ((hask.reroll once _ dice).mono fun _ _ => .inl legal)
    | sort descending => exact pure (.inl legal)
  · cases step with
    | explode penetrating bound => exact capped _ (pure (.inr rfl))
    | keep highest n => exact (amount n).bind fun _ _ => pure (.inr rfl)
    | drop highest n => exact (amount n).bind fun _ _ => pure (.inr rfl)
    | critical success bound => exact pure (.inr rfl)
    | reroll once bound => exact capped _ (pure (.inr rfl))
    | sort descending => exact pure (.inr List.mergeSort_nil)

/-- The faces of a roll stay the same from modifier to modifier. -/
private theorem modify (steps : List Step) {dice : List Die} (h : permitted faces ∨ dice = []) :
    Asks permitted (Roll.modify limits source faces steps dice) fun _ => True := by
  unfold Roll.modify
  induction steps generalizing dice with
  | nil => exact pure trivial
  | cons step steps ih =>
    rw [List.foldlM_cons]
    exact (transform step h).bind fun _ => ih

/-- An amount is within its bounds if it is neither below the least one nor above the limit. -/
theorem within (bounds : Bounds) (amount : Int) :
    Asks permitted (Roll.within bounds amount) fun allowed =>
      allowed = true → bounds.least ≤ amount ∧ ∀ limit ∈ bounds.most, amount ≤ limit := by
  unfold Roll.within
  -- An amount is allowed in two of the four branches, and both have tested it.
  split
  · exact report _ nofun
  · next atLeast =>
    split
    · next unlimited => exact pure fun _ => ⟨by omega, by simp [unlimited]⟩
    · next limit limited =>
      split
      · exact report _ nofun
      · next within =>
        refine pure fun _ => ⟨by omega, fun most hmost => ?_⟩
        rw [limited, Option.mem_some_iff] at hmost
        omega

/-- Sides are allowed if there is such a die and it is within the limit. -/
theorem sidesAllowed (sides : Option Int) :
    Asks permitted (Roll.sidesAllowed limits sides) fun allowed =>
      allowed = true → limits.Permits (Roll.facesOf sides) := by
  cases sides with
  | none => exact pure fun _ => .inl rfl
  | some sides =>
    apply (within limits.onSides sides).mono
    intro allowed legal yes
    obtain ⟨positive, most⟩ := legal yes
    exact .inr ⟨sides, rfl, positive, most⟩

/-- A roll asks for its faces only when the limits permit them, and else has no dice. -/
private theorem start (count : Int) (sides : Option Int) :
    Asks limits.Permits (Roll.start limits source count sides) fun dice =>
      limits.Permits (Roll.facesOf sides) ∨ dice = [] := by
  unfold Roll.start
  apply (within limits.onCount count).bind
  intro countAllowed _
  apply (sidesAllowed sides).bind
  intro sidesAllowed legal
  split
  · next allowed =>
    have permitted := legal (Bool.and_eq_true_iff.mp allowed).2
    exact ((ask permitted source).fresh count.toNat).mono fun _ _ => .inl permitted
  · exact pure (.inr rfl)

/-- Finding the number of sides asks for nothing. -/
private theorem sideCount (sides : Sides) : Asks permitted
    (Roll.sideCount sides) fun _ => True := by
  cases sides with
  | fate => exact pure trivial
  | faces n => exact (demand _).bind fun _ _ => pure trivial

end Rolls

/-! ## Expressions -/

section

variable {limits : Limits} {source : Source}

/-- Repeats of a group ask for what is permitted if each pass does. -/
private theorem sumPasses {pass : Number → Sem (Number × List Number)}
    (h : ∀ sum, Asks permitted (pass sum) fun _ => True) (times : Nat) (sum : Number) :
    Asks permitted (Sem.sumPasses pass times sum) fun _ => True := by
  induction times generalizing sum with
  | zero => exact pure trivial
  | succ times ih =>
    rw [Sem.sumPasses]
    apply (h sum).bind
    intro result _
    exact (ih result.1).bind fun _ _ => pure trivial

/-- A group asks for what is permitted if each pass does. -/
private theorem sumGroup {pass : Number → Sem (Number × List Number)}
    (h : ∀ sum, Asks permitted (pass sum) fun _ => True) (repeats : Option Nat) :
    Asks permitted (Sem.sumGroup limits repeats pass) fun _ => True := by
  by_cases within : ∀ times ∈ repeats, ∀ limit ∈ limits.maxRolls, times ≤ limit
  · rw [Sem.sumGroup_within within]
    exact (sumPasses h _ 0).bind fun _ _ => pure trivial
  · push Not at within
    obtain ⟨times, rfl, limit, limited, above⟩ := within
    rw [Sem.sumGroup_above limited above]
    exact report _ trivial

/-- The members of a group ask for what is permitted if each of them does. -/
private theorem addMembers {members : List Expr}
    (h : ∀ e ∈ members, Asks permitted (meaning limits source e) fun _ => True) (sum : Number) :
    Asks permitted (DiceNotation.addMembers limits source members sum) fun _ => True := by
  induction members generalizing sum with
  | nil => exact pure trivial
  | cons member members ih =>
    rw [DiceNotation.addMembers]
    apply (h member List.mem_cons_self).bind
    intro m _
    apply (demand _).bind
    intro sum _
    exact (ih (fun e he => h e (List.mem_cons_of_mem _ he)) sum).bind fun _ _ => pure trivial

/-- A call asks for what is permitted if its arguments do. -/
private theorem call {name : String} {arguments : List Expr}
    (h : ∀ e ∈ arguments, Asks permitted (meaning limits source e) fun _ => True) :
    Asks permitted (meaning limits source (.call name arguments)) fun _ => True := by
  rw [DiceNotation.meaning]
  cases known : Sem.function? name with
  | none => exact throw _
  | some f =>
    -- A function looks at its argument if there is just one.
    have applied : Asks permitted (Sem.applyTo name arguments.length f
        (meaningOfOnly limits source arguments)) fun _ => True := by
      unfold meaningOfOnly
      split
      · next argument =>
        exact (h argument List.mem_cons_self).bind fun m _ => function known m.value
      · exact report _ trivial
    exact applied.bind fun _ _ => pure trivial

/-- The evaluation of an expression asks for permitted ranges only. -/
theorem meaning (e : Expr) :
    Asks limits.Permits (DiceNotation.meaning limits source e) fun _ => True := by
  induction e with
  | literal n =>
    rw [DiceNotation.meaning]
    exact pure trivial
  | roll count sides steps ih =>
    rw [DiceNotation.meaning]
    apply ih.bind
    intro m _
    apply (demand _).bind
    intro times _
    apply (sideCount sides).bind
    intro sides _
    apply (start times sides).bind
    intro dice legal
    -- A throw is permitted or empty, and the modifiers inherit that.
    exact (modify steps legal).bind fun _ _ => pure trivial
  | negate operand ih =>
    rw [DiceNotation.meaning]
    exact ih.bind fun _ _ => pure trivial
  | binary op left right ih ih' =>
    rw [DiceNotation.meaning]
    apply ih.bind
    intro a _
    apply ih'.bind
    intro b _
    exact (operate op a.value b.value).bind fun _ _ => pure trivial
  | compare op left right ih ih' =>
    rw [DiceNotation.meaning]
    apply ih.bind
    intro tested _
    split
    · exact pure trivial
    · exact ih'.bind fun _ _ => pure trivial
  | call name arguments ih => exact call ih
  | group members repeats ih =>
    rw [DiceNotation.meaning]
    exact sumGroup (addMembers ih) repeats

end

end Asks

/-- If the sides of dice are allowed, then so is a request for one of their faces. -/
theorem permits_of_sidesAllowed {limits : Limits} {sides : Option Int} {trace trace' : Trace}
    (h : Roll.sidesAllowed limits sides trace = .ok true trace') :
    limits.Permits (Roll.facesOf sides) := by
  have asks : Asks limits.Permits (Roll.sidesAllowed limits sides) fun allowed =>
      allowed = true → limits.Permits (Roll.facesOf sides) := Asks.sidesAllowed sides
  have met := asks.met trace
  rw [h] at met
  exact met.2 rfl

/-- A number of dice that is allowed is not negative and within the limit. -/
theorem count_of_countAllowed {limits : Limits} {count : Int} {trace trace' : Trace}
    (h : Roll.countAllowed limits count trace = .ok true trace') :
    0 ≤ count ∧ ∀ limit ∈ limits.maxRolls, count ≤ limit := by
  have asks : Asks (fun _ => True) (Roll.countAllowed limits count) fun allowed =>
      allowed = true → 0 ≤ count ∧ ∀ limit ∈ limits.maxRolls, count ≤ limit :=
    Asks.within limits.onCount count
  have met := asks.met trace
  rw [h] at met
  exact met.2 rfl

/-- Whatever an interpretation comes to, the requests that it has added to the record are permitted
    by the limits. -/
theorem requests_interpret (limits : Limits) (source : Source) (e : Expr) (record : Record) :
    ∃ made, (interpret ⟨limits, .default, source⟩ e.toNode record).2.requests.toList =
        record.requests.toList ++ made ∧ ∀ faces ∈ made, limits.Permits faces := by
  have asks : Asks limits.Permits
      (do return .number (← meaning limits source e).value : Sem Value) fun _ => True :=
    (Asks.meaning e).bind fun _ _ => .pure trivial
  have met := asks.met ⟨[], record.requests.toList⟩
  rw [← observe_interpret] at met
  generalize interpret ⟨limits, .default, source⟩ e.toNode record = result at met ⊢
  obtain ⟨outcome, record'⟩ := result
  cases outcome with
  | ok outcome => exact met.1
  | error e => exact met

end DiceNotation
