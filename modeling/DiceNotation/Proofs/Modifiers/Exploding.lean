import DiceNotation.Proofs.Modifiers.Operand
import DiceNotation.Proofs.Modifiers.Runs

/-! # Exploding dice

The explosion of a list of dice is a list of runs, one for each die, that share one budget
(`Dice.Explodes`): the runs are made from left to right, and one that is cut off has used up the
budget and is the last one with draws.  The extra dice of a run stand behind its die
(`Dice.explode_runs`, by induction on the dice). -/

namespace DiceNotation

open DiceNotation.EvalM (evaluateWithin)

namespace Dice

/-- The die of a run with the extra dice that its draws bring, each made by `extra`. -/
def Run.dice (extra : Int → Node) (run : Run) : List Node := run.die :: run.draws.map extra

/-- The draws of the runs are those from request number `first` on, at most as many as the budget
    allows.  Each draw comes of a value before it that meets the condition, and none comes of a
    dropped die.  If one more draw is due, then the budget is used up, and nothing is drawn for
    the dice behind. -/
structure Explodes (c : Condition) (draw : Draw) (first budget : Nat) (runs : List Run) :
    Prop where
  drawn : runs.flatMap Run.draws = (List.range' first (drawCount runs)).map draw
  within : drawCount runs ≤ budget
  dropped : ∀ run ∈ runs, run.die.isDropped = true → run.draws = []
  caused : ∀ run ∈ runs, ∀ value ∈ run.values.dropLast, c.holds value = true
  cut : ∀ before run behind, runs = before ++ run :: behind → run.isDue c = true →
    drawCount runs = budget ∧ ∀ other ∈ behind, other.draws = []

section

variable {c : Condition} {draw : Draw} {first budget : Nat} {run : Run} {runs : List Run}

/-- Without dice nothing explodes. -/
private theorem explodes_nil : Explodes c draw first budget [] where
  drawn := rfl
  within := Nat.zero_le _
  dropped run hrun := nomatch hrun
  caused run hrun := nomatch hrun
  cut before run behind split := by simp at split

/-- A run that ends by itself leaves the rest of the budget to the runs behind it. -/
theorem Explodes.cons (follows : run.Follows c draw first budget) (ends : run.isDue c = false)
    (h : Explodes c draw (first + run.draws.length) (budget - run.draws.length) runs) :
    Explodes c draw first budget (run :: runs) where
  drawn := by
    -- The draws of the other runs follow those of this one.
    rw [drawCount_cons, List.flatMap_cons, h.drawn, ← List.range'_append_1, List.map_append,
      ← follows.drawn]
  within := by
    rw [drawCount_cons]
    have := follows.within
    have := h.within
    omega
  dropped other hother dropped := by
    rcases List.mem_cons.mp hother with rfl | behind
    · exact follows.dropped dropped
    · exact h.dropped other behind dropped
  caused other hother := by
    rcases List.mem_cons.mp hother with rfl | behind
    · exact follows.caused
    · exact h.caused other behind
  cut before other behind split due := by
    -- The run that is due cannot be the first one, which ends by itself.
    cases before with
    | nil =>
      obtain ⟨rfl, rfl⟩ := List.cons.inj split
      rw [ends] at due
      cases due
    | cons other' before =>
      obtain ⟨rfl, inside⟩ := List.cons.inj split
      obtain ⟨used, none⟩ := h.cut before other behind inside due
      refine ⟨?_, none⟩
      rw [drawCount_cons]
      have := follows.within
      omega

/-- Dice that stay idle draw nothing. -/
private theorem drawCount_idle (dice : List Node) : drawCount (dice.map Run.idle) = 0 := by
  induction dice with
  | nil => rfl
  | cons die dice ih =>
    rw [List.map_cons, drawCount_cons, ih]
    rfl

/-- A run that is cut off is the last one. -/
theorem Explodes.capped (follows : run.Follows c draw first budget) (due : run.isDue c = true)
    (dice : List Node) : Explodes c draw first budget (run :: dice.map Run.idle) := by
  -- The budget is used up by the first run, so no other die draws.
  have idle : ∀ other ∈ dice.map Run.idle, other.draws = [] := by
    intro other hother
    obtain ⟨die, -, rfl⟩ := List.mem_map.mp hother
    rfl
  have count : drawCount (run :: dice.map Run.idle) = run.draws.length := by
    rw [drawCount_cons, drawCount_idle, Nat.add_zero]
  have draws : (run :: dice.map Run.idle).flatMap Run.draws = run.draws := by
    rw [List.flatMap_cons, List.flatMap_eq_nil_iff.mpr idle, List.append_nil]
  constructor
  case drawn => rw [draws, count, ← follows.drawn]
  case within => exact count ▸ follows.within
  case dropped =>
    intro other hother dropped
    rcases List.mem_cons.mp hother with rfl | behind
    · exact follows.dropped dropped
    · exact idle other behind
  case caused =>
    intro other hother
    rcases List.mem_cons.mp hother with rfl | behind
    · exact follows.caused
    · obtain ⟨die, -, rfl⟩ := List.mem_map.mp behind
      exact fun value hvalue => nomatch hvalue
  case cut =>
    intro before other behind split _
    refine ⟨by rw [count, follows.full due], ?_⟩
    -- Whatever stands behind any of the runs is idle.
    intro last hlast
    cases before with
    | nil =>
      obtain ⟨-, rfl⟩ := List.cons.inj split
      exact idle last hlast
    | cons _ before =>
      obtain ⟨-, split⟩ := List.cons.inj split
      exact idle last (by rw [split]; simp [hlast])

/-- Dice that stay idle bring no extra dice. -/
private theorem flatMap_dice_idle (extra : Int → Node) (dice : List Node) :
    (dice.map Run.idle).flatMap (Run.dice extra) = dice := by
  induction dice with
  | nil => rfl
  | cons die dice ih => rw [List.map_cons, List.flatMap_cons, ih]; rfl

/-- Dice that stay idle stand for themselves. -/
private theorem map_die_idle (dice : List Node) : (dice.map Run.idle).map Run.die = dice := by
  rw [List.map_map]
  exact List.map_id dice

/-- What an explosion leaves are the runs of the dice, each with its extra dice. -/
theorem explode_runs (c : Condition) (draw : Draw) (extra : Int → Node) (budget first : Nat)
    (dice : List Node) : ∃ runs : List Run, runs.map Run.die = dice ∧
      Explodes c draw first budget runs ∧ explode c draw extra budget first dice =
        ⟨runs.flatMap (Run.dice extra), first + drawCount runs, runs.any (Run.isDue c)⟩ := by
  -- What is left of the budget and of the draws changes from die to die.
  induction dice generalizing budget first with
  | nil => exact ⟨[], rfl, explodes_nil, rfl⟩
  | cons die dice ih =>
    unfold explode
    by_cases dropped : die.isDropped = true
    · obtain ⟨runs, rfl, explodes, exploded⟩ := ih budget first
      refine ⟨Run.idle die :: runs, rfl, ?_, ?_⟩
      · exact .cons (Run.follows_of_dropped dropped) (Run.isDue_of_dropped dropped) explodes
      · rw [if_pos dropped, exploded, drawCount_cons, List.any_cons, Run.isDue_of_dropped dropped]
        simp [Run.idle, Run.dice]
    · rw [if_neg dropped]
      obtain ⟨follows, due⟩ :=
        follows_chain c draw budget first (Bool.eq_false_of_not_eq_true dropped)
      generalize chain c draw budget first die.value? = result at follows due ⊢
      obtain ⟨faces, cut⟩ := result
      dsimp only at follows due ⊢
      subst due
      cases due : Run.isDue c ⟨die, faces⟩ with
      | true =>
        -- The chain is cut off, so the dice behind are left alone.
        refine ⟨⟨die, faces⟩ :: dice.map Run.idle, ?_, .capped follows due dice, ?_⟩
        · rw [List.map_cons, map_die_idle]
        · rw [if_pos rfl, drawCount_cons, drawCount_idle, List.any_cons, due, List.flatMap_cons,
            flatMap_dice_idle]
          rfl
      | false =>
        obtain ⟨runs, rfl, explodes, exploded⟩ :=
          ih (budget - faces.length) (first + faces.length)
        refine ⟨⟨die, faces⟩ :: runs, rfl, .cons follows due explodes, ?_⟩
        rw [if_neg Bool.false_ne_true, exploded, drawCount_cons, List.any_cons, due,
          List.flatMap_cons, Nat.add_assoc]
        rfl

/-- Without a die that counts, nothing explodes, whatever the condition. -/
private theorem explode_of_dropped {dice : List Node} (dropped : ∀ die ∈ dice, die.isDropped = true)
    (c : Condition) (draw : Draw) (extra : Int → Node) (budget first : Nat) :
    explode c draw extra budget first dice = ⟨dice, first, false⟩ := by
  induction dice with
  | nil => rfl
  | cons die dice ih =>
    unfold explode
    rw [if_pos (dropped die List.mem_cons_self),
      ih fun other hother => dropped other (List.mem_cons_of_mem _ hother)]

end

end Dice

/-! ## The modifier -/

/-- The extra die of a draw: it shows the draw, or one less if it penetrates. -/
def Dice.extra (sides : Value) (penetrating : Bool) (face : Int) : Node :=
  .make .diceRoll [("value", .int (if penetrating then face - 1 else face)), ("sides", sides),
    ("drop", "no"), ("explode", "yes")] []

/-- The extra die of an explosion. -/
private theorem Dice.extraDie_eq (sides : Value) (penetrating : Bool) :
    Dice.extraDie sides penetrating = Dice.extra sides penetrating := rfl

section

variable {rules : Rules} {levels : Nat} {attributes : OrderedMap Value} {operand roll : Node}
  {argument : List Node} {record : Record} {rolled : Focus} {sides : Value} {faces : Faces}
  {c : Condition}

/-- Exploding a roll leaves the runs of its dice, each die with its extra dice behind it.  One
    problem is told if a draw that was due is left undone. -/
theorem explode_exact
    (pending : Pending rules levels attributes operand record rolled roll)
    (hsides : roll.get? "sides" = some sides) (hfaces : Dice.faces sides = .ok (some faces))
    (compares : Compares (.face faces.high) argument c) :
    let limit := rules.limits.maxIterations
    let problem := Problem.explosionLimit limit
    let node : Node := ⟨.modifier .explode, attributes, operand :: argument⟩
    let extra := Dice.extra sides (node.hasText "penetrate" "yes")
    problem.message = s!"Maximum number of explosions reached: {limit}." ∧
    ∃ runs : List Dice.Run, runs.map Dice.Run.die = roll.children ∧
      Dice.Explodes c (rolled.record.trace.answers rules.source faces) 0 limit runs ∧
      let capped := runs.any (Dice.Run.isDue c)
      ComesTo (fun e => e = .tooManyDigits ∧ capped = true ∧ problem.isWritable = false)
        (Altered .explode attributes rolled.node roll argument
          (runs.flatMap (Dice.Run.dice extra))
          ((rolled.record.trace.after faces (Dice.drawCount runs)).told capped problem))
        (evaluateWithin rules (levels + 1) ⟨node, record⟩) := by
  intro limit problem node extra
  obtain ⟨runs, dice, explodes, exploded⟩ := Dice.explode_runs c
    (rolled.record.trace.answers rules.source faces) extra limit 0 roll.children
  rw [Nat.zero_add] at exploded
  refine ⟨rfl, runs, dice, explodes, ?_⟩
  have live : ∀ die ∈ Dice.live roll.children, die.IsDie :=
    fun die hdie => pending.faces die (Dice.mem_live.mp hdie).1
  have isDie : ∀ die ∈ runs.flatMap (Dice.Run.dice extra), die.IsDie := by
    have kept := kept_isDie.explode c (rolled.record.trace.answers rules.source faces) sides
      (node.hasText "penetrate" "yes") limit 0 pending.faces
    rw [Dice.extraDie_eq, exploded] at kept
    exact kept
  -- The condition may be another one only if there is no die that counts.
  have exploded' : ∀ c', (Dice.live roll.children ≠ [] → c' = c) →
      Dice.explode c' (rolled.record.trace.answers rules.source faces)
        (Dice.extraDie sides (Node.hasText
          ⟨.modifier .explode, attributes, rolled.node :: argument⟩ "penetrate" "yes"))
        rules.limits.maxIterations 0 roll.children =
      ⟨runs.flatMap (Dice.Run.dice extra), Dice.drawCount runs, runs.any (Dice.Run.isDue c)⟩ := by
    intro c' same
    rw [← exploded]
    show Dice.explode c' _ extra limit 0 _ = Dice.explode c _ extra limit 0 _
    by_cases none : Dice.live roll.children = []
    · have dropped := Dice.dropped_of_live_nil none
      rw [Dice.explode_of_dropped dropped, Dice.explode_of_dropped dropped]
    · rw [same none]
  -- With the dice known, the modifier is followed step by step.
  apply pending.altered rfl compares.length_lt
  apply Ensures.run_bind (run_facesOf hsides hfaces)
  apply Ensures.node_bind
  apply compares.ensures_bind pending.remembers live
  intro c' same
  apply Ensures.draw_bind
  dsimp only
  rw [exploded' c' same]
  apply Ensures.request_bind
  apply Ensures.run_bind (run_setDice pending.stands _)
  apply ensures_told fun due long => ⟨rfl, due, long⟩
  apply Ensures.note_bind
  exact ensures_renew pending.stands isDie

/-- A six, a dropped six and a five, of which two explosions are all that is allowed. -/
theorem explode_exact_cut :
    let roll : Node := .make .dice [("value", .int 11), ("count", .int 3), ("sides", .int 6)]
      [Dice.die (.int 6) 6, (Dice.die (.int 6) 6).set "drop" "yes", Dice.die (.int 6) 5]
    let argument := [Node.make (.comparison .greater) [] [.integer 4]]
    let node : Node := ⟨.modifier .explode, .ofList [("penetrate", "yes")], roll :: argument⟩
    let source : Source := fun request _ => [6, 2, 5].getD request 1
    let rules : Rules := ⟨{ maxIterations := 2 }, .default, source⟩
    let c : Condition := ⟨.greater, .int 4⟩
    Pending rules 1 node.attributes roll {} ⟨roll, {}⟩ roll ∧ Compares (.face 6) argument c ∧
    ∃ runs : List Dice.Run, runs.map Dice.Run.die = roll.children ∧
      Dice.Explodes c (Trace.answers source ⟨1, 6⟩ {}) 0 2 runs ∧
      ∃ value after, evaluateWithin rules 2 ⟨node, {}⟩ = .ok value after ∧
        Altered .explode node.attributes roll roll argument
          (runs.flatMap (Dice.Run.dice (Dice.extra (.int 6) true)))
          ((Trace.after {} ⟨1, 6⟩ (Dice.drawCount runs)).told (runs.any (Dice.Run.isDue c))
            (.explosionLimit 2)) value after := by
  intro roll argument node source rules c
  have faces : ∀ die ∈ roll.children, die.IsDie := by decide +kernel
  have pending : Pending rules 1 node.attributes roll {} ⟨roll, {}⟩ roll :=
    ⟨rfl, ⟨_, rfl⟩, .roll rfl, faces⟩
  have compares : Compares (.face 6) argument c := .given (n := .int 4) rfl
  have sides : roll.get? "sides" = some (.int 6) := rfl
  have known : Dice.faces (.int 6) = .ok (some ⟨1, 6⟩) := rfl
  obtain ⟨-, runs, dice, explodes, result⟩ := explode_exact pending sides known compares
  refine ⟨pending, compares, runs, dice, explodes, ?_⟩
  -- The message about the limit can be written, so the explosion is not refused.
  have short : (Problem.explosionLimit 2).isWritable = true := by decide +kernel
  exact result.result fun e refused => by
    rw [refused.2.2] at short
    cases short

end

end DiceNotation
