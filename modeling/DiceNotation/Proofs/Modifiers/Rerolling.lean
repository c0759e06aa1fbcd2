import DiceNotation.Dice.Reroll
import DiceNotation.Proofs.Modifiers.Operand
import DiceNotation.Proofs.Modifiers.Runs

/-! # Rolling dice again

A die that is rolled again until it no longer meets the condition makes a run with the whole limit
as its budget (`Dice.rerollValue_repeating`); one that is rolled again only once makes a run with a
budget of one, and nothing is left undone (`Dice.rerollValue_once`).  Every die has its own budget,
and all take their draws from one stream (`Dice.reroll_runs`, by induction on the dice).

The condition of a die that is rolled again only once is tested once: the last value may meet it. -/

namespace DiceNotation

open DiceNotation.EvalM (evaluateWithin)

namespace Dice

/-- The die of a run as it is left: it shows its last draw and counts its draws. -/
def Run.again (run : Run) : Node :=
  match run.draws.getLast? with
  | none => run.die
  | some face => (run.die.set "value" (.int face)).set "rerolled" (.int run.draws.length)

/-- A die was rolled again: it shows the last value of its run, the draws are counted on it, and
    nothing else is changed. -/
structure Run.Turns (run : Run) (after : Node) : Prop where
  kind : after.kind = run.die.kind
  children : after.children = run.die.children
  value : after.value? = run.last
  rerolled : after.get? "rerolled" =
    if run.draws = [] then run.die.get? "rerolled" else some (.int run.draws.length)
  others : ∀ name, name ≠ "value" → name ≠ "rerolled" → after.get? name = run.die.get? name
  untouched : run.draws = [] → after = run.die

/-- The draws of the runs are those from request number `first` on.  Each draw comes of a value
    before it that meets the condition, and none comes of a dropped die.  A die is rolled again
    once if it meets the condition, or as often as it does, but not more often than the limit
    allows. -/
structure Rerolls (c : Condition) (draw : Draw) (once : Bool) (first limit : Nat)
    (runs : List Run) : Prop where
  drawn : runs.flatMap Run.draws = (List.range' first (drawCount runs)).map draw
  dropped : ∀ run ∈ runs, run.die.isDropped = true → run.draws = []
  caused : ∀ run ∈ runs, ∀ value ∈ run.values.dropLast, c.holds value = true
  one : once = true → ∀ run ∈ runs, run.die.isDropped = false →
    run.draws.length = if c.holds run.die.value? then 1 else 0
  within : once = false → ∀ run ∈ runs, run.draws.length ≤ limit
  full : once = false → ∀ run ∈ runs, run.isDue c = true → run.draws.length = limit

section

variable {c : Condition} {draw : Draw} {once : Bool} {first limit : Nat} {run : Run}
  {runs : List Run}

/-! ## One die -/

/-- The die that stands behind a run is what the run makes of it. -/
private theorem Run.turns_again (run : Run) : run.Turns run.again := by
  obtain ⟨die, draws⟩ := run
  -- The last draw is what the die shows, so the draws are split at their end.
  rcases List.eq_nil_or_concat' draws with rfl | ⟨before, face, rfl⟩
  · exact ⟨rfl, rfl, rfl, rfl, fun _ _ _ => rfl, fun _ => rfl⟩
  · have again : Run.again ⟨die, before ++ [face]⟩ =
        (die.set "value" (.int face)).set "rerolled" (.int (before ++ [face]).length) := by
      simp [Run.again]
    have last : Run.last ⟨die, before ++ [face]⟩ = some (.int face) := lastShown_concat _ _ _
    rw [again]
    constructor
    case kind => rfl
    case children => rfl
    case value => rw [last]; simp [Node.value?]
    case rerolled => simp
    case others =>
      intro name value rerolled
      rw [Node.get?_set, if_neg rerolled, Node.get?_set, if_neg value]
    case untouched => simp

/-- A die that is rolled again as often as it is due makes a chain. -/
theorem rerollValue_repeating (c : Condition) (draw : Draw) (budget first : Nat)
    (value : Option Value) :
    rerollValue c draw false budget first value =
      ⟨lastShown value (chain c draw budget first value).1,
        (chain c draw budget first value).1.length, (chain c draw budget first value).2⟩ := by
  induction budget generalizing first value with
  | zero => rfl
  | succ budget ih =>
    unfold rerollValue chain
    by_cases holds : c.holds value = true
    · rw [if_pos holds, if_pos holds]
      dsimp only
      rw [if_neg Bool.false_ne_true, ih]
      rfl
    · rw [if_neg holds, if_neg holds]
      rfl

/-- A die that is rolled again only once makes a chain within a budget of one. -/
theorem rerollValue_once (c : Condition) (draw : Draw) {budget : Nat} (positive : 0 < budget)
    (first : Nat) (value : Option Value) :
    rerollValue c draw true budget first value =
      ⟨lastShown value (chain c draw 1 first value).1,
        (chain c draw 1 first value).1.length, false⟩ := by
  obtain ⟨budget, rfl⟩ := Nat.exists_eq_add_one.mpr positive
  unfold rerollValue chain
  by_cases holds : c.holds value = true
  · rw [if_pos holds, if_pos holds]
    rfl
  · rw [if_neg holds, if_neg holds]
    rfl

/-- What rerolls do to a die is what its run says. -/
private theorem applyTo_eq_again (die : Node) (draws : List Int) (capped : Bool) :
    RerolledDie.applyTo ⟨lastShown die.value? draws, draws.length, capped⟩ die =
      Run.again ⟨die, draws⟩ := by
  rcases List.eq_nil_or_concat' draws with rfl | ⟨before, face, rfl⟩
  · rfl
  · rw [lastShown_concat]
    simp [RerolledDie.applyTo, Run.again]

/-- What is left of a die that is rolled again, once or as often as it is due. -/
private theorem follows_reroll (c : Condition) (draw : Draw) (once : Bool) {limit : Nat}
    (positive : 0 < limit) (first : Nat) {die : Node} (live : die.isDropped = false) :
    ∃ draws, Run.Follows c draw first (if once then 1 else limit) ⟨die, draws⟩ ∧
      (rerollValue c draw once limit first die.value?).applyTo die = Run.again ⟨die, draws⟩ ∧
      (rerollValue c draw once limit first die.value?).count = draws.length ∧
      (rerollValue c draw once limit first die.value?).capped =
        (!once && Run.isDue c ⟨die, draws⟩) := by
  cases once with
  | true =>
    obtain ⟨follows, -⟩ := follows_chain c draw 1 first live
    refine ⟨_, follows, ?_⟩
    rw [rerollValue_once c draw positive]
    exact ⟨applyTo_eq_again _ _ _, rfl, rfl⟩
  | false =>
    obtain ⟨follows, due⟩ := follows_chain c draw limit first live
    refine ⟨_, follows, ?_⟩
    rw [rerollValue_repeating]
    exact ⟨applyTo_eq_again _ _ _, rfl, due.symm⟩

/-! ## All dice -/

/-- What rerolling leaves are the runs of the dice, each by itself. -/
theorem reroll_runs (c : Condition) (draw : Draw) (once : Bool) {limit : Nat}
    (positive : 0 < limit) (first : Nat) (dice : List Node) :
    ∃ runs : List Run, runs.map Run.die = dice ∧
      runs.flatMap Run.draws = (List.range' first (drawCount runs)).map draw ∧
      (∀ run ∈ runs, ∃ first, run.Follows c draw first (if once then 1 else limit)) ∧
      reroll c draw once limit first dice =
        ⟨runs.map Run.again, first + drawCount runs, !once && runs.any (Run.isDue c)⟩ := by
  -- The draws go on from die to die, but each die has the whole limit.
  induction dice generalizing first with
  | nil => exact ⟨[], rfl, rfl, nofun, by simp [reroll, drawCount]⟩
  | cons die dice ih =>
    unfold reroll
    by_cases dropped : die.isDropped = true
    · obtain ⟨runs, rfl, drawn, follows, rolled⟩ := ih first
      have idle : (Run.idle die).Follows c draw first (if once then 1 else limit) :=
        Run.follows_of_dropped dropped
      refine ⟨Run.idle die :: runs, rfl, ?_, ?_, ?_⟩
      · rw [List.flatMap_cons, drawn, drawCount_cons]
        simp [Run.idle]
      · intro run hrun
        rcases List.mem_cons.mp hrun with rfl | behind
        · exact ⟨first, idle⟩
        · exact follows run behind
      · rw [if_pos dropped, rolled, drawCount_cons, List.any_cons, Run.isDue_of_dropped dropped]
        simp [Run.idle, Run.again]
    · have live := Bool.eq_false_of_not_eq_true dropped
      obtain ⟨draws, mine, left, count, capped⟩ := follows_reroll c draw once positive first live
      obtain ⟨runs, rfl, drawn, follows, rolled⟩ := ih (first + draws.length)
      -- A live die has a run of its own, and the next die draws behind it.
      refine ⟨⟨die, draws⟩ :: runs, rfl, ?_, ?_, ?_⟩
      · rw [List.flatMap_cons, drawn, drawCount_cons, ← List.range'_append_1, List.map_append,
          ← mine.drawn]
      · intro run hrun
        rcases List.mem_cons.mp hrun with rfl | behind
        · exact ⟨first, mine⟩
        · exact follows run behind
      · rw [if_neg dropped]
        dsimp only
        rw [count, left, capped, rolled, drawCount_cons, List.any_cons, List.map_cons,
          Nat.add_assoc, Bool.and_or_distrib_left]

/-- A die is rolled again at most once, and only if it is due. -/
private theorem Run.Follows.length_once (h : run.Follows c draw first 1)
    (live : run.die.isDropped = false) :
    run.draws.length = if c.holds run.die.value? then 1 else 0 := by
  obtain ⟨die, draws⟩ := run
  have within : draws.length ≤ 1 := h.within
  cases draws with
  | nil =>
    split
    · next holds => exact h.full (by simp [Run.isDue, Run.last, lastShown, live, holds])
    · rfl
  | cons face draws =>
    rw [if_pos (h.caused _ List.mem_cons_self), List.length_cons]
    rw [List.length_cons] at within
    omega

/-- Dice whose runs each follow the rule are rerolled as the rule says. -/
private theorem rerolls_of_follows
    (drawn : runs.flatMap Run.draws = (List.range' first (drawCount runs)).map draw)
    (follows : ∀ run ∈ runs, ∃ first, run.Follows c draw first (if once then 1 else limit)) :
    Rerolls c draw once first limit runs where
  drawn := drawn
  dropped run hrun := by
    obtain ⟨_, mine⟩ := follows run hrun
    exact mine.dropped
  caused run hrun := by
    obtain ⟨_, mine⟩ := follows run hrun
    exact mine.caused
  -- Once means a budget of one draw for each die.
  one isOnce run hrun live := by
    obtain ⟨_, mine⟩ := follows run hrun
    rw [if_pos isOnce] at mine
    exact mine.length_once live
  within isOnce run hrun := by
    obtain ⟨_, mine⟩ := follows run hrun
    rw [if_neg (by simp [isOnce])] at mine
    exact mine.within
  full isOnce run hrun := by
    obtain ⟨_, mine⟩ := follows run hrun
    rw [if_neg (by simp [isOnce])] at mine
    exact mine.full

/-- Without a die that counts, nothing is rolled again, whatever the condition. -/
private theorem reroll_of_dropped {dice : List Node} (dropped : ∀ die ∈ dice, die.isDropped = true)
    (c : Condition) (draw : Draw) (once : Bool) (limit first : Nat) :
    reroll c draw once limit first dice = ⟨dice, first, false⟩ := by
  induction dice with
  | nil => rfl
  | cons die dice ih =>
    unfold reroll
    rw [if_pos (dropped die List.mem_cons_self),
      ih fun other hother => dropped other (List.mem_cons_of_mem _ hother)]

end

end Dice

/-! ## The modifier -/

section

variable {rules : Rules} {levels : Nat} {attributes : OrderedMap Value} {operand roll : Node}
  {argument : List Node} {record : Record} {rolled : Focus} {sides : Value} {faces : Faces}
  {c : Condition}

/-- Rolling the dice of a roll again leaves the runs of its dice.  One problem is told if some die
    is left as it is though it was due. -/
theorem reroll_exact (positive : 0 < rules.limits.maxIterations)
    (pending : Pending rules levels attributes operand record rolled roll)
    (hsides : roll.get? "sides" = some sides) (hfaces : Dice.faces sides = .ok (some faces))
    (compares : Compares (.face faces.low) argument c) :
    let limit := rules.limits.maxIterations
    let problem := Problem.rerollLimit limit
    let node : Node := ⟨.modifier .reroll, attributes, operand :: argument⟩
    let once := node.hasText "once" "yes"
    problem.message = s!"Maximum number of rerolls reached: {limit}." ∧
    ∃ runs : List Dice.Run, runs.map Dice.Run.die = roll.children ∧
      (∀ run ∈ runs, run.Turns run.again) ∧
      Dice.Rerolls c (rolled.record.trace.answers rules.source faces) once 0 limit runs ∧
      let capped := !once && runs.any (Dice.Run.isDue c)
      ComesTo (fun e => e = .tooManyDigits ∧ capped = true ∧ problem.isWritable = false)
        (Altered .reroll attributes rolled.node roll argument (runs.map Dice.Run.again)
          ((rolled.record.trace.after faces (Dice.drawCount runs)).told capped problem))
        (evaluateWithin rules (levels + 1) ⟨node, record⟩) := by
  intro limit problem node once
  obtain ⟨runs, dice, drawn, follows, done⟩ := Dice.reroll_runs c
    (rolled.record.trace.answers rules.source faces) once positive 0 roll.children
  rw [Nat.zero_add] at done
  refine ⟨rfl, runs, dice, fun run _ => run.turns_again,
    Dice.rerolls_of_follows drawn follows, ?_⟩
  have live : ∀ die ∈ Dice.live roll.children, die.IsDie :=
    fun die hdie => pending.faces die (Dice.mem_live.mp hdie).1
  have isDie : ∀ die ∈ runs.map Dice.Run.again, die.IsDie := by
    have kept := kept_isDie.reroll c (rolled.record.trace.answers rules.source faces) once limit 0
      pending.faces
    rw [done] at kept
    exact kept
  -- The condition may be another one only if there is no die that counts.
  have done' : ∀ c', (Dice.live roll.children ≠ [] → c' = c) →
      Dice.reroll c' (rolled.record.trace.answers rules.source faces)
        (Node.hasText ⟨.modifier .reroll, attributes, rolled.node :: argument⟩ "once" "yes")
        rules.limits.maxIterations 0 roll.children =
      ⟨runs.map Dice.Run.again, Dice.drawCount runs, !once && runs.any (Dice.Run.isDue c)⟩ := by
    intro c' same
    rw [← done]
    show Dice.reroll c' _ once limit 0 _ = Dice.reroll c _ once limit 0 _
    by_cases none : Dice.live roll.children = []
    · have dropped := Dice.dropped_of_live_nil none
      rw [Dice.reroll_of_dropped dropped, Dice.reroll_of_dropped dropped]
    · rw [same none]
  -- With the dice known, the modifier is followed step by step.
  apply pending.altered rfl compares.length_lt
  apply Ensures.run_bind (run_facesOf hsides hfaces)
  apply Ensures.node_bind
  apply compares.ensures_bind pending.remembers live
  intro c' same
  apply Ensures.draw_bind
  dsimp only
  rw [done' c' same]
  apply Ensures.request_bind
  apply Ensures.run_bind (run_setDice pending.stands _)
  apply ensures_told fun due long => ⟨rfl, due, long⟩
  exact ensures_renew pending.stands isDie

/-- Three dice that are rolled again below three, but only twice: a one that stays below, a dropped
    one, and a two that comes to a five with the last reroll. -/
theorem reroll_exact_capped :
    let roll : Node := .make .dice [("value", .int 3), ("count", .int 3), ("sides", .int 6)]
      [Dice.die (.int 6) 1, (Dice.die (.int 6) 1).set "drop" "yes", Dice.die (.int 6) 2]
    let argument := [Node.make (.comparison .less) [] [.integer 3]]
    let node : Node := ⟨.modifier .reroll, .ofList [("once", "no")], roll :: argument⟩
    let source : Source := fun request _ => [2, 1, 2, 5].getD request 6
    let rules : Rules := ⟨{ maxIterations := 2 }, .default, source⟩
    let c : Condition := ⟨.less, .int 3⟩
    0 < rules.limits.maxIterations ∧
    Pending rules 1 node.attributes roll {} ⟨roll, {}⟩ roll ∧ Compares (.face 1) argument c ∧
    ∃ runs : List Dice.Run, runs.map Dice.Run.die = roll.children ∧
      Dice.Rerolls c (Trace.answers source ⟨1, 6⟩ {}) false 0 2 runs ∧
      ∃ value after, evaluateWithin rules 2 ⟨node, {}⟩ = .ok value after ∧
        Altered .reroll node.attributes roll roll argument (runs.map Dice.Run.again)
          ((Trace.after {} ⟨1, 6⟩ (Dice.drawCount runs)).told (runs.any (Dice.Run.isDue c))
            (.rerollLimit 2)) value after := by
  intro roll argument node source rules c
  have faces : ∀ die ∈ roll.children, die.IsDie := by decide +kernel
  have positive : 0 < rules.limits.maxIterations := by decide
  have pending : Pending rules 1 node.attributes roll {} ⟨roll, {}⟩ roll :=
    ⟨rfl, ⟨_, rfl⟩, .roll rfl, faces⟩
  have compares : Compares (.face 1) argument c := .given (n := .int 3) rfl
  have sides : roll.get? "sides" = some (.int 6) := rfl
  have known : Dice.faces (.int 6) = .ok (some ⟨1, 6⟩) := rfl
  obtain ⟨-, runs, dice, -, rerolls, result⟩ := reroll_exact positive pending sides known compares
  refine ⟨positive, pending, compares, runs, dice, rerolls, ?_⟩
  -- The message about the limit can be written, so the reroll is not refused.
  have short : (Problem.rerollLimit 2).isWritable = true := by decide +kernel
  exact result.result fun e refused => by
    rw [refused.2.2] at short
    cases short

end

end DiceNotation
