import DiceNotation.Proofs.Trees.Expansion

/-! # Problems stay collected

An evaluation adds to the problems that were collected before it and takes none away.  This is
proved of each computation (`Sem.Keeps`) first, and of expanded trees from it.

* `Expands.problems_subset`    by induction on how the tree was expanded -/

namespace DiceNotation

/-! ## Computations -/

/-- What was collected before the computation is still there behind it. -/
structure Sem.Keeps {α : Type} (sem : Sem α) : Prop where
  subset : ∀ {a : α} {trace trace' : Trace}, sem trace = .ok a trace' →
    trace.problems ⊆ trace'.problems

namespace Sem.Keeps

variable {α β : Type} {sem : Sem α}

/-- Returning a result keeps the problems. -/
theorem pure (a : α) : Keeps (Pure.pure a) := by
  constructor
  intro _ _ _ run
  cases run
  exact List.Subset.refl _

/-- Computations that keep the problems do so one after the other. -/
theorem bind {next : α → Sem β} (h : Keeps sem) (hnext : ∀ a, Keeps (next a)) :
    Keeps (sem >>= next) := by
  constructor
  intro b trace trace' run
  change EStateM.bind sem next trace = .ok b trace' at run
  unfold EStateM.bind at run
  cases first : sem trace with
  | error e trace₁ =>
    rw [first] at run
    cases run
  | ok a trace₁ =>
    rw [first] at run
    exact List.Subset.trans (h.subset first) ((hnext a).subset run)

/-- Collecting a problem keeps those there are. -/
private theorem collect (problem : Problem) : Keeps (Sem.collect problem) := by
  constructor
  intro _ trace _ run
  unfold Sem.collect at run
  split at run
  · cases run
    exact List.subset_append_left _ _
  · cases run

/-- Reporting a problem with a fallback keeps those there are. -/
theorem report (problem : Problem) (a : α) : Keeps (do Sem.collect problem; return a) :=
  (collect problem).bind fun _ => pure a

/-- Demanding a number keeps the problems. -/
private theorem demand (number : Except NumberError α) : Keeps (Sem.demand number) := by
  cases number with
  | ok a => exact pure a
  | error e =>
    constructor
    intro _ _ _ run
    cases run

/-- Telling of a limit keeps the problems. -/
private theorem tell (capped : Bool) (problem : Problem) : Keeps (Sem.tell capped problem) := by
  unfold Sem.tell
  split
  · exact collect problem
  · exact pure _

/-- An operation keeps the problems. -/
theorem operate (op : Operator) (a b : Number) : Keeps (Sem.operate op a b) := by
  unfold Sem.operate
  split
  · split
    · exact report _ _
    · exact pure _
  · exact report _ _
  · exact report _ _

/-- A function on numbers keeps the problems. -/
theorem function {name : String} {f : Number → Sem Number} (known : Sem.function? name = some f)
    (n : Number) : Keeps (f n) := by
  unfold Sem.function? at known
  split at known <;> cases known
  · exact pure _
  · exact (demand _).bind fun _ => pure _
  · exact (demand _).bind fun _ => pure _
  · exact (demand _).bind fun _ => pure _
  · unfold Sem.squareRoot
    split
    · exact report _ _
    · exact demand _

/-- A check against bounds keeps the problems. -/
private theorem within (bounds : Bounds) (amount : Int) : Keeps (Roll.within bounds amount) := by
  unfold Roll.within
  split
  · exact report _ _
  · split
    · exact pure _
    · split
      · exact report _ _
      · exact pure _

/-- The check of the sides keeps the problems. -/
private theorem sidesAllowed (limits : Limits) (sides : Option Int) :
    Keeps (Roll.sidesAllowed limits sides) := by
  cases sides with
  | none => exact pure _
  | some s => exact within limits.onSides s

end Sem.Keeps

/-! ## Expanded trees -/

section

variable {limits : Limits} {source : Source}

/-- A modifier keeps the problems. -/
theorem Alters.problems_subset {node roll : Node} {argument dice : List Node} {m : Modifier}
    {trace trace' : Trace} (alters : Alters limits source node roll argument m trace dice trace') :
    trace.problems ⊆ trace'.problems := by
  cases alters with
  | explode _ _ _ _ told =>
    have kept := (Sem.Keeps.tell _ _).subset told
    exact kept
  | reroll _ _ _ _ told =>
    have kept := (Sem.Keeps.tell _ _).subset told
    exact kept
  | _ => exact List.Subset.refl _

/-- Unfolding a group keeps the problems. -/
private theorem Unfolds.problems_subset {group unfolded : Node} {trace trace' : Trace}
    (h : Unfolds limits group trace unfolded trace') : trace.problems ⊆ trace'.problems := by
  cases h with
  | excess _ _ _ told => exact (Sem.Keeps.collect _).subset told
  | _ => exact List.Subset.refl _

/-- Throwing dice collects no problem. -/
private theorem problems_throwDice {allowed : Bool} {count : Nat} {sides : Option Int}
    {dice : List Node} {trace trace' : Trace}
    (threw : Roll.throwDice source allowed count sides trace = (dice, trace')) :
    trace'.problems = trace.problems := by
  unfold Roll.throwDice at threw
  cases allowed <;> cases threw <;> rfl

/-- What each visit keeps, they keep together. -/
theorem Visit.Linked.problems_subset {visits : List Visit} {trace trace' : Trace}
    (linked : Linked visits trace trace')
    (h : ∀ visit ∈ visits, visit.start.problems ⊆ visit.finish.problems) :
    trace.problems ⊆ trace'.problems ∧
      ∀ visit ∈ visits, visit.finish.problems ⊆ trace'.problems := by
  induction visits generalizing trace with
  | nil =>
    cases linked
    exact ⟨List.Subset.refl _, nofun⟩
  | cons visit visits ih =>
    obtain ⟨rfl, rest⟩ := linked
    obtain ⟨first, others⟩ := List.forall_mem_cons.mp h
    obtain ⟨behind, each⟩ := ih rest others
    exact ⟨List.Subset.trans first behind, List.forall_mem_cons.mpr ⟨behind, each⟩⟩

/-- An evaluation adds to the problems that were collected before it. -/
theorem Expands.problems_subset {before after : Node} {n : Number} {trace trace' : Trace}
    (h : Expands limits source before trace after n trace') :
    trace.problems ⊆ trace'.problems := by
  -- Each step of a rule keeps what was collected before it.
  induction h with
  | literal _ => exact List.Subset.refl _
  | negate _ ih => exact ih
  | operator _ _ applied left right =>
    exact List.Subset.trans left
      (List.Subset.trans right ((Sem.Keeps.operate _ _ _).subset applied))
  | untested _ _ _ ih => exact ih
  | tested _ _ _ _ _ left right => exact List.Subset.trans left right
  | call _ known _ applied ih =>
    exact List.Subset.trans ih ((Sem.Keeps.function known _).subset applied)
  | miscall _ _ _ _ told => exact (Sem.Keeps.collect _).subset told
  | group _ unfolds _ linked _ _ ih =>
    exact List.Subset.trans unfolds.problems_subset (linked.problems_subset ih).1
  | roll _ _ _ _ countChecked sidesChecked threw ih =>
    rw [problems_throwDice threw]
    apply List.Subset.trans ih
    exact List.Subset.trans ((Sem.Keeps.within _ _).subset countChecked)
      ((Sem.Keeps.sidesAllowed _ _).subset sidesChecked)
  | modifier _ _ _ alters ih => exact List.Subset.trans ih alters.problems_subset

end

end DiceNotation
