import DiceNotation.Proofs.Modifiers.Exploding

/-! # What becomes of each die

A modifier does the same kind of thing to all dice: it writes certain attributes, and it may bring
extra dice (`Dice.Change`).  What it does to a dropped die is next to nothing, as a critical mark is
all that such a die can still get.  No die is ever taken out of a roll.

`Dice.Changed` says this of one modifier and `Dice.ChangedBy` of several ones in a row.  Through all
of them the dice that were dropped stay as they are (`Dice.ChangedBy.frozen`, by induction on the
modifiers). -/

namespace DiceNotation

/-- Forgetting a name undoes that it was given a value. -/
private theorem OrderedMap.erase_insert {α : Type} (map : OrderedMap α) (key : String) (value : α) :
    (map.insert key value).erase key = map.erase key := by
  have entries (list : List (String × α)) :
      (insertEntry key value list).filter (·.1 ≠ key) = list.filter (·.1 ≠ key) := by
    induction list with
    | nil => simp [insertEntry]
    | cons entry rest ih =>
      unfold insertEntry
      -- The entry with the key is the only one that the insertion touches.
      by_cases here : entry.1 = key
      · simp [here]
      · rw [if_neg here, List.filter_cons, List.filter_cons, ih]
  unfold OrderedMap.erase
  congr 1
  exact entries map.entries

/-- To set a name before it is unset makes no difference. -/
private theorem Node.unset_set (node : Node) (key : String) (value : Value) :
    (node.set key value).unset key = node.unset key := by
  unfold Node.unset Node.set
  rw [OrderedMap.erase_insert]

/-- The attributes of dice that a modifier may write. -/
def Modifier.writes : Modifier → List String
  | .keep | .drop => ["drop"]
  | .critical => ["critical"]
  | .reroll => ["value", "rerolled"]
  | .explode | .sort => []

namespace Dice

/-- A die without a critical mark. -/
def bare (die : Node) : Node := die.unset "critical"

/-- A die before and after a modifier, and the extra dice that it brings. -/
structure Change where
  before : Node
  after : Node
  extra : List Node

/-- What stands in the place of the die. -/
def Change.dice (change : Change) : List Node := change.after :: change.extra

/-- The modifier writes nothing but its own attributes, and to a dropped die nothing but a critical
    mark.  Extra dice come of explosions of dice that count. -/
structure Change.Allowed (m : Modifier) (change : Change) : Prop where
  kind : change.after.kind = change.before.kind
  children : change.after.children = change.before.children
  others : ∀ name, name ∉ m.writes → change.after.get? name = change.before.get? name
  dropped : change.before.isDropped = true →
    bare change.after = bare change.before ∧ change.extra = []
  extra : ∀ die ∈ change.extra,
    m = .explode ∧ ∃ sides face, die = (Dice.die sides face).set "explode" "yes"

/-- Each of the dice is still there, as the modifier may have left it, with its extra dice behind
    it.  Only sorting puts them in another order. -/
def Changed (m : Modifier) (dice after : List Node) : Prop :=
  ∃ changes : List Change, changes.map Change.before = dice ∧
    (∀ change ∈ changes, change.Allowed m) ∧ after.Perm (changes.flatMap Change.dice) ∧
    (m ≠ .sort → after = changes.flatMap Change.dice)

/-- Modifiers one after the other, the last one first. -/
inductive ChangedBy : List Modifier → List Node → List Node → Prop where
  | nil (dice : List Node) : ChangedBy [] dice dice
  | cons {m : Modifier} {ms : List Modifier} {dice middle after : List Node}
      (inner : ChangedBy ms dice middle) (outer : Changed m middle after) :
      ChangedBy (m :: ms) dice after

/-- All dice that are dropped before are there afterwards, dropped, with the same faces and marks
    except for critical marks. -/
def Frozen (dice after : List Node) : Prop :=
  ((dice.filter Node.isDropped).map bare).Subperm ((after.filter Node.isDropped).map bare)

section

variable {m : Modifier} {die : Node} {dice middle after : List Node}

/-- A critical mark does not tell whether a die is dropped. -/
theorem isDropped_bare (die : Node) : (bare die).isDropped = die.isDropped := by
  unfold bare Node.isDropped Node.hasText
  rw [Node.get?_unset, if_neg (by decide)]

/-! ## One die -/

/-- No change is always allowed. -/
theorem allowed_self (m : Modifier) (die : Node) : Change.Allowed m ⟨die, die, []⟩ :=
  ⟨rfl, rfl, fun _ _ => rfl, fun _ => ⟨rfl, rfl⟩, nofun⟩

/-- A die is marked: it counts, or the mark is a critical one. -/
theorem allowed_set {key : String} (value : Value) (written : key ∈ m.writes)
    (spares : die.isDropped = true → key = "critical") :
    Change.Allowed m ⟨die, die.set key value, []⟩ where
  kind := rfl
  children := rfl
  others name other := by
    have different : name ≠ key := fun same => other (same ▸ written)
    rw [Node.get?_set, if_neg different]
  dropped dropped := by
    obtain rfl := spares dropped
    exact ⟨Node.unset_set die _ value, rfl⟩
  extra := nofun

/-- A live die may be rolled again. -/
theorem allowed_again (live : die.isDropped = false) (value : Value) (count : Int) :
    Change.Allowed .reroll ⟨die, (die.set "value" value).set "rerolled" (.int count), []⟩ where
  kind := rfl
  children := rfl
  others name other := by
    simp only [Modifier.writes, List.mem_cons, List.not_mem_nil, or_false, not_or] at other
    rw [Node.get?_set, if_neg other.2, Node.get?_set, if_neg other.1]
  dropped dropped := by
    rw [live] at dropped
    cases dropped
  extra := nofun

/-! ## Each modifier -/

/-- Dice that are changed one by one are changed as allowed if each of them is. -/
theorem changed_of_map {ι : Type} {entries : List ι} {f g : ι → Node}
    (allowed : ∀ entry ∈ entries, Change.Allowed m ⟨f entry, g entry, []⟩) :
    Changed m (entries.map f) (entries.map g) := by
  have places : (entries.map fun entry => (⟨f entry, g entry, []⟩ : Change)).flatMap Change.dice =
      entries.map g := by
    rw [List.flatMap_map, List.map_eq_flatMap]
    rfl
  refine ⟨entries.map fun entry => ⟨f entry, g entry, []⟩, ?_, ?_, ?_, fun _ => places.symm⟩
  · rw [List.map_map]
    rfl
  · intro change hchange
    obtain ⟨entry, hentry, rfl⟩ := List.mem_map.mp hchange
    exact allowed entry hentry
  · rw [places]

/-- Dice that stay as they are have been changed as allowed. -/
theorem changed_self (m : Modifier) (dice : List Node) : Changed m dice dice := by
  have same : Changed m (dice.map id) (dice.map id) :=
    changed_of_map fun die _ => allowed_self m die
  rwa [List.map_id] at same

/-- Dice may be changed according to their places. -/
theorem changed_zipIdx {g : Node × Nat → Node}
    (allowed : ∀ entry ∈ dice.zipIdx, Change.Allowed m ⟨entry.1, g entry, []⟩) :
    Changed m dice (dice.zipIdx.map g) := by
  have changed := changed_of_map allowed
  rwa [List.zipIdx_map_fst] at changed

/-- Keeping changes dice as it is allowed to. -/
theorem changed_keep (highest : Bool) (amount : Int) (dice : List Node) :
    Changed .keep dice (Dice.keep highest amount dice) := by
  apply changed_zipIdx
  intro entry _
  split
  · exact allowed_self _ _
  · next live => exact allowed_set _ (by simp [Modifier.writes]) fun dropped => absurd dropped live

/-- What is selected counts. -/
theorem live_of_mem_selection {highest : Bool} {amount : Int} {entry : Node × Nat}
    (inside : entry ∈ dice.zipIdx) (selected : entry.2 ∈ selection highest amount dice) :
    entry.1.isDropped = false := by
  obtain ⟨other, ranked, same⟩ := List.mem_map.mp (List.mem_of_mem_take selected)
  obtain ⟨there, live⟩ := List.mem_filter.mp ((List.mergeSort_perm _ _).mem_iff.mp ranked)
  have here := List.mem_zipIdx_iff_getElem?.mp inside
  rw [← same, List.mem_zipIdx_iff_getElem?.mp there, Option.some_inj] at here
  rw [← here]
  simpa using live

/-- Dropping changes dice as it is allowed to. -/
theorem changed_drop (highest : Bool) (amount : Int) (dice : List Node) :
    Changed .drop dice (Dice.drop highest amount dice) := by
  apply changed_zipIdx
  intro entry inside
  split
  · next selected =>
    have live := live_of_mem_selection inside (List.contains_iff_mem.mp selected)
    refine allowed_set _ (by simp [Modifier.writes]) fun dropped => ?_
    rw [live] at dropped
    cases dropped
  · exact allowed_self _ _

/-- Marking critical dice changes dice as it is allowed to. -/
theorem changed_markCritical (c : Condition) (kind : Value) (dice : List Node) :
    Changed .critical dice (Dice.markCritical c kind dice) := by
  have changed : Changed .critical (dice.map id) (Dice.markCritical c kind dice) := by
    apply changed_of_map
    intro die _
    split
    · exact allowed_set _ (by simp [Modifier.writes]) fun _ => rfl
    · exact allowed_self _ _
  rwa [List.map_id] at changed

/-- Sorting changes dice as it is allowed to: each of them stays as it is. -/
theorem changed_sort (descending : Bool) (dice : List Node) :
    Changed .sort dice (Dice.sort descending dice) := by
  obtain ⟨changes, before, allowed, perm, -⟩ := changed_self .sort dice
  exact ⟨changes, before, allowed, (sort_perm descending dice).trans perm, fun h => absurd rfl h⟩

/-- What rerolls do to a live die is allowed. -/
theorem allowed_applyTo (live : die.isDropped = false) (rerolled : RerolledDie) :
    Change.Allowed .reroll ⟨die, rerolled.applyTo die, []⟩ := by
  unfold RerolledDie.applyTo
  split
  · exact allowed_self _ _
  · exact allowed_self _ _
  · exact allowed_again live _ _

/-- Rerolling changes dice as it is allowed to. -/
theorem changed_reroll (c : Condition) (draw : Draw) (once : Bool) (budget first : Nat)
    (dice : List Node) : Changed .reroll dice (Dice.reroll c draw once budget first dice).dice := by
  -- The draws go on from die to die.
  have changes (first : Nat) : ∃ changes : List Change, changes.map Change.before = dice ∧
      (∀ change ∈ changes, change.Allowed .reroll) ∧
      (Dice.reroll c draw once budget first dice).dice = changes.flatMap Change.dice := by
    induction dice generalizing first with
    | nil => exact ⟨[], rfl, nofun, rfl⟩
    | cons die dice ih =>
      unfold Dice.reroll
      -- A dropped die is passed over and draws nothing.
      by_cases dropped : die.isDropped = true
      · obtain ⟨changes, rfl, allowed, left⟩ := ih first
        refine ⟨⟨die, die, []⟩ :: changes, rfl, ?_, ?_⟩
        · exact List.forall_mem_cons.mpr ⟨allowed_self _ _, allowed⟩
        · rw [if_pos dropped]
          exact congrArg (die :: ·) left
      · let rerolled := rerollValue c draw once budget first die.value?
        have here := allowed_applyTo (Bool.eq_false_of_not_eq_true dropped) rerolled
        obtain ⟨changes, rfl, allowed, left⟩ := ih (first + rerolled.count)
        refine ⟨⟨die, rerolled.applyTo die, []⟩ :: changes, rfl, ?_, ?_⟩
        · exact List.forall_mem_cons.mpr ⟨here, allowed⟩
        · rw [if_neg dropped]
          exact congrArg (rerolled.applyTo die :: ·) left
  obtain ⟨changes, before, allowed, left⟩ := changes first
  exact ⟨changes, before, allowed, .of_eq left, fun _ => left⟩

/-- Exploding changes dice as it is allowed to: extra dice stand behind the one that they come from.
    -/
theorem changed_explode (c : Condition) (draw : Draw) (sides : Value) (penetrating : Bool)
    (budget first : Nat) (dice : List Node) :
    Changed .explode dice
      (Dice.explode c draw (Dice.extraDie sides penetrating) budget first dice).dice := by
  obtain ⟨runs, rfl, explodes, exploded⟩ :=
    explode_runs c draw (Dice.extraDie sides penetrating) budget first dice
  -- Each run is a die that stays as it is, with its extra dice behind it.
  let change (run : Run) : Change :=
    ⟨run.die, run.die, run.draws.map (Dice.extraDie sides penetrating)⟩
  have left : (Dice.explode c draw (Dice.extraDie sides penetrating) budget first
      (runs.map Run.die)).dice = (runs.map change).flatMap Change.dice := by
    rw [exploded, List.flatMap_map]
    rfl
  refine ⟨runs.map change, ?_, ?_, .of_eq left, fun _ => left⟩
  · rw [List.map_map]
    rfl
  · intro _ hchange
    obtain ⟨run, hrun, rfl⟩ := List.mem_map.mp hchange
    -- The die itself is not changed, and a dropped one has no extra dice.
    refine ⟨rfl, rfl, fun _ _ => rfl, fun dropped => ⟨rfl, ?_⟩, ?_⟩
    · show run.draws.map _ = []
      rw [explodes.dropped run hrun dropped]
      rfl
    · intro die hdie
      obtain ⟨face, -, rfl⟩ := List.mem_map.mp hdie
      exact ⟨rfl, sides, _, rfl⟩

/-! ## Dropped dice -/

/-- Dice that stay as they are are frozen. -/
theorem frozen_refl (dice : List Node) : Frozen dice dice := List.Subperm.refl _

/-- What is frozen twice is frozen. -/
theorem Frozen.trans (h : Frozen dice middle) (h' : Frozen middle after) : Frozen dice after :=
  List.Subperm.trans h h'

/-- A modifier leaves dropped dice as they are. -/
private theorem Changed.frozen (h : Changed m dice after) : Frozen dice after := by
  obtain ⟨changes, rfl, allowed, perm, -⟩ := h
  -- The dropped dice are found in the same order among the changed ones; only sorting moves them,
  -- and that is a permutation.
  have places : (((changes.map Change.before).filter Node.isDropped).map bare).Sublist
      (((changes.flatMap Change.dice).filter Node.isDropped).map bare) := by
    clear perm
    induction changes with
    | nil => exact .slnil
    | cons change changes ih =>
      obtain ⟨here, behind⟩ := List.forall_mem_cons.mp allowed
      have rest := ih behind
      rw [List.map_cons, List.flatMap_cons, List.filter_append, List.map_append]
      by_cases dropped : change.before.isDropped = true
      · obtain ⟨same, none⟩ := here.dropped dropped
        have still : change.after.isDropped = true := by
          rw [← isDropped_bare, same, isDropped_bare, dropped]
        rw [List.filter_cons_of_pos dropped, Change.dice, none, List.filter_cons_of_pos still,
          List.map_cons, List.map_cons, same]
        exact rest.cons_cons _
      · rw [List.filter_cons_of_neg dropped]
        exact rest.trans (List.sublist_append_right _ _)
  exact places.subperm.trans ((perm.symm.filter _).map _).subperm

/-- Dropped dice are left as they are by all modifiers that follow. -/
theorem ChangedBy.frozen {ms : List Modifier} (h : ChangedBy ms dice after) :
    Frozen dice after := by
  induction h with
  | nil dice => exact frozen_refl dice
  | cons _ outer ih => exact ih.trans outer.frozen

/-! ## Marks of success -/

/-- No modifier marks successes. -/
theorem success_notMem_writes (m : Modifier) : "success" ∉ m.writes := by
  cases m <;> simp [Modifier.writes]

/-- Modifiers put no marks of success on dice. -/
private theorem Changed.unmarked (h : Changed m dice after)
    (unmarked : ∀ die ∈ dice, die.get? "success" = none) :
    ∀ die ∈ after, die.get? "success" = none := by
  obtain ⟨changes, rfl, allowed, perm, -⟩ := h
  intro die hdie
  obtain ⟨change, hchange, here⟩ := List.mem_flatMap.mp (perm.mem_iff.mp hdie)
  rcases List.mem_cons.mp here with rfl | new
  · rw [(allowed change hchange).others "success" (success_notMem_writes m)]
    exact unmarked _ (List.mem_map_of_mem hchange)
  · obtain ⟨-, sides, face, rfl⟩ := (allowed change hchange).extra die new
    rfl

/-- Modifiers leave dice without marks of success. -/
theorem ChangedBy.unmarked {ms : List Modifier} (h : ChangedBy ms dice after)
    (unmarked : ∀ die ∈ dice, die.get? "success" = none) :
    ∀ die ∈ after, die.get? "success" = none := by
  induction h with
  | nil dice => exact unmarked
  | cons _ outer ih => exact outer.unmarked (ih unmarked)

end

end Dice

end DiceNotation
