import DiceNotation.Proofs.Semantics.DiceNodes
import Mathlib.Algebra.BigOperators.Fin
import Mathlib.Algebra.Order.BigOperators.Group.Finset

/-! # Selecting dice by rank

Of the dice that count, the first ones of a stable sort are selected.  What this means is said here
without sorting (`Roll.Selects`): a certain number of places is selected, and each selected die
outranks all other dice that count, or shows the same face and stands before them.

* `selection_selects`   the places that are selected
* `Selects.sum_le`      no other places of this number have a better sum -/

namespace DiceNotation

/-- A stable sort keeps the order of what may stand in any order. -/
private theorem pairwise_mergeSort_stable {α : Type} (le : α → α → Bool) {r : α → α → Prop}
    (trans : ∀ a b c, le a b = true → le b c = true → le a c = true)
    (total : ∀ a b, (le a b || le b a) = true) {l : List α} (h : l.Pairwise r) :
    (l.mergeSort le).Pairwise fun a b => le a b = true ∧ (le b a = true → r a b) := by
  -- The list is sorted with its places, by the place where the order does not decide.
  have sorted := List.pairwise_mergeSort (List.zipIdxLE_trans trans) (List.zipIdxLE_total total)
    l.zipIdx
  have perm := List.mergeSort_perm l.zipIdx (List.zipIdxLE le)
  have nodup : ((l.zipIdx.mergeSort (List.zipIdxLE le)).map Prod.snd).Nodup := by
    rw [(perm.map Prod.snd).nodup_iff, List.zipIdx_map_snd]
    exact List.nodup_range'
  -- No two entries have the same place, so of two equal ones exactly one comes first.
  have distinct : (l.zipIdx.mergeSort (List.zipIdxLE le)).Pairwise fun a b => a.2 ≠ b.2 :=
    List.pairwise_map.mp nodup
  rw [← List.mergeSort_zipIdx, List.pairwise_map]
  refine (sorted.and distinct).imp_of_mem ?_
  rintro ⟨a, i⟩ ⟨b, j⟩ ha hb ⟨before, different⟩
  have atI : l[i]? = some a := List.mem_zipIdx_iff_getElem?.mp (perm.mem_iff.mp ha)
  have atJ : l[j]? = some b := List.mem_zipIdx_iff_getElem?.mp (perm.mem_iff.mp hb)
  obtain ⟨hi, rfl⟩ := List.getElem?_eq_some_iff.mp atI
  obtain ⟨hj, rfl⟩ := List.getElem?_eq_some_iff.mp atJ
  unfold List.zipIdxLE at before
  dsimp only at before different ⊢
  split at before
  · next le =>
    refine ⟨le, fun back => ?_⟩
    rw [if_pos back, decide_eq_true_eq] at before
    exact List.pairwise_iff_getElem.mp h i j hi hj (by omega)
  · cases before

namespace Roll

/-- The places of the dice that count. -/
def counting (dice : List Die) : Finset Nat :=
  (Finset.range dice.length).filter fun i => (dice[i]?.any fun die => !die.dropped) = true

/-- The face of the die at a place. -/
def faceAt (dice : List Die) (i : Nat) : Int := (dice[i]?.map Die.face).getD 0

/-- Whether a face ranks strictly before another one. -/
def Outranks (highest : Bool) (a b : Int) : Prop := if highest then b < a else a < b

/-- The places of the first dice by rank: they count, they are as many as asked for if there are so
    many, and each of them outranks the dice that are not selected, or comes before those with the
    same face. -/
structure Selects (highest : Bool) (amount : Int) (dice : List Die) (places : Finset Nat) :
    Prop where
  counting : places ⊆ counting dice
  card : (places.card : Int) = min (max amount 0) (Roll.counting dice).card
  first : ∀ i ∈ places, ∀ j ∈ Roll.counting dice, j ∉ places →
    Outranks highest (faceAt dice i) (faceAt dice j) ∨ faceAt dice i = faceAt dice j ∧ i < j

section

variable {highest : Bool} {amount : Int} {dice : List Die} {places : Finset Nat} {i : Nat}

/-- The places that count are those of dice that are not dropped. -/
theorem mem_counting : i ∈ counting dice ↔ ∃ die, dice[i]? = some die ∧ die.dropped = false := by
  unfold counting
  rw [Finset.mem_filter, Finset.mem_range, Option.any_eq_true]
  constructor
  · rintro ⟨-, die, here, live⟩
    exact ⟨die, here, by simpa using live⟩
  · rintro ⟨die, here, live⟩
    obtain ⟨inside, -⟩ := List.getElem?_eq_some_iff.mp here
    exact ⟨inside, die, here, by simp [live]⟩

/-- The face at a place is that of the die there. -/
private theorem faceAt_of_getElem? {die : Die} (h : dice[i]? = some die) :
    faceAt dice i = die.face := by
  simp [faceAt, h]

/-! ## Sums over places -/

/-- A sum over the dice that count is a sum over their places. -/
private theorem sum_counting (f : Die → Int) (dice : List Die) :
    ((dice.filter fun die => !die.dropped).map f).sum =
      ∑ i ∈ counting dice, (dice[i]?.map f).getD 0 := by
  unfold counting
  rw [Finset.sum_filter]
  induction dice with
  | nil => rfl
  | cons die dice ih =>
    rw [List.length_cons, Finset.sum_range_succ']
    cases dropped : die.dropped <;> simp [dropped, ih, add_comm]

/-- The total is the sum of the faces at the places that count. -/
theorem total_eq_sum (dice : List Die) : total dice = ∑ i ∈ counting dice, faceAt dice i :=
  sum_counting Die.face dice

/-- There are as many live dice as places that count. -/
theorem length_live (dice : List Die) :
    (dice.filter fun die => !die.dropped).length = (counting dice).card := by
  have sum := sum_counting (fun _ => 1) dice
  have ones : ∀ i ∈ counting dice, (dice[i]?.map fun _ => (1 : Int)).getD 0 = 1 := by
    intro i hi
    obtain ⟨die, here, -⟩ := mem_counting.mp hi
    rw [here]
    rfl
  rw [Finset.sum_congr rfl ones] at sum
  simpa using sum

/-- Of two sets of the same size, one has the greater sum if what it has alone is greater than what
    the other one has alone. -/
private theorem sum_le_of_exchange {f : Nat → Int} {s t : Finset Nat} (card : t.card = s.card)
    (exchange : ∀ i ∈ s, ∀ j ∈ t, j ∉ s → f j ≤ f i) : ∑ j ∈ t, f j ≤ ∑ i ∈ s, f i := by
  -- What the two sets share cancels out; of the rest, no face of the one is below a face of the
  -- other, and the rests are equally large.
  rw [← Finset.sum_sdiff_le_sum_sdiff]
  have same : (t \ s).card = (s \ t).card := Finset.card_sdiff_comm card
  rcases (s \ t).eq_empty_or_nonempty with empty | nonempty
  · rw [empty, Finset.card_empty, Finset.card_eq_zero] at same
    rw [empty, same]
  · obtain ⟨least, hleast, isLeast⟩ := Finset.exists_min_image (s \ t) f nonempty
    have above : ∀ j ∈ t \ s, f j ≤ f least := by
      intro j hj
      obtain ⟨inT, notS⟩ := Finset.mem_sdiff.mp hj
      exact exchange least (Finset.mem_sdiff.mp hleast).1 j inT notS
    calc ∑ j ∈ t \ s, f j ≤ (t \ s).card • f least := Finset.sum_le_card_nsmul _ _ _ above
      _ = (s \ t).card • f least := by rw [same]
      _ ≤ ∑ i ∈ s \ t, f i := Finset.card_nsmul_le_sum _ _ _ isLeast

/-- No other places of this number have a better sum. -/
theorem Selects.sum_le (h : Selects highest amount dice places) {others : Finset Nat}
    (inside : others ⊆ Roll.counting dice) (card : others.card = places.card) :
    if highest then ∑ j ∈ others, faceAt dice j ≤ ∑ i ∈ places, faceAt dice i
    else ∑ i ∈ places, faceAt dice i ≤ ∑ j ∈ others, faceAt dice j := by
  cases highest with
  | true =>
    rw [if_pos rfl]
    -- Each place that was passed over is no better than any that was chosen.
    apply sum_le_of_exchange card
    intro i hi j hj passed
    rcases h.first i hi j (inside hj) passed with better | ⟨equal, -⟩
    · exact Int.le_of_lt better
    · exact equal.ge
  | false =>
    -- The lowest faces are the highest ones among their negatives.
    rw [if_neg Bool.false_ne_true, ← neg_le_neg_iff, ← Finset.sum_neg_distrib,
      ← Finset.sum_neg_distrib]
    apply sum_le_of_exchange card
    intro i hi j hj passed
    rcases h.first i hi j (inside hj) passed with better | ⟨equal, -⟩
    · exact Int.neg_le_neg (Int.le_of_lt better)
    · rw [equal]

/-! ## The selected places -/

/-- Ranking is transitive. -/
theorem ranksBefore_trans (highest : Bool) (a b c : Int) (ab : ranksBefore highest a b = true)
    (bc : ranksBefore highest b c = true) : ranksBefore highest a c = true := by
  unfold ranksBefore at *
  cases highest <;> simp at * <;> omega

/-- Of two faces, one ranks before the other. -/
theorem ranksBefore_total (highest : Bool) (a b : Int) :
    (ranksBefore highest a b || ranksBefore highest b a) = true := by
  unfold ranksBefore
  cases highest <;> simp <;> omega

/-- The dice that count with their places, by rank. -/
def ranked (highest : Bool) (dice : List Die) : List (Die × Nat) :=
  (dice.zipIdx.filter fun entry => !entry.1.dropped).mergeSort fun a b =>
    ranksBefore highest a.1.face b.1.face

/-- The places that are selected are the first ones of the ranking. -/
theorem selection_eq_take (highest : Bool) (amount : Int) (dice : List Die) :
    selection highest amount dice = ((ranked highest dice).take amount.toNat).map Prod.snd :=
  List.map_take.symm

/-- Each live die is ranked, with its place. -/
private theorem mem_ranked {entry : Die × Nat} :
    entry ∈ ranked highest dice ↔ dice[entry.2]? = some entry.1 ∧ entry.1.dropped = false := by
  unfold ranked
  rw [List.mem_mergeSort, List.mem_filter, List.mem_zipIdx_iff_getElem?]
  simp

/-- No place is ranked twice. -/
theorem nodup_ranked (highest : Bool) (dice : List Die) :
    ((ranked highest dice).map Prod.snd).Nodup := by
  unfold ranked
  rw [((List.mergeSort_perm _ _).map Prod.snd).nodup_iff]
  have places : (dice.zipIdx.map Prod.snd).Nodup := by
    rw [List.zipIdx_map_snd]
    exact List.nodup_range'
  exact places.sublist (List.filter_sublist.map Prod.snd)

/-- As many dice are ranked as count. -/
private theorem length_ranked (highest : Bool) (dice : List Die) :
    (ranked highest dice).length = (counting dice).card := by
  unfold ranked
  rw [(List.mergeSort_perm _ _).length_eq, ← length_live, ← List.length_map (f := Prod.fst)]
  congr 1
  conv_rhs => rw [← List.zipIdx_map_fst 0 dice, List.filter_map]
  rfl

/-- The dice that count are ranked, by their places where they show the same face. -/
private theorem ranked_pairwise (highest : Bool) (dice : List Die) :
    (ranked highest dice).Pairwise fun a b =>
      Outranks highest a.1.face b.1.face ∨ a.1.face = b.1.face ∧ a.2 < b.2 := by
  -- The sorting is stable, so that equal faces stay in the order of their places.
  have increasing : (dice.zipIdx.filter fun entry => !entry.1.dropped).Pairwise
      fun a b => a.2 < b.2 := by
    apply List.Pairwise.filter
    rw [← List.pairwise_map (f := Prod.snd) (R := (· < ·)), List.zipIdx_map_snd]
    exact List.pairwise_lt_range'
  have stable := pairwise_mergeSort_stable
    (fun a b => ranksBefore highest a.1.face b.1.face)
    (fun a b c => ranksBefore_trans highest a.1.face b.1.face c.1.face)
    (fun a b => ranksBefore_total highest a.1.face b.1.face) increasing
  refine stable.imp ?_
  rintro a b ⟨before, tie⟩
  unfold Outranks
  unfold ranksBefore at before tie
  -- What is left is arithmetic on the two faces, in either direction.
  cases highest with
  | true =>
    simp only [if_true, decide_eq_true_eq] at before tie ⊢
    omega
  | false =>
    simp only [Bool.false_eq_true, if_false, decide_eq_true_eq] at before tie ⊢
    omega

/-- A place is selected if it is among the first ones of the ranking. -/
private theorem mem_selection {amount : Int} : i ∈ (selection highest amount dice).toFinset ↔
    ∃ entry ∈ (ranked highest dice).take amount.toNat, entry.2 = i := by
  rw [List.mem_toFinset, selection_eq_take, List.mem_map]

/-- The first places of the ranking are those that the modifier says. -/
theorem selection_selects (highest : Bool) (amount : Int) (dice : List Die) :
    Selects highest amount dice (selection highest amount dice).toFinset := by
  constructor
  case counting =>
    intro i hi
    obtain ⟨entry, hentry, rfl⟩ := mem_selection.mp hi
    exact mem_counting.mpr ⟨_, mem_ranked.mp (List.mem_of_mem_take hentry)⟩
  case card =>
    have nodup : (selection highest amount dice).Nodup := by
      rw [selection_eq_take]
      exact (nodup_ranked highest dice).sublist ((List.take_sublist _ _).map Prod.snd)
    rw [List.toFinset_card_of_nodup nodup, selection_eq_take, List.length_map, List.length_take,
      length_ranked]
    omega
  case first =>
    intro i hi j hj passed
    obtain ⟨a, ha, rfl⟩ := mem_selection.mp hi
    obtain ⟨die, here, live⟩ := mem_counting.mp hj
    -- A die that counts and is not among the first ones of the ranking stands behind them all.
    have later : (die, j) ∈ (ranked highest dice).drop amount.toNat := by
      have inside : (die, j) ∈ ranked highest dice := mem_ranked.mpr ⟨here, live⟩
      rw [← List.take_append_drop amount.toNat (ranked highest dice)] at inside
      rcases List.mem_append.mp inside with early | late
      · exact absurd (mem_selection.mpr ⟨_, early, rfl⟩) passed
      · exact late
    have ordered := ranked_pairwise highest dice
    rw [← List.take_append_drop amount.toNat (ranked highest dice)] at ordered
    -- In the ranking every entry of the first part stands before every entry of the rest.
    have between := (List.pairwise_append.mp ordered).2.2 a ha _ later
    rw [faceAt_of_getElem? (mem_ranked.mp (List.mem_of_mem_take ha)).1, faceAt_of_getElem? here]
    exact between

end

end Roll

end DiceNotation
