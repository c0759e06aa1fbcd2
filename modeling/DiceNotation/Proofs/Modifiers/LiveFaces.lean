import DiceNotation.Proofs.Modifiers.Ranking
import DiceNotation.Proofs.Trees.Dice

/-! # The faces that count

Which dice are kept or dropped depends on the order of the dice where they show the same face.  The
faces that count afterwards do not: they are the first ones, or the others, of the faces that
counted before, put in order (`Roll.byRank`).  So they are determined by the faces that counted
before, in whatever order these stood.

* `liveFaces_keep`, `liveFaces_drop`   what counts afterwards
* `liveFaces_sort`                     putting dice in order does not matter
* `take_byRank_perm`                   the first ones by one order are the last ones by the other -/

namespace DiceNotation.Roll

/-- Faces in order of rank. -/
def byRank (highest : Bool) (faces : List Int) : List Int := faces.mergeSort (ranksBefore highest)

variable {highest : Bool} {amount : Int} {dice : List Die} {faces faces' : List Int}

/-- Ranking rearranges the faces. -/
private theorem byRank_perm (highest : Bool) (faces : List Int) :
    (byRank highest faces).Perm faces :=
  List.mergeSort_perm faces _

/-- Ranking neither adds nor removes a face. -/
@[simp] theorem length_byRank (highest : Bool) (faces : List Int) :
    (byRank highest faces).length = faces.length :=
  (byRank_perm highest faces).length_eq

/-- Behind a face there is none of a better rank. -/
private theorem pairwise_byRank (highest : Bool) (faces : List Int) :
    (byRank highest faces).Pairwise fun a b => ranksBefore highest a b = true :=
  List.pairwise_mergeSort (ranksBefore_trans highest) (ranksBefore_total highest) faces

/-- Faces that rank before each other are equal. -/
private theorem ranksBefore_antisymm {a b : Int} (ab : ranksBefore highest a b = true)
    (ba : ranksBefore highest b a = true) : a = b := by
  unfold ranksBefore at ab ba
  cases highest <;> simp at ab ba <;> omega

/-- Faces in order are determined by the faces. -/
private theorem eq_byRank (perm : faces.Perm faces')
    (sorted : faces.Pairwise fun a b => ranksBefore highest a b = true) :
    faces = byRank highest faces' :=
  List.Perm.eq_of_pairwise (fun _ _ _ _ => ranksBefore_antisymm) sorted
    (pairwise_byRank highest faces') (perm.trans (byRank_perm highest faces').symm)

/-- The ranking does not depend on the order of the faces. -/
private theorem byRank_congr (highest : Bool) (perm : faces.Perm faces') :
    byRank highest faces = byRank highest faces' :=
  eq_byRank ((byRank_perm highest faces).trans perm) (pairwise_byRank highest faces)

/-- The faces of a multiset in order of rank. -/
def ranking (highest : Bool) (faces : Multiset Int) : List Int :=
  Quot.liftOn faces (byRank highest) fun _ _ => byRank_congr highest

/-- The other order is the reverse one. -/
private theorem reverse_byRank (highest : Bool) (faces : List Int) :
    (byRank highest faces).reverse = byRank (!highest) faces := by
  apply eq_byRank ((List.reverse_perm _).trans (byRank_perm highest faces))
  rw [List.pairwise_reverse]
  apply (pairwise_byRank highest faces).imp
  intro a b before
  unfold ranksBefore at before ⊢
  cases highest <;> simpa using before

/-- The first faces by one order are those that the first ones by the other order leave. -/
theorem take_byRank_perm {n m : Nat} (length : n + m = faces.length) :
    ((byRank highest faces).take n).Perm ((byRank (!highest) faces).drop m) := by
  rw [← reverse_byRank, List.drop_reverse, length_byRank, ← length, Nat.add_sub_cancel]
  exact (List.reverse_perm _).symm

/-! ## Keeping and dropping -/

/-- The dice that count show their faces by rank. -/
private theorem face_ranked (highest : Bool) (dice : List Die) :
    (ranked highest dice).map (fun entry => entry.1.face) = byRank highest (liveFaces dice) := by
  have faces : (dice.zipIdx.filter fun entry => !entry.1.dropped).map (fun entry => entry.1.face) =
      liveFaces dice := by
    unfold liveFaces
    conv_rhs => rw [← List.zipIdx_map_fst 0 dice, List.filter_map, List.map_map]
    rfl
  unfold byRank ranked
  rw [← faces]
  exact List.map_mergeSort fun _ _ _ _ => rfl

/-- Entries whose place is among those of the first ones are the first ones. -/
private theorem filter_places {entries : List (Die × Nat)} (nodup : (entries.map Prod.snd).Nodup)
    (n : Nat) :
    let first := (entries.take n).map Prod.snd
    (entries.filter fun entry => first.contains entry.2) = entries.take n ∧
      (entries.filter fun entry => !first.contains entry.2) = entries.drop n := by
  intro first
  -- The places are all different, so the first ones are not found again behind.
  have inside : ∀ entry ∈ entries.take n, first.contains entry.2 = true :=
    fun entry hentry => List.contains_iff_mem.mpr (List.mem_map_of_mem hentry)
  have outside : ∀ entry ∈ entries.drop n, first.contains entry.2 = false := by
    intro entry hentry
    rw [← List.take_append_drop n entries, List.map_append] at nodup
    have apart := List.disjoint_of_nodup_append nodup
    rw [Bool.eq_false_iff]
    exact fun found => apart (List.contains_iff_mem.mp found) (List.mem_map_of_mem hentry)
  -- The list is cut behind the first entries, and each part is kept or lost as a whole.
  have split (p : Die × Nat → Bool) : entries.filter p =
      (entries.take n).filter p ++ (entries.drop n).filter p := by
    rw [← List.filter_append, List.take_append_drop]
  constructor
  · rw [split, List.filter_eq_self.mpr inside, List.filter_eq_nil_iff.mpr, List.append_nil]
    exact fun entry hentry => by rw [outside entry hentry]; exact Bool.false_ne_true
  · rw [split, List.filter_eq_nil_iff.mpr, List.filter_eq_self.mpr, List.nil_append]
    · exact fun entry hentry => by rw [outside entry hentry]; rfl
    · exact fun entry hentry => by rw [inside entry hentry]; exact Bool.false_ne_true

/-- The faces of the dice that count and whose places are among the selected ones, or not. -/
private theorem live_entries_perm (highest : Bool) (amount : Int) (dice : List Die) :
    let selected := selection highest amount dice
    let entries := dice.zipIdx.filter fun entry => !entry.1.dropped
    ((entries.filter fun entry => selected.contains entry.2).map fun entry => entry.1.face).Perm
        ((byRank highest (liveFaces dice)).take amount.toNat) ∧
      ((entries.filter fun entry => !selected.contains entry.2).map fun entry =>
        entry.1.face).Perm ((byRank highest (liveFaces dice)).drop amount.toNat) := by
  intro selected entries
  obtain ⟨first, others⟩ := filter_places (nodup_ranked highest dice) amount.toNat
  rw [← selection_eq_take] at first others
  have perm : entries.Perm (ranked highest dice) := (List.mergeSort_perm entries _).symm
  rw [← face_ranked, ← List.map_take, ← List.map_drop, ← first, ← others]
  exact ⟨(perm.filter _).map _, (perm.filter _).map _⟩

/-- Dice are marked by their places: those that count afterwards counted before. -/
private theorem liveFaces_marked {mark : Die × Nat → Die} {spared : Die × Nat → Bool}
    (face : ∀ entry, (mark entry).face = entry.1.face)
    (counts : ∀ entry, (!(mark entry).dropped) = (spared entry && !entry.1.dropped)) :
    liveFaces (dice.zipIdx.map mark) =
      ((dice.zipIdx.filter fun entry => !entry.1.dropped).filter spared).map
        fun entry => entry.1.face := by
  unfold liveFaces
  rw [List.filter_map, List.map_map, List.filter_filter]
  have same : (fun die : Die => !die.dropped) ∘ mark =
      fun entry => spared entry && !entry.1.dropped := funext counts
  rw [same]
  exact List.map_congr_left fun entry _ => face entry

/-- After keeping, the first faces by rank count. -/
theorem liveFaces_keep (highest : Bool) (amount : Int) (dice : List Die) :
    (liveFaces (keep highest amount dice)).Perm
      ((byRank highest (liveFaces dice)).take amount.toNat) := by
  refine .trans (.of_eq (liveFaces_marked ?_ ?_)) (live_entries_perm highest amount dice).1
  · intro entry
    split <;> rfl
  · intro entry
    cases dropped : entry.1.dropped <;> simp [dropped]

/-- After dropping, the faces behind the first ones by rank count. -/
theorem liveFaces_drop (highest : Bool) (amount : Int) (dice : List Die) :
    (liveFaces (drop highest amount dice)).Perm
      ((byRank highest (liveFaces dice)).drop amount.toNat) := by
  refine .trans (.of_eq (liveFaces_marked ?_ ?_)) (live_entries_perm highest amount dice).2
  · intro entry
    split <;> rfl
  · intro entry
    cases (selection highest amount dice).contains entry.2 <;> simp

/-- Sorting dice rearranges their faces. -/
theorem liveFaces_sort (descending : Bool) (dice : List Die) :
    (liveFaces (sort descending dice)).Perm (liveFaces dice) :=
  ((List.mergeSort_perm dice _).filter _).map _

end DiceNotation.Roll

/-! ## Dice as nodes -/

namespace DiceNotation.Dice

/-- The faces of the dice that count. -/
def liveFaces (dice : List Node) : List Int := Roll.liveFaces (dice.map Die.ofNode)

variable {dice dice' : List Node}

/-- Each live die has one face. -/
theorem length_liveFaces (dice : List Node) : (liveFaces dice).length = (live dice).length := by
  unfold liveFaces Roll.liveFaces
  rw [← ofNode_live, List.length_map, List.length_map]

/-- The total depends on the live faces, in any order. -/
theorem total_eq_of_perm (h : (liveFaces dice).Perm (liveFaces dice')) : total dice = total dice' :=
  h.sum_eq

/-- What counts after keeping or dropping are some of the faces that counted before, by rank. -/
theorem liveFaces_select (keep highest : Bool) (amount : Int) (faces : ∀ die ∈ dice, die.IsDie) :
    let ranked := Roll.byRank highest (liveFaces dice)
    (liveFaces ((if keep then Dice.keep else Dice.drop) highest amount dice)).Perm
      (if keep then ranked.take amount.toNat else ranked.drop amount.toNat) := by
  cases keep with
  | true =>
    have kept := Roll.liveFaces_keep highest amount (dice.map Die.ofNode)
    rw [← keep_ofNode highest amount faces] at kept
    exact kept
  | false =>
    have left := Roll.liveFaces_drop highest amount (dice.map Die.ofNode)
    rw [← drop_ofNode highest amount faces] at left
    exact left

-- The same faces in another order: another die is dropped, and the same face counts.
example :
    let kept (faces : List Int) := Dice.keep true 1 (faces.map (Dice.die (.int 6)))
    (kept [5, 3, 5]).map Node.isDropped = [false, true, true] ∧
      (kept [3, 5, 5]).map Node.isDropped = [true, false, true] := by
  constructor <;> cbv

/-- Sorting the nodes of dice rearranges their faces. -/
theorem liveFaces_order (descending : Bool) (faces : ∀ die ∈ dice, die.IsDie) :
    (liveFaces (Dice.sort descending dice)).Perm (liveFaces dice) := by
  unfold liveFaces
  rw [sort_ofNode descending faces]
  exact Roll.liveFaces_sort descending _

/-- Marking critical dice leaves all faces as they are. -/
theorem liveFaces_markCritical (c : Condition) (kind : Value) (dice : List Node) :
    liveFaces (markCritical c kind dice) = liveFaces dice := by
  unfold liveFaces
  rw [markCritical_ofNode]

end DiceNotation.Dice
