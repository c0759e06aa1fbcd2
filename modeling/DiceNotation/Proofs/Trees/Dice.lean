import DiceNotation.Proofs.Semantics.DiceNodes

/-! # What modifiers leave of the dice

A modifier marks dice, gives them other faces, puts them in order and adds thrown ones; it does
nothing else to them.  So a property of dice that is `Kept` by each of these holds of all dice of a
roll, whatever modifiers stand on it.  A property that holds of some faces only is `KeptWithin`
these faces: it holds of all dice if no other faces are drawn.

* `Kept`          the property is kept, whatever is drawn
* `KeptWithin`    the property is kept as long as certain faces are drawn
* `Dice.total`    the sum of the dice that count, which is the value of a roll
* `IsDiceRoll`    the shape of the dice of a roll, which is kept -/

namespace DiceNotation

/-- The sum of the faces of the dice that count. -/
def Dice.total (dice : List Node) : Int := Roll.total (dice.map Die.ofNode)

/-- The marks that modifiers put on dice. -/
def Dice.marks : List String := ["drop", "explode", "critical", "rerolled"]

/-- Every die that is thrown or rolled again and shows one of these faces has the property, and no
    mark takes it away. -/
structure KeptWithin (shown : Int → Prop) (P : Node → Prop) : Prop where
  thrown : ∀ sides face, shown face → P (Dice.die sides face)
  again : ∀ {die : Node} (face : Int), shown face → P die → P (die.set "value" (.int face))
  mark : ∀ {die : Node} (key : String) (value : Value), key ∈ Dice.marks → P die →
    P (die.set key value)

/-- Every thrown die has the property, and neither a mark nor another face takes it away. -/
structure Kept (P : Node → Prop) : Prop where
  thrown : ∀ sides face, P (Dice.die sides face)
  set : ∀ {die : Node} (key : String) (value : Value), P die →
    (key = "value" → ∃ face : Int, value = .int face) → P (die.set key value)

namespace Kept

variable {P : Node → Prop}

/-- A mark takes nothing away. -/
theorem mark (kept : Kept P) {die : Node} (h : P die) {key : String} (value : Value)
    (mark : key ≠ "value") : P (die.set key value) :=
  kept.set key value h fun same => absurd same mark

/-- What is kept by whatever is drawn is kept within all faces. -/
theorem within (kept : Kept P) : KeptWithin (fun _ => True) P where
  thrown sides face _ := kept.thrown sides face
  again face _ h := kept.set "value" (.int face) h fun _ => ⟨face, rfl⟩
  mark key value isMark h := by
    apply kept.mark h
    rintro rfl
    simp [Dice.marks] at isMark

end Kept

/-! ## Exploding and rolling again -/

namespace Dice

/-- Every face of a chain was drawn. -/
private theorem mem_chain {c : Condition} {draw : Draw} {budget drawn : Nat} {value : Option Value}
    {face : Int} (h : face ∈ (chain c draw budget drawn value).1) : ∃ k, face = draw k := by
  induction budget generalizing drawn value with
  | zero => cases h
  | succ budget ih =>
    unfold chain at h
    split at h
    · rcases List.mem_cons.mp h with rfl | later
      · exact ⟨drawn, rfl⟩
      · exact ih later
    · cases h

/-- The dice after an explosion are the old ones and extra dice, which only old ones bring. -/
theorem mem_explode {c : Condition} {draw : Draw} {extra : Int → Node} {budget drawn : Nat}
    {dice : List Node} {die : Node} (h : die ∈ (explode c draw extra budget drawn dice).dice) :
    die ∈ dice ∨ dice ≠ [] ∧ ∃ k, die = extra (draw k) := by
  -- A die is the first one, one of its chain, or among those behind it.
  induction dice generalizing budget drawn with
  | nil => exact .inl h
  | cons first others ih =>
    have behind : die ∈ others ∨ others ≠ [] ∧ (∃ k, die = extra (draw k)) →
        die ∈ first :: others ∨ first :: others ≠ [] ∧ ∃ k, die = extra (draw k) := by
      rintro (old | ⟨-, new⟩)
      · exact .inl (List.mem_cons_of_mem _ old)
      · exact .inr ⟨List.cons_ne_nil _ _, new⟩
    unfold explode at h
    by_cases dropped : first.isDropped
    · simp only [dropped, if_true] at h
      rcases List.mem_cons.mp h with rfl | later
      · exact .inl List.mem_cons_self
      · exact behind (ih later)
    · simp only [dropped, Bool.false_eq_true, if_false] at h
      have answered : ∀ face ∈ (chain c draw budget drawn first.value?).1, ∃ k, face = draw k :=
        fun _ => mem_chain
      generalize chain c draw budget drawn first.value? = chain at h answered
      have shown : die ∈ first :: chain.1.map extra →
          die ∈ first :: others ∨ first :: others ≠ [] ∧ ∃ k, die = extra (draw k) := by
        intro here
        rcases List.mem_cons.mp here with rfl | new
        · exact .inl List.mem_cons_self
        · obtain ⟨face, hface, rfl⟩ := List.mem_map.mp new
          obtain ⟨k, rfl⟩ := answered face hface
          exact .inr ⟨List.cons_ne_nil _ _, k, rfl⟩
      -- The extra dice stand behind the die they come from; what follows depends on the budget.
      by_cases cut : chain.2
      · simp only [cut, if_true] at h
        rcases List.mem_append.mp h with here | later
        · exact shown here
        · exact behind (.inl later)
      · simp only [cut, Bool.false_eq_true, if_false] at h
        rcases List.mem_append.mp h with here | later
        · exact shown here
        · exact behind (ih later)

end Dice

namespace KeptWithin

variable {shown : Int → Prop} {P : Node → Prop} {dice : List Node}

/-- Fresh dice have the property if every face drawn may be shown. -/
theorem fresh (kept : KeptWithin shown P) (sides : Value) {draw : Draw}
    (drawn : ∀ k, shown (draw k)) (count : Nat) : ∀ die ∈ Dice.fresh sides draw count, P die := by
  intro die hdie
  obtain ⟨k, -, rfl⟩ := List.mem_map.mp hdie
  exact kept.thrown sides (draw k) (drawn k)

/-- An extra die has the property if the face it counts may be shown. -/
theorem extraDie (kept : KeptWithin shown P) (sides : Value) {penetrating : Bool} {face : Int}
    (h : shown (if penetrating then face - 1 else face)) :
    P (Dice.extraDie sides penetrating face) :=
  kept.mark _ _ (by simp [Dice.marks]) (kept.thrown sides _ h)

/-- Dice and extra dice have the property after they explode. -/
theorem explode (kept : KeptWithin shown P) (c : Condition) {draw : Draw} (sides : Value)
    {penetrating : Bool}
    (faces : dice ≠ [] → ∀ k, shown (if penetrating then draw k - 1 else draw k))
    (budget drawn : Nat) (h : ∀ die ∈ dice, P die) :
    ∀ die ∈ (Dice.explode c draw (Dice.extraDie sides penetrating) budget drawn dice).dice,
      P die := by
  intro die hdie
  rcases Dice.mem_explode hdie with old | ⟨present, k, rfl⟩
  · exact h die old
  · exact kept.extraDie sides (faces present k)

/-- A die that was rolled again shows a face that was drawn. -/
theorem rerollValue_face (c : Condition) (draw : Draw) (once : Bool) (budget drawn : Nat)
    (value : Option Value) :
    (Dice.rerollValue c draw once budget drawn value).count = 0 ∨
      ∃ k, (Dice.rerollValue c draw once budget drawn value).value = some (.int (draw k)) := by
  -- What is shown in the end was drawn last.
  induction budget generalizing drawn value with
  | zero => exact .inl rfl
  | succ budget ih =>
    unfold Dice.rerollValue
    by_cases due : c.holds value
    · simp only [due, if_true]
      cases once with
      | true => exact .inr ⟨drawn, rfl⟩
      | false =>
        rcases ih (drawn + 1) (some (.int (draw drawn))) with unchanged | ⟨k, shown⟩
        · -- The face drawn first stays.
          right
          refine ⟨drawn, ?_⟩
          cases budget with
          | zero => rfl
          | succ budget =>
            unfold Dice.rerollValue at unchanged ⊢
            by_cases again : c.holds (some (.int (draw drawn)))
            · simp [again] at unchanged
            · simp only [again]
              rfl
        · exact .inr ⟨k, shown⟩
    · simp only [due]
      exact .inl rfl

/-- A die that was rolled again, or was not, has the property. -/
theorem applyTo (kept : KeptWithin shown P) {draw : Draw} (faces : ∀ k, shown (draw k))
    {die : Node} (h : P die) {rerolled : Dice.RerolledDie}
    (shows : rerolled.count = 0 ∨ ∃ k, rerolled.value = some (.int (draw k))) :
    P (rerolled.applyTo die) := by
  obtain ⟨value, count, capped⟩ := rerolled
  rcases shows with none | ⟨k, drawn⟩
  · simp only at none
    subst none
    exact h
  · simp only at drawn
    subst drawn
    cases count with
    | zero => exact h
    | succ count =>
      exact kept.mark _ _ (by simp [Dice.marks]) (kept.again (draw k) (faces k) h)

/-- Dice have the property after they are rolled again. -/
theorem reroll (kept : KeptWithin shown P) (c : Condition) {draw : Draw}
    (faces : dice ≠ [] → ∀ k, shown (draw k)) (once : Bool) (budget drawn : Nat)
    (h : ∀ die ∈ dice, P die) :
    ∀ die ∈ (Dice.reroll c draw once budget drawn dice).dice, P die := by
  -- Each die is kept as it is or shows another face; how many were drawn before does not matter.
  induction dice generalizing drawn with
  | nil => intro die hdie; cases hdie
  | cons first others ih =>
    have faces := faces (List.cons_ne_nil _ _)
    have ih := ih fun _ => faces
    obtain ⟨head, tail⟩ := List.forall_mem_cons.mp h
    unfold Dice.reroll
    by_cases dropped : first.isDropped
    · simp only [dropped, if_true]
      exact List.forall_mem_cons.mpr ⟨head, ih drawn tail⟩
    · simp only [dropped, Bool.false_eq_true, if_false]
      refine List.forall_mem_cons.mpr ⟨kept.applyTo faces head ?_, ih _ tail⟩
      exact rerollValue_face c draw once budget drawn first.value?

/-! ## Ranking and marking -/

/-- Dice that are dropped for others to be kept have the property still. -/
theorem keep (kept : KeptWithin shown P) (highest : Bool) (amount : Int)
    (h : ∀ die ∈ dice, P die) : ∀ die ∈ Dice.keep highest amount dice, P die := by
  intro die hdie
  obtain ⟨entry, hentry, rfl⟩ := List.mem_map.mp hdie
  have old := h entry.1 (List.fst_mem_of_mem_zipIdx hentry)
  by_cases dropped : entry.1.isDropped
  · simp only [dropped, if_true]
    exact old
  · simp only [dropped, Bool.false_eq_true, if_false]
    exact kept.mark _ _ (by simp [Dice.marks]) old

/-- Dice that are dropped have the property still. -/
theorem drop (kept : KeptWithin shown P) (highest : Bool) (amount : Int)
    (h : ∀ die ∈ dice, P die) : ∀ die ∈ Dice.drop highest amount dice, P die := by
  intro die hdie
  obtain ⟨entry, hentry, rfl⟩ := List.mem_map.mp hdie
  have old := h entry.1 (List.fst_mem_of_mem_zipIdx hentry)
  split
  · exact kept.mark _ _ (by simp [Dice.marks]) old
  · exact old

/-- Dice that are marked as critical have the property still. -/
theorem markCritical (kept : KeptWithin shown P) (c : Condition) (kind : Value)
    (h : ∀ die ∈ dice, P die) : ∀ die ∈ Dice.markCritical c kind dice, P die := by
  intro die hdie
  obtain ⟨old, hold, rfl⟩ := List.mem_map.mp hdie
  split
  · exact kept.mark _ _ (by simp [Dice.marks]) (h old hold)
  · exact h old hold

end KeptWithin

namespace Kept

variable {P : Node → Prop} {dice : List Node}

/-- Fresh dice have a property of all thrown dice. -/
theorem fresh (kept : Kept P) (sides : Value) (draw : Draw) (count : Nat) :
    ∀ die ∈ Dice.fresh sides draw count, P die :=
  kept.within.fresh sides (fun _ => trivial) count

/-- Dice and extra dice keep a property of all thrown dice when they explode. -/
theorem explode (kept : Kept P) (c : Condition) (draw : Draw) (sides : Value)
    (penetrating : Bool) (budget drawn : Nat) (h : ∀ die ∈ dice, P die) :
    ∀ die ∈ (Dice.explode c draw (Dice.extraDie sides penetrating) budget drawn dice).dice,
      P die :=
  kept.within.explode c sides (fun _ _ => trivial) budget drawn h

/-- Dice keep a property of all thrown dice when they are rolled again. -/
theorem reroll (kept : Kept P) (c : Condition) (draw : Draw) (once : Bool) (budget drawn : Nat)
    (h : ∀ die ∈ dice, P die) :
    ∀ die ∈ (Dice.reroll c draw once budget drawn dice).dice, P die :=
  kept.within.reroll c (fun _ _ => trivial) once budget drawn h

/-- Dice keep a property of all thrown dice when some of them are kept. -/
theorem keep (kept : Kept P) (highest : Bool) (amount : Int) (h : ∀ die ∈ dice, P die) :
    ∀ die ∈ Dice.keep highest amount dice, P die :=
  kept.within.keep highest amount h

/-- Dice keep a property of all thrown dice when some of them are dropped. -/
theorem drop (kept : Kept P) (highest : Bool) (amount : Int) (h : ∀ die ∈ dice, P die) :
    ∀ die ∈ Dice.drop highest amount dice, P die :=
  kept.within.drop highest amount h

/-- Sorted dice are the dice there were. -/
theorem sort (descending : Bool) (h : ∀ die ∈ dice, P die) :
    ∀ die ∈ Dice.sort descending dice, P die :=
  fun die hdie => h die ((Dice.sort_perm descending dice).mem_iff.mp hdie)

/-- Dice keep a property of all thrown dice when some are marked as critical. -/
theorem markCritical (kept : Kept P) (c : Condition) (kind : Value) (h : ∀ die ∈ dice, P die) :
    ∀ die ∈ Dice.markCritical c kind dice, P die :=
  kept.within.markCritical c kind h

end Kept

/-! ## The shape of dice -/

/-- A die of a roll: it shows a face and has no children. -/
structure Node.IsDiceRoll (die : Node) : Prop where
  kind : die.kind = .diceRoll
  leaf : die.children = []
  face : die.IsDie

/-- Thrown dice show a face, and neither a mark nor another face takes it away. -/
theorem kept_isDie : Kept Node.IsDie where
  thrown sides face := isDie_die sides face
  set key value h shown := by
    by_cases isValue : key = "value"
    · obtain ⟨face, rfl⟩ := shown isValue
      subst isValue
      exact isDie_set_value _ face
    · exact h.set value isValue

/-- Thrown dice are leaves that show a face, and stay so. -/
theorem kept_isDiceRoll : Kept Node.IsDiceRoll where
  thrown sides face := ⟨rfl, rfl, isDie_die sides face⟩
  set key value h shown := ⟨h.kind, h.leaf, kept_isDie.set key value h.face shown⟩

end DiceNotation
