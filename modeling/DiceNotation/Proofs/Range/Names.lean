import DiceNotation.Proofs.Derivation
import DiceNotation.Proofs.Range.Lenient

/-! # Functions that are not known

The only refusal of an evaluation is that of a function that is not there
(`safe_named_meaning`).  Its name is a word of the text that the expression was read from
(`names_subset_of_accepts`). -/

namespace DiceNotation

open DiceNotation.Expr (Sides Bound Step)
open Grammar (Phrase Derives Letters Accepts)

namespace Expr

mutual

/-- The names of the functions that an expression calls. -/
def names : Expr → List String
  | literal _ => []
  | roll count _ _ => count.names
  | negate operand => operand.names
  | binary _ left right => left.names ++ right.names
  | compare _ left right => left.names ++ right.names
  | call name arguments => name :: namesAll arguments
  | group members _ => namesAll members

/-- The names of the functions that several expressions call. -/
def namesAll : List Expr → List String
  | [] => []
  | e :: es => e.names ++ namesAll es

end

/-- The names in an expression are among those of the expressions it is one of. -/
private theorem names_subset_namesAll {e : Expr} {es : List Expr} (h : e ∈ es) :
    e.names ⊆ namesAll es := by
  induction es with
  | nil => cases h
  | cons first es ih =>
    rw [namesAll]
    rcases List.mem_cons.mp h with rfl | h
    · exact List.subset_append_left ..
    · exact List.subset_append_of_subset_right _ (ih h)

/-- The names in two lists of expressions are those of both. -/
private theorem namesAll_append (es es' : List Expr) :
    namesAll (es ++ es') = namesAll es ++ namesAll es' := by
  induction es with
  | nil => rfl
  | cons e es ih => rw [List.cons_append, namesAll, namesAll, ih, List.append_assoc]

end Expr

/-! ## Refusals -/

namespace Sem

/-- If the fault is a refusal, it is that of a function that is not there, of one of these
    names. -/
def Named (names : List String) (e : Fault) : Prop :=
  e.isRefusal = true →
    ∃ name ∈ names, function? name = none ∧ e = .unknownFunction (some (.text name))

/-- A fault of numbers is no refusal. -/
private theorem lenient_named (names : List String) : Lenient (Named names) :=
  ⟨fun _ => nofun, nofun⟩

/-- Passes over a group name no other function than a pass. -/
private theorem named_sumPasses {names : List String} {pass : Number → Sem (Number × List Number)}
    (h : ∀ sum trace, Safe (Named names) (pass sum) trace) (times : Nat) (sum : Number)
    (trace : Trace) : Safe (Named names) (sumPasses pass times sum) trace := by
  induction times generalizing sum trace with
  | zero => exact safe_pure _
  | succ times ih =>
    rw [sumPasses, safe_bind]
    refine ⟨h sum trace, after_trivial fun result trace => ?_⟩
    rw [safe_bind]
    exact ⟨ih _ trace, after_trivial fun _ _ => safe_pure _⟩

end Sem

open Sem

section

variable {limits : Limits} {source : Source} {names : List String}

/-- Modifiers name no function. -/
private theorem named_modify {faces : Faces} (steps : List Step) (dice : List Die) (trace : Trace) :
    Safe (Named names) (Roll.modify limits source faces steps dice) trace := by
  unfold Roll.modify
  induction steps generalizing dice trace with
  | nil => exact safe_pure _
  | cons step steps ih =>
    rw [List.foldlM_cons, safe_bind]
    exact ⟨(lenient_named names).transform step dice trace,
      after_trivial fun dice trace => ih dice trace⟩

/-- A call of a function is refused only if the function is not there. -/
private theorem named_call {name : String} (inside : name ∈ names) {arguments : List Expr}
    (h : ∀ e ∈ arguments, ∀ trace, Safe (Named names) (meaning limits source e) trace)
    (trace : Trace) : Safe (Named names) (meaning limits source (.call name arguments)) trace := by
  have lenient := lenient_named names
  rw [meaning]
  split
  · next unknown =>
    -- An unknown function is refused before its arguments are looked at.
    intro e trace' same refused
    cases same
    exact ⟨name, inside, unknown, rfl⟩
  · next f known =>
    rw [safe_bind]
    refine ⟨?_, after_trivial fun _ _ => safe_pure _⟩
    unfold meaningOfOnly
    split
    · next argument =>
      rw [applyTo, safe_bind]
      exact ⟨h argument List.mem_cons_self trace,
        after_trivial fun m trace => lenient.function known m.value⟩
    · -- With another number of arguments than one, none is evaluated.
      exact lenient.report _ _

/-- A sum of members names no other function than the members. -/
private theorem named_addMembers {members : List Expr}
    (h : ∀ e ∈ members, ∀ trace, Safe (Named names) (meaning limits source e) trace)
    (sum : Number) (trace : Trace) :
    Safe (Named names) (addMembers limits source members sum) trace := by
  -- The sum is carried along, so that the statement has to hold for every one.
  induction members generalizing sum trace with
  | nil =>
    rw [addMembers]
    exact safe_pure _
  | cons member members ih =>
    have ih := ih fun e he => h e (List.mem_cons_of_mem _ he)
    rw [addMembers, safe_bind]
    refine ⟨h member List.mem_cons_self trace, after_trivial fun m trace => ?_⟩
    dsimp only
    rw [safe_bind]
    refine ⟨(lenient_named names).demand _, after_trivial fun total trace => ?_⟩
    rw [safe_bind]
    exact ⟨ih total trace, after_trivial fun _ _ => safe_pure _⟩

/-- A group names no other function than its members. -/
private theorem named_sumGroup {members : List Expr} (repeats : Option Nat)
    (h : ∀ e ∈ members, ∀ trace, Safe (Named names) (meaning limits source e) trace)
    (trace : Trace) :
    Safe (Named names) (sumGroup limits repeats (addMembers limits source members)) trace := by
  by_cases excess : ∃ times ∈ repeats, ∃ limit ∈ limits.maxRolls, limit < times
  · obtain ⟨times, rfl, limit, hlimit, above⟩ := excess
    rw [sumGroup_above hlimit above]
    exact (lenient_named names).report _ _
  · have within : ∀ times ∈ repeats, ∀ limit ∈ limits.maxRolls, times ≤ limit := by
      intro times given limit limited
      by_contra above
      exact excess ⟨times, given, limit, limited, Nat.not_le.mp above⟩
    rw [sumGroup_within within, safe_bind]
    exact ⟨named_sumPasses (named_addMembers h) _ _ trace, after_trivial fun _ _ => safe_pure _⟩

/-- The only refusal of an evaluation is that of a function that is not there. -/
theorem safe_named_meaning (e : Expr) (h : e.names ⊆ names) (trace : Trace) :
    Safe (Named names) (meaning limits source e) trace := by
  have lenient := lenient_named names
  -- Each part of a construct is safe by induction, and what is done with its value is lenient.
  induction e generalizing trace with
  | literal n =>
    rw [meaning]
    exact safe_pure _
  | roll count sides steps ih =>
    rw [Expr.names] at h
    rw [meaning, safe_bind]
    refine ⟨ih h trace, after_trivial fun m trace => ?_⟩
    rw [safe_bind]
    refine ⟨lenient.demand _, after_trivial fun times trace => ?_⟩
    rw [safe_bind]
    refine ⟨lenient.sideCount sides trace, after_trivial fun sides trace => ?_⟩
    rw [safe_bind]
    refine ⟨lenient.start times sides trace, after_trivial fun dice trace => ?_⟩
    rw [safe_bind]
    exact ⟨named_modify steps dice trace, after_trivial fun _ _ => safe_pure _⟩
  | negate operand ih =>
    rw [Expr.names] at h
    rw [meaning, safe_bind]
    exact ⟨ih h trace, after_trivial fun _ _ => safe_pure _⟩
  | binary op left right ih ih' =>
    rw [Expr.names, List.append_subset] at h
    rw [meaning, safe_bind]
    refine ⟨ih h.1 trace, after_trivial fun a trace => ?_⟩
    rw [safe_bind]
    refine ⟨ih' h.2 trace, after_trivial fun b trace => ?_⟩
    rw [safe_bind]
    exact ⟨lenient.operate op _ _, after_trivial fun _ _ => safe_pure _⟩
  | compare op left right ih ih' =>
    rw [Expr.names, List.append_subset] at h
    rw [meaning, safe_bind]
    refine ⟨ih h.1 trace, after_trivial fun tested trace => ?_⟩
    split
    · exact safe_pure _
    · rw [safe_bind]
      exact ⟨ih' h.2 trace, after_trivial fun _ _ => safe_pure _⟩
  | call name arguments ih =>
    rw [Expr.names, List.cons_subset] at h
    -- The name of a call is among the names, and so are those in its arguments.
    apply named_call h.1
    intro e he
    exact ih e he (List.Subset.trans (Expr.names_subset_namesAll he) h.2)
  | group members repeats ih =>
    rw [Expr.names] at h
    rw [meaning]
    apply named_sumGroup
    intro e he
    exact ih e he (List.Subset.trans (Expr.names_subset_namesAll he) h)

end

/-! ## Names are words of the text -/

/-- The words among tokens. -/
def words (tokens : List Token) : List String :=
  (tokens.filter fun token => token.kind == .identifier).map Token.text

/-- The names that a phrase goes on with. -/
def Grammar.Phrase.names : Phrase → List String
  | .sum before | .product before => before.names
  | .arguments name before => name :: Expr.namesAll before
  | .members before => Expr.namesAll before
  | _ => []

/-- Whether a phrase begins behind the first token, which is one that it goes on with. -/
def Grammar.Phrase.continues : Phrase → Bool
  | .sum _ | .product _ | .arguments _ _ | .members _ => true
  | _ => false

/-- Where a phrase finds its names: behind the first token, if it goes on with others. -/
def Grammar.Phrase.inner (phrase : Phrase) (tokens : List Token) : List Token :=
  if phrase.continues then tokens.tail else tokens

/-- Fewer tokens have fewer words. -/
private theorem words_subset {tokens tokens' : List Token} (h : tokens ⊆ tokens') :
    words tokens ⊆ words tokens' :=
  List.map_subset _ (List.filter_subset _ h)

/-- A word in front is among the words. -/
private theorem mem_words {name : Token} (kind : name.kind = .identifier) (tokens : List Token) :
    name.text ∈ words (name :: tokens) := by
  refine List.mem_map_of_mem (List.mem_filter.mpr ⟨List.mem_cons_self, ?_⟩)
  rw [kind]
  rfl

/-- Only the first token of what is left can be new, the end of a word. -/
private theorem Behind.tail_subset {tokens rest : List Token} (h : Behind tokens rest) :
    rest.tail ⊆ tokens.tail := by
  induction h with
  | refl => exact List.Subset.refl _
  | take _ _ ih => exact List.Subset.trans ih (List.tail_subset _)
  | cut _ _ _ _ ih => exact ih

/-- A part is found, and a phrase goes on with it. -/
private theorem names_subset (before : List String) {first found : List String}
    {tokens mid : List Token} (hfirst : first ⊆ words tokens) (behind : Behind tokens mid)
    (hfound : found ⊆ (before ++ first) ++ words mid.tail) : found ⊆ before ++ words tokens := by
  have rest : words mid.tail ⊆ words tokens :=
    words_subset (List.Subset.trans behind.tail_subset (List.tail_subset _))
  refine List.Subset.trans hfound (List.append_subset.mpr ⟨List.append_subset.mpr ⟨?_, ?_⟩, ?_⟩)
  · exact List.subset_append_left ..
  · exact List.subset_append_of_subset_right _ hfirst
  · exact List.subset_append_of_subset_right _ rest

/-- The names in one expression. -/
private theorem namesAll_singleton (e : Expr) : Expr.namesAll [e] = e.names := by
  rw [Expr.namesAll, Expr.namesAll, List.append_nil]

/-- The functions that an expression names are words of its tokens. -/
private theorem names_subset_of_derives {phrase : Phrase} {tokens rest : List Token} {e : Expr}
    (h : Derives phrase tokens e rest) : e.names ⊆ phrase.names ++ words (phrase.inner tokens) := by
  -- What is found among the later words is found among all of them.
  have skip : ∀ {found : List String} {token : Token} {tokens : List Token},
      found ⊆ words tokens → found ⊆ words (token :: tokens) :=
    fun h => List.Subset.trans h (words_subset (List.subset_cons_self ..))
  have behind : ∀ {phrase : Phrase} {found : List String} {tokens mid : List Token} {sign : Token}
      {e : Expr}, Derives phrase tokens e (sign :: mid) → found ⊆ words mid →
        found ⊆ words tokens := by
    intro phrase found tokens mid sign e h hfound
    have rest := (behind_of_derives h).tail_subset
    exact List.Subset.trans hfound
      (words_subset (List.Subset.trans rest (List.tail_subset tokens)))
  -- A name is a word that the phrase reads itself, or that one of its parts reads later on.
  induction h with
  | single _ _ ih => exact ih
  | compare first _ second ih ih' => exact List.append_subset.mpr ⟨ih, behind first ih'⟩
  | unsigned term _ ih ih' => exact names_subset [] ih (behind_of_derives term) ih'
  | positive _ term _ ih ih' =>
    exact skip (names_subset [] ih (behind_of_derives term) ih')
  | negative _ term _ ih ih' =>
    exact skip (names_subset [] ih (behind_of_derives term) ih')
  | sumEnd _ => exact List.subset_append_left ..
  | sumMore _ term _ ih ih' => exact names_subset _ ih (behind_of_derives term) ih'
  | term power _ ih ih' => exact names_subset [] ih (behind_of_derives power) ih'
  | productEnd _ => exact List.subset_append_left ..
  | productMore _ power _ ih ih' => exact names_subset _ ih (behind_of_derives power) ih'
  | base _ _ ih => exact ih
  | exponent factor _ _ ih ih' => exact List.append_subset.mpr ⟨ih, behind factor ih'⟩
  | integer _ _ => exact List.nil_subset _
  | integerDice _ _ _ => exact List.nil_subset _
  | dice _ _ => exact List.nil_subset _
  | parentheses _ _ _ _ ih => exact skip ih
  | parenthesesDice _ _ _ _ _ ih => exact skip ih
  | emptyCall kind _ _ _ =>
    exact List.cons_subset.mpr ⟨mem_words kind _, List.nil_subset _⟩
  | call kind _ _ argument _ ih ih' =>
    -- The first argument has been read when the list of arguments goes on.
    rw [Phrase.names, namesAll_singleton, ← List.singleton_append] at ih'
    have inside := names_subset _ ih (behind_of_derives argument) ih'
    refine List.Subset.trans inside (List.append_subset.mpr ⟨?_, skip (skip (List.Subset.refl _))⟩)
    exact List.cons_subset.mpr ⟨mem_words kind _, List.nil_subset _⟩
  | callEnd _ => exact List.subset_append_left ..
  | callMore _ next _ ih ih' =>
    rw [Phrase.names, Expr.namesAll_append, namesAll_singleton, ← List.cons_append] at ih'
    exact names_subset _ ih (behind_of_derives next) ih'
  | emptyGroup _ _ _ => exact List.nil_subset _
  | group _ member _ ih ih' =>
    rw [Phrase.names, namesAll_singleton] at ih'
    exact skip (names_subset [] ih (behind_of_derives member) ih')
  | groupEnd _ _ => exact List.subset_append_left ..
  | groupMore _ next _ ih ih' =>
    rw [Phrase.names, Expr.namesAll_append, namesAll_singleton] at ih'
    exact names_subset _ ih (behind_of_derives next) ih'

/-- The functions that an expression calls are named by words of the text. -/
theorem names_subset_of_accepts {tokens : List Token} {e : Expr} (h : Accepts tokens e) :
    e.names ⊆ words tokens := by
  obtain ⟨last, -, derives⟩ := h
  exact names_subset_of_derives derives

end DiceNotation
