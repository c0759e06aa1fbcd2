import DiceNotation.Proofs.Printing.RoundTrip
import DiceNotation.Proofs.Range.Names
import DiceNotation.Proofs.Semantics.Refinement
import DiceNotation.Roll

/-! # Texts that have a result

Rolling a text comes to a result, or calls a function that is not there, if and only if its
numerals can be read and its evaluation stays in range (`rollText_answers_iff`).  A count of dice
that is too large for a double is neither: it is rounded before the limits are looked at. -/

namespace DiceNotation

open DiceNotation.Expr (Writable)
open Grammar (Accepts)
open Sem

variable {limits : Limits} {source : Source} {text : String} {e : Expr}

/-- Rolling the text has a result, or there is no function of a name that is a word of the text. -/
def Answers (limits : Limits) (source : Source) (text : String) : Prop :=
  (∃ result, (rollText ⟨limits, .default, source⟩ text).1 = .ok result) ∨
    ∃ name ∈ words (lex text), FunctionTable.default.get? name = none ∧
      (rollText ⟨limits, .default, source⟩ text).1 =
        .error (.evaluation (.unknownFunction (some (.text name))))

/-- The functions that are always there are the only ones that have a meaning. -/
private theorem default_get?_eq_none_iff (name : String) :
    FunctionTable.default.get? name = none ↔ function? name = none := by
  rcases default_get? name with ⟨label, f, g, known, known', -⟩ | ⟨unknown, unknown'⟩
  · simp [known, known']
  · simp [unknown, unknown']

/-- An interpretation has an outcome where the semantics has a meaning, and else the same fault. -/
private theorem interpret_of_meaning (limits : Limits) (source : Source) (e : Expr) :
    match meaning limits source e {} with
    | .ok _ _ => ∃ outcome, (interpret ⟨limits, .default, source⟩ e.toNode {}).1 = .ok outcome
    | .error fault _ => (interpret ⟨limits, .default, source⟩ e.toNode {}).1 = .error fault := by
  have observed := observe_interpret limits source e {}
  have started : (⟨[], ({} : Record).requests.toList⟩ : Trace) = {} := rfl
  rw [started] at observed
  change _ = EStateM.bind _ _ _ at observed
  unfold EStateM.bind at observed
  generalize interpret ⟨limits, .default, source⟩ e.toNode {} = result at observed ⊢
  generalize meaning limits source e {} = result' at observed ⊢
  -- Both sides end alike, as the observation of the one is the observation of the other.
  obtain ⟨fault | outcome, record⟩ := result <;> cases result' with
  | ok m trace => first | exact ⟨outcome, rfl⟩ | nomatch observed
  | error fault' trace =>
    first | (cases observed; rfl) | nomatch observed

/-- A text of an expression answers if and only if its evaluation stays in range. -/
private theorem answers_of_accepts (accepts : Accepts (lex text) e) :
    Answers limits source text ↔ InRange limits source e {} := by
  have read : parse text = .ok ⟨e.toNode, []⟩ := parse_of_accepts accepts
  have named : Safe (Named (words (lex text))) (meaning limits source e) {} :=
    safe_named_meaning e (names_subset_of_accepts accepts) {}
  have interpreted := interpret_of_meaning limits source e
  have rolled : (rollText ⟨limits, .default, source⟩ text).1 =
      ((interpret ⟨limits, .default, source⟩ e.toNode {}).1.map Outcome.toResult).mapError
        RollFault.evaluation := by
    unfold rollText
    rw [read]
    rfl
  rw [← safe_meaning (legible_of_accepts accepts), Answers, rolled]
  unfold Safe at named ⊢
  cases run : meaning limits source e {} with
  | ok m trace =>
    rw [run] at interpreted
    obtain ⟨outcome, interpreted⟩ := interpreted
    exact iff_of_true (.inl ⟨outcome.toResult, by rw [interpreted]; rfl⟩) nofun
  | error fault trace =>
    rw [run] at interpreted
    rw [interpreted]
    constructor
    · -- A function that is not there is a refusal.
      rintro (⟨result, impossible⟩ | ⟨name, -, -, same⟩) fault' trace' ⟨⟩
      · cases impossible
      · cases same
        rfl
    · -- The only refusal is that of a function that is not there.
      intro safe
      obtain ⟨name, word, unknown, rfl⟩ := named fault trace run (safe fault trace rfl)
      exact .inr ⟨name, word, (default_get?_eq_none_iff name).mpr unknown, rfl⟩

/-- Rolling a text has a result or calls a function that is not there if and only if its numerals
    can be read and, unless something is diagnosed, the evaluation of the expression that was read
    stays in range. -/
theorem rollText_answers_iff (limits : Limits) (source : Source) (text : String) :
    Answers limits source text ↔
      ∃ result, parse text = .ok result ∧
        (result.ok = true →
          ∃ e : Expr, result.root = e.toNode ∧ InRange limits source e {}) := by
  have spec := parse_spec text
  cases read : parse text with
  | error error =>
    -- There is no result, and the fault is not one of the evaluation.
    refine iff_of_false ?_ (by simp)
    unfold Answers rollText
    rw [read]
    rintro (⟨result, impossible⟩ | ⟨name, -, -, same⟩)
    · cases impossible
    · cases same
  | ok result =>
    rw [read] at spec
    obtain ⟨e, root, accepts⟩ := spec
    cases ok : result.ok with
    | false =>
      -- A text with diagnostics is answered by them and never evaluated.
      refine iff_of_true (.inl ⟨result.toResult, ?_⟩) ⟨result, rfl, by simp [ok]⟩
      unfold rollText ParseResult.roll
      simp [read, ok, Except.mapError]
    | true =>
      rw [answers_of_accepts (accepts ok)]
      constructor
      · exact fun inRange => ⟨result, rfl, fun _ => ⟨e, root, inRange⟩⟩
      · rintro ⟨result', ⟨⟩, inRange⟩
        -- A tree comes from one expression only.
        obtain ⟨e', root', inRange⟩ := inRange ok
        rw [root] at root'
        rwa [Expr.toNode_injective root']

/-- A number of dice that cannot be rounded leaves a roll without a result, whatever the limits. -/
private theorem not_answers_of_count {n : Nat} {sides : Expr.Sides}
    (legible : Writable n ∧ sides.Legible) (huge : ¬(Number.int n).Roundable) :
    ¬Answers limits source (String.ofList (Expr.roll (.literal n) sides []).text) := by
  have accepts := @accepts_text (.roll (.literal n) sides [])
    ⟨legible.1, legible.2, nofun⟩ rfl
  rw [answers_of_accepts accepts, InRange]
  exact fun inRange => huge (inRange.2 _ _ rfl).1

/-- So many dice cannot be rounded to an integer. -/
private theorem not_roundable_huge : ¬(Number.int (10 ^ 309 : Nat)).Roundable := by
  rintro ⟨k, hk⟩
  have fails : (Number.int (10 ^ 309 : Nat)).roundHalfUp.isOk = false := by decide +kernel
  rw [hk] at fails
  cases fails

/-- A one and 309 zeros is too large a number of dice for the limit of 20 dice to refuse it. -/
theorem huge_count_has_no_answer :
    ¬∀ source : Source, Answers { maxRolls := some 20 } source
      (String.ofList ('1' :: List.replicate 309 '0' ++ ['d', '6'])) := by
  intro answers
  have written : '1' :: List.replicate 309 '0' ++ ['d', '6'] =
      (Expr.roll (.literal (10 ^ 309)) (.faces 6) []).text := by decide +kernel
  have small : ∀ n < 4300, Writable (10 ^ n) := fun n few =>
    Nat.pow_lt_pow_right (by decide) few
  have six : Writable 6 := (by decide : 6 < 10 ^ 1).trans (small 1 (by decide))
  -- One source is enough, since the count is rounded before anything is drawn.
  have unanswered : ¬Answers { maxRolls := some 20 } (fun _ faces => faces.low)
      (String.ofList (Expr.roll (.literal (10 ^ 309)) (.faces 6) []).text) :=
    not_answers_of_count ⟨small 309 (by decide), six⟩ not_roundable_huge
  rw [← written] at unanswered
  exact unanswered (answers _)

end DiceNotation
