import DiceNotation.Number.Numeral
import Mathlib

/-! # Runs of ASCII digits are numerals

The lexer takes runs of ASCII digits for numerals.  Reading one succeeds unless it has too many
digits, and gives the value in base ten.

* `read_of_isDigits`        what is read of a run of digits
* `exists_of_read_eq_ok`    a number that is read is not negative, and not too large -/

namespace DiceNotation.Numeral

/-- A run of ASCII digits. -/
def IsDigits (text : String) : Prop := text ≠ "" ∧ ∀ c ∈ text.toList, c.isDigit

/-- The value of an ASCII digit. -/
def digitValue (c : Char) : Nat := c.toNat - 48

/-- The ASCII digits are the characters from 48 to 57. -/
theorem isDigit_iff (c : Char) : c.isDigit ↔ 48 ≤ c.toNat ∧ c.toNat ≤ 57 := by
  simp only [Char.isDigit, ge_iff_le, Bool.and_eq_true, decide_eq_true_eq]
  exact Iff.rfl

/-- An ASCII digit is a digit with its usual value. -/
theorem digit?_of_isDigit {c : Char} (h : c.isDigit) : Text.digit? c = some (digitValue c) := by
  obtain ⟨h₁, h₂⟩ := (isDigit_iff c).mp h
  have first : (decide (0x0030 ≤ c.toNat) && decide (c.toNat < 0x0030 + 10)) = true := by
    simp only [Bool.and_eq_true, decide_eq_true_eq]
    omega
  have found : Text.zeros.find? (fun start => start ≤ c.toNat && c.toNat < start + 10) =
      some 0x0030 := List.find?_cons_of_pos first
  rw [Text.digit?, found]
  rfl

/-- A digit is not blank. -/
theorem isBlank_of_isDigit {c : Char} (h : c.isDigit) : Text.isBlank c = false := by
  obtain ⟨h₁, h₂⟩ := (isDigit_iff c).mp h
  simp only [Text.isBlank, Bool.or_eq_false_iff, Bool.and_eq_false_iff, beq_eq_false_iff_ne,
    decide_eq_false_iff_not]
  omega

/-- Digits need no separators between them. -/
theorem digits?_of_isDigit {cs : List Char} (h : ∀ c ∈ cs, c.isDigit) (ne : cs ≠ []) :
    digits? cs = some (cs.map digitValue) := by
  induction cs with
  | nil => exact absurd rfl ne
  | cons c rest ih =>
    have hc : Text.digit? c = some (digitValue c) := digit?_of_isDigit (h c (by simp))
    -- Underscores may stand between digits only, so the next character matters.
    cases rest with
    | nil => simp [digits?, hc]
    | cons d rest =>
      have hd : d ≠ '_' := by
        rintro rfl
        exact absurd (h '_' (by simp)) (by decide)
      have hrest := ih (fun x hx => h x (List.mem_cons_of_mem _ hx)) (by simp)
      rw [digits?, hc, hrest]
      · rfl
      · simp
      · intro rest' heq
        exact hd (List.cons.inj heq).1

/-- A run of digits has no blanks around it. -/
theorem trim_of_isDigit {cs : List Char} (h : ∀ c ∈ cs, c.isDigit) : trim cs = cs := by
  have keep : ∀ {ds : List Char}, (∀ c ∈ ds, c.isDigit) → ds.dropWhile Text.isBlank = ds := by
    intro ds hds
    cases ds with
    | nil => rfl
    | cons d ds => rw [List.dropWhile_cons, isBlank_of_isDigit (hds d (by simp))]; rfl
  rw [trim, keep h, keep (fun c hc => h c (List.mem_reverse.mp hc)), List.reverse_reverse]

/-- A run of digits has no sign. -/
theorem splitSign_of_isDigit {cs : List Char} (h : ∀ c ∈ cs, c.isDigit) :
    splitSign cs = (false, cs) := by
  match cs, h with
  | [], _ => rfl
  | c :: rest, h =>
    have hc := h c (by simp)
    rw [splitSign]
    · rintro rest' ⟨⟩
      exact absurd hc (by decide)
    · rintro rest' ⟨⟩
      exact absurd hc (by decide)

/-- A run of digits is read as its value in base ten, unless it has too many digits. -/
theorem read_of_isDigits {text : String} (h : IsDigits text) :
    read text =
      if maxDigits < text.length then .error .tooManyDigits
      else .ok (ofDigits (text.toList.map digitValue) : Nat) := by
  have ne : text.toList ≠ [] := fun e => h.1 (String.toList_eq_nil_iff.mp e)
  rw [read, trim_of_isDigit h.2, splitSign_of_isDigit h.2]
  simp only [digits?_of_isDigit h.2 ne, List.length_map, String.length_toList]
  rfl

/-! ## Writing and reading back -/

/-- The value of a run of digits is the one of the standard library. -/
theorem ofDigits_map_digitValue (cs : List Char) :
    ofDigits (cs.map digitValue) = Nat.ofDigitChars 10 cs 0 := by
  rw [ofDigits, List.foldl_map, Nat.ofDigitChars_eq_foldl]
  rfl

/-- A number with so many digits is below that power of ten. -/
theorem ofDigits_lt {ds : List Nat} (h : ∀ d ∈ ds, d < 10) : ofDigits ds < 10 ^ ds.length := by
  induction ds using List.reverseRecOn with
  | nil => decide
  | append_singleton ds d ih =>
    have hd := h d (by simp)
    have hds := ih (fun x hx => h x (by simp [hx]))
    rw [ofDigits, List.foldl_append, List.length_append, Nat.pow_add]
    simp only [List.foldl_cons, List.foldl_nil, List.length_singleton]
    rw [← ofDigits]
    omega

/-- A natural number is written in ASCII digits. -/
theorem isDigits_toString (n : Nat) : IsDigits (toString n) := by
  refine ⟨?_, fun c hc => ?_⟩
  · rw [Nat.toString_eq_repr]
    exact Nat.repr_ne_empty
  · rw [Nat.toString_eq_repr, Nat.toList_repr] at hc
    exact Nat.isDigit_of_mem_toDigits (by decide) (by decide) hc

/-- What is read of a run of digits is a natural number below ten to the number of digits. -/
theorem exists_of_read_eq_ok {text : String} {n : Int} (h : IsDigits text)
    (hn : read text = .ok n) : ∃ k : Nat, n = k ∧ k < 10 ^ maxDigits := by
  rw [read_of_isDigits h] at hn
  split at hn
  · cases hn
  · next short =>
    cases hn
    -- A number is below the power of ten with as many zeros as it has digits.
    refine ⟨_, rfl, Nat.lt_of_lt_of_le (ofDigits_lt ?_) (Nat.pow_le_pow_right (by decide) ?_)⟩
    · intro d hd
      obtain ⟨c, hc, rfl⟩ := List.mem_map.mp hd
      have := (isDigit_iff c).mp (h.2 c hc)
      unfold digitValue
      omega
    · rw [List.length_map, String.length_toList]
      omega

end DiceNotation.Numeral
