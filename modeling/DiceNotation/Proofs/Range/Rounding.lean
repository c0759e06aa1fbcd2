import DiceNotation.Value
import Mathlib

/-! # Rounded numbers are small

Rounding to 53 significant bits at most doubles a number, up to one.  So what can be rounded to an
integer at all has few digits and can be written (`isWritable_of_roundHalfUp`). -/

namespace DiceNotation

namespace Binary64

/-- Rounding a quotient goes one above its floor at most. -/
theorem roundDiv_le (num den : Nat) : roundDiv num den ≤ num / den + 1 := by
  unfold roundDiv
  dsimp only
  split <;> omega

/-- The logarithm of a quotient is at most the difference of the logarithms. -/
private theorem log2Ratio_le (num den : Nat) : log2Ratio num den ≤ num.log2 - den.log2 := by
  unfold log2Ratio
  dsimp only
  split <;> omega

/-- A significand in its exponent, as a product. -/
theorem scale_eq (significand : Nat) (exponent : Int) :
    scale significand exponent = significand * (2 : ℚ) ^ exponent := by
  unfold scale
  -- The definition multiplies for an exponent that is not negative and divides for any other.
  split
  · next h =>
    lift exponent to Nat using h
    rw [Int.toNat_natCast, zpow_natCast]
    push_cast
    rfl
  · next h =>
    obtain ⟨k, hk⟩ : ∃ k : Nat, exponent = -k := ⟨(-exponent).toNat, by omega⟩
    subst hk
    rw [neg_neg, Int.toNat_natCast, Rat.mkRat_eq_div, zpow_neg, zpow_natCast, div_eq_mul_inv]
    push_cast
    rfl

/-- The unit in the last place is small against the number, unless it is the least one. -/
private theorem two_zpow_le {num den : Nat} (positive : 0 < num) (hden : 0 < den) :
    (2 : ℚ) ^ max (log2Ratio num den - 52) minExponent ≤ num / den + 1 := by
  have hden' : (0 : ℚ) < den := by exact_mod_cast hden
  -- The unit is the least one there is, or it is given by the size of the quotient.
  rcases le_total (log2Ratio num den - 52) minExponent with h | h
  · rw [max_eq_right h]
    have least : (2 : ℚ) ^ minExponent ≤ 1 := zpow_le_one_of_nonpos₀ (by norm_num) (by decide)
    have : (0 : ℚ) ≤ num / den := by positivity
    linarith
  · rw [max_eq_left h]
    have low : (2 : ℚ) ^ num.log2 ≤ num := by exact_mod_cast Nat.log2_self_le positive.ne'
    have high : (den : ℚ) < 2 ^ (den.log2 + 1) := by exact_mod_cast Nat.lt_log2_self
    -- The size of a quotient is one less than the difference of the lengths at most.
    have small : log2Ratio num den - 52 ≤ (num.log2 : Int) - (den.log2 + 1 : Nat) := by
      have := log2Ratio_le num den
      push_cast
      omega
    calc (2 : ℚ) ^ (log2Ratio num den - 52)
      _ ≤ (2 : ℚ) ^ ((num.log2 : Int) - (den.log2 + 1 : Nat)) :=
        zpow_le_zpow_right₀ (by norm_num) small
      _ = 2 ^ num.log2 / 2 ^ (den.log2 + 1) := by
        rw [zpow_sub₀ (by norm_num), zpow_natCast, zpow_natCast]
      _ ≤ num / den := div_le_div₀ (by positivity) low hden' high.le
      _ ≤ num / den + 1 := by linarith

/-- Shifting by an exponent to the left or to the right divides by its power of two. -/
theorem shift_eq (e : Int) : (2 : ℚ) ^ (-e).toNat / 2 ^ e.toNat = ((2 : ℚ) ^ e)⁻¹ := by
  rw [← zpow_natCast, ← zpow_natCast, ← zpow_sub₀ (by norm_num), ← zpow_neg]
  congr 1
  omega

/-- Rounding a quotient at most doubles it and adds one. -/
private theorem scale_nearest_le (num : Nat) {den : Nat} (hden : 0 < den) :
    scale (nearest num den).1 (nearest num den).2 ≤ 2 * (num / den) + 1 := by
  have hden' : (0 : ℚ) < den := by exact_mod_cast hden
  have nonneg : (0 : ℚ) ≤ num / den := by positivity
  by_cases zero : num = 0
  · subst zero
    rw [nearest_zero, scale_eq]
    simp
  · have unit := two_zpow_le (Nat.pos_of_ne_zero zero) hden
    unfold nearest
    rw [if_neg zero]
    dsimp only
    generalize max (log2Ratio num den - 52) minExponent = e at unit
    have positive : (0 : ℚ) < 2 ^ e := by positivity
    -- Rounding adds at most one unit.
    have quotient : ((roundDiv (num * 2 ^ (-e).toNat) (den * 2 ^ e.toNat) : Nat) : ℚ) ≤
        num / den * (2 ^ e)⁻¹ + 1 := by
      have whole : ((roundDiv (num * 2 ^ (-e).toNat) (den * 2 ^ e.toNat) : Nat) : ℚ) ≤
          ((num * 2 ^ (-e).toNat / (den * 2 ^ e.toNat) + 1 : Nat) : ℚ) := by
        exact_mod_cast roundDiv_le _ _
      have fraction := Nat.cast_div_le (α := ℚ) (m := num * 2 ^ (-e).toNat)
        (n := den * 2 ^ e.toNat)
      push_cast at whole fraction
      rw [mul_div_mul_comm, shift_eq] at fraction
      linarith
    rw [scale_eq]
    -- The unit is not larger than the quotient, apart from one.
    calc _ ≤ (num / den * (2 ^ e)⁻¹ + 1) * (2 : ℚ) ^ e := by gcongr
      _ = num / den + 2 ^ e := by field_simp
      _ ≤ 2 * (num / den) + 1 := by linarith

/-- Rounding a number at most doubles its size and adds one. -/
private theorem abs_roundRat_le (q : ℚ) : |roundRat q| ≤ 2 * |q| + 1 := by
  have size := scale_nearest_le q.num.natAbs q.den_pos
  -- Rounding works on the absolute value and puts the sign back.
  have exact : (q.num.natAbs : ℚ) / q.den = |q| := by
    rw [Nat.cast_natAbs, Int.cast_abs]
    nth_rewrite 3 [← Rat.num_div_den q]
    rw [abs_div, Nat.abs_cast]
  have nonneg : 0 ≤ scale (nearest q.num.natAbs q.den).1 (nearest q.num.natAbs q.den).2 := by
    rw [scale_eq]
    positivity
  rw [exact] at size
  unfold roundRat
  dsimp only
  split
  · rw [abs_neg, abs_of_nonneg nonneg]
    exact size
  · rw [abs_of_nonneg nonneg]
    exact size

end Binary64

namespace Number

/-- The floor of a number that was rounded is not much larger than the number. -/
private theorem abs_floor_lt {r size bound : ℚ} (h : |r| ≤ 2 * size + 1)
    (small : size < bound + 1 / 2) : |(r.floor : ℚ)| < 2 * bound + 3 := by
  have low := Rat.floor_le r
  have high := Rat.lt_floor_add_one r
  obtain ⟨above, below⟩ := abs_le.mp h
  rw [Int.cast_add, Int.cast_one] at high
  rw [abs_lt]
  constructor <;> linarith

/-- What can be rounded to an integer can be written then. -/
theorem isWritable_of_roundHalfUp {n : Number} {k : Int} (h : n.roundHalfUp = .ok k) :
    (Value.int k).isWritable = true := by
  unfold roundHalfUp at h
  cases hq : n.exact with
  | error e => rw [hq] at h; cases h
  | ok q =>
    rw [hq] at h
    change (if _ then _ else _ : Except NumberError Int) = _ at h
    split at h
    · next inside =>
      cases h
      -- The number plus one half is within twice the bound on doubles.
      have near := Binary64.abs_roundRat_le (Binary64.roundRat q + mkRat 1 2)
      have half : mkRat 1 2 = (1 / 2 : ℚ) := by norm_num [Rat.mkRat_eq_div]
      have bounded : |Binary64.roundRat q| < Binary64.bound := abs_lt.mpr ⟨inside.2, inside.1⟩
      have sum : |Binary64.roundRat q + mkRat 1 2| < Binary64.bound + 1 / 2 := by
        rw [half]
        have := abs_add_le (Binary64.roundRat q) (1 / 2)
        rw [abs_of_pos (by norm_num : (0 : ℚ) < 1 / 2)] at this
        linarith
      have small := abs_floor_lt near sum
      have cast : ((2 * Nat.pow 2 1024 + 3 : Nat) : ℚ) = 2 * Binary64.bound + 3 := by
        unfold Binary64.bound
        push_cast
        rfl
      rw [← cast, ← Int.cast_abs, Int.abs_eq_natAbs, Int.cast_natCast, Nat.cast_lt] at small
      -- Four thousand three hundred digits are many more than the bound has.
      have few : 2 * Nat.pow 2 1024 + 3 < writableBound := by decide +kernel
      unfold Value.isWritable isWritable
      rw [decide_eq_true_eq]
      exact small.trans few
    · cases h

end Number

end DiceNotation
