import DiceNotation.Proofs.Range.Rounding

/-! # Rounding to the nearest double

Rounding to 53 significant bits gives a number with so few bits (`short_roundRat`), and of all of
these a nearest one (`roundRat_nearest`).  So a number with so few bits is rounded to itself, and a
number between two of them to a number between them.

Numbers with few bits are multiples of a unit that grows with them (`Short.multiple`): from 2^j on
it is 2^(j-52). -/

namespace DiceNotation.Binary64

/-- A number with at most 53 significant bits, none of which is below the least exponent. -/
def Short (q : ℚ) : Prop := ∃ k e : ℤ, |k| < 2 ^ 53 ∧ minExponent ≤ e ∧ q = k * 2 ^ e

section

variable {q r : ℚ} {num den : Nat}

/-- Exponents of two add up. -/
theorem two_zpow_add (a b : ℤ) : (2 : ℚ) ^ (a + b) = 2 ^ a * 2 ^ b := zpow_add₀ (by norm_num) a b

/-- Exponents of two add up, the first of them a natural number. -/
theorem two_pow_mul (n : Nat) (e : ℤ) : (2 : ℚ) ^ n * 2 ^ e = 2 ^ (n + e) := by
  rw [two_zpow_add, zpow_natCast]

/-- Powers of two grow with the exponent. -/
theorem two_zpow_mono {a b : ℤ} (h : a ≤ b) : (2 : ℚ) ^ a ≤ 2 ^ b :=
  zpow_le_zpow_right₀ (by norm_num) h

/-- A smaller power of two has a smaller exponent. -/
theorem lt_of_two_zpow_lt {a b : ℤ} (h : (2 : ℚ) ^ a < 2 ^ b) : a < b :=
  (zpow_lt_zpow_iff_right₀ (by norm_num)).mp h

/-- The sign adds no digits. -/
theorem Short.neg (h : Short q) : Short (-q) := by
  obtain ⟨k, e, few, least, rfl⟩ := h
  exact ⟨-k, e, by rwa [abs_neg], least, by push_cast; ring⟩

/-- A multiple of a unit that is at most 2^53 units. -/
theorem short_of_multiple {e k : ℤ} (least : minExponent ≤ e) (multiple : q = k * 2 ^ e)
    (h : |q| ≤ 2 ^ 53 * 2 ^ e) : Short q := by
  have positive : (0 : ℚ) < 2 ^ e := by positivity
  have few : |k| ≤ 2 ^ 53 := by
    rw [multiple, abs_mul, abs_of_pos positive, mul_le_mul_iff_left₀ positive] at h
    exact_mod_cast h
  rcases few.lt_or_eq with fewer | equal
  · exact ⟨k, e, fewer, least, multiple⟩
  · -- A power of two has a last bit to spare.
    have halved : k = k / 2 * 2 := by
      rcases abs_cases k with ⟨same, -⟩ | ⟨same, -⟩ <;> omega
    refine ⟨k / 2, e + 1, ?_, by omega, ?_⟩
    · rw [abs_lt]
      rcases abs_cases k with ⟨same, -⟩ | ⟨same, -⟩ <;> constructor <;> omega
    · rw [multiple, two_zpow_add, zpow_one]
      nth_rewrite 1 [halved]
      push_cast
      ring

/-- An integer of 53 bits has few digits. -/
theorem short_intCast {n : ℤ} (h : |n| ≤ 2 ^ 53) : Short n := by
  apply short_of_multiple (e := 0) (k := n) (by decide)
  · rw [zpow_zero, mul_one]
  · rw [zpow_zero, mul_one]
    exact_mod_cast h

/-- Multiples of a unit are multiples of smaller units. -/
theorem multiple_of_le {u e : ℤ} (h : u ≤ e) (k : ℤ) : ∃ l : ℤ, (k : ℚ) * 2 ^ e = l * 2 ^ u := by
  obtain ⟨s, hs⟩ := Int.eq_ofNat_of_zero_le (sub_nonneg.mpr h)
  refine ⟨k * 2 ^ s, ?_⟩
  have split : e = s + u := by omega
  rw [split, two_zpow_add, zpow_natCast]
  push_cast
  ring

/-- From `2 ^ j` on, numbers with few bits are multiples of `2 ^ (j - 52)`. -/
theorem Short.multiple (h : Short q) {j : ℤ} (large : 2 ^ j ≤ |q|) :
    ∃ k : ℤ, q = k * 2 ^ (j - 52) := by
  obtain ⟨k, e, few, -, rfl⟩ := h
  have positive : (0 : ℚ) < 2 ^ e := by positivity
  have above : j < 53 + e := by
    apply lt_of_two_zpow_lt
    rw [abs_mul, abs_of_pos positive] at large
    have few' : (|k| : ℚ) < 2 ^ 53 := by exact_mod_cast few
    calc (2 : ℚ) ^ j ≤ |(k : ℚ)| * 2 ^ e := large
      _ < 2 ^ 53 * 2 ^ e := mul_lt_mul_of_pos_right few' positive
      _ = 2 ^ (53 + e) := two_pow_mul 53 e
  exact multiple_of_le (by omega) k

/-- Different multiples of a unit are at least one unit apart. -/
theorem add_unit_le {u : ℚ} (positive : 0 < u) (hq : ∃ k : ℤ, q = k * u) (hr : ∃ k : ℤ, r = k * u)
    (h : q < r) : q + u ≤ r := by
  obtain ⟨k, rfl⟩ := hq
  obtain ⟨l, rfl⟩ := hr
  have less : k < l := by
    have := lt_of_mul_lt_mul_right h positive.le
    exact_mod_cast this
  have next : (k : ℚ) + 1 ≤ l := by exact_mod_cast less
  calc (k : ℚ) * u + u = (k + 1) * u := by ring
    _ ≤ l * u := by gcongr

/-! ## The logarithm of a quotient -/

/-- A quotient is at least a power of two, in natural numbers. -/
private theorem le_div_iff_shift (hden : 0 < den) (k : ℤ) :
    den * 2 ^ k.toNat ≤ num * 2 ^ (-k).toNat ↔ (2 : ℚ) ^ k ≤ num / den := by
  have hden' : (0 : ℚ) < den := by exact_mod_cast hden
  have shift : (2 : ℚ) ^ k = 2 ^ k.toNat / 2 ^ (-k).toNat := by
    have := shift_eq k
    rw [← inv_inj, ← this, inv_div]
  rw [shift, div_le_div_iff₀ (by positivity) hden']
  norm_cast
  rw [Nat.mul_comm]

/-- The logarithm is the greatest exponent of a power of two that is not above the quotient. -/
theorem two_zpow_log2Ratio (hnum : 0 < num) (hden : 0 < den) :
    (2 : ℚ) ^ log2Ratio num den ≤ num / den ∧ (num / den : ℚ) < 2 ^ (log2Ratio num den + 1) := by
  have hden' : (0 : ℚ) < den := by exact_mod_cast hden
  have numLow : (2 : ℚ) ^ (num.log2 : ℤ) ≤ num := by
    exact_mod_cast Nat.log2_self_le hnum.ne'
  have numHigh : (num : ℚ) < 2 ^ ((num.log2 : ℤ) + 1) := by
    exact_mod_cast Nat.lt_log2_self
  have denLow : (2 : ℚ) ^ (den.log2 : ℤ) ≤ den := by
    exact_mod_cast Nat.log2_self_le hden.ne'
  have denHigh : (den : ℚ) < 2 ^ ((den.log2 : ℤ) + 1) := by
    exact_mod_cast Nat.lt_log2_self
  -- The difference of the two lengths is off by at most one, and a comparison settles which it is.
  have high : (num / den : ℚ) < 2 ^ ((num.log2 : ℤ) - den.log2 + 1) := by
    rw [div_lt_iff₀ hden']
    calc (num : ℚ) < 2 ^ ((num.log2 : ℤ) + 1) := numHigh
      _ = 2 ^ ((num.log2 : ℤ) - den.log2 + 1) * 2 ^ (den.log2 : ℤ) := by
        rw [← two_zpow_add]
        congr 1
        ring
      _ ≤ 2 ^ ((num.log2 : ℤ) - den.log2 + 1) * den := by gcongr
  have low : (2 : ℚ) ^ ((num.log2 : ℤ) - den.log2 - 1) ≤ num / den := by
    rw [le_div_iff₀ hden']
    calc (2 : ℚ) ^ ((num.log2 : ℤ) - den.log2 - 1) * den
      _ ≤ 2 ^ ((num.log2 : ℤ) - den.log2 - 1) * 2 ^ ((den.log2 : ℤ) + 1) := by gcongr
      _ = 2 ^ (num.log2 : ℤ) := by
        rw [← two_zpow_add]
        congr 1
        ring
      _ ≤ num := numLow
  -- The comparison decides between the two candidates.
  unfold log2Ratio
  dsimp only
  split
  · next h => exact ⟨(le_div_iff_shift hden _).mp h, high⟩
  · next h =>
    refine ⟨low, ?_⟩
    rw [sub_add_cancel]
    exact not_le.mp (mt (le_div_iff_shift hden _).mpr h)

/-! ## Magnitudes -/

/-- What is as near as a number in between is as near as a number behind it. -/
private theorem abs_sub_le_of_between {s u x r : ℚ} (h : |s - x| ≤ |u - x|)
    (between : r ≤ u ∧ u ≤ x ∨ x ≤ u ∧ u ≤ r) : |s - x| ≤ |r - x| := by
  refine h.trans ?_
  rcases between with ⟨behind, inside⟩ | ⟨inside, behind⟩
  · rw [abs_sub_comm u, abs_sub_comm r, abs_of_nonneg (by linarith), abs_of_nonneg (by linarith)]
    linarith
  · rw [abs_of_nonneg (by linarith), abs_of_nonneg (by linarith)]
    linarith

/-- Rounding a quotient goes to a neighbour that is not more than a half away. -/
private theorem roundDiv_cases (num den : Nat) :
    (roundDiv num den = num / den ∧ 2 * (num % den) ≤ den) ∨
      (roundDiv num den = num / den + 1 ∧ den ≤ 2 * (num % den)) := by
  unfold roundDiv
  dsimp only
  split
  · exact .inl ⟨rfl, by omega⟩
  · exact .inr ⟨rfl, by omega⟩

/-- Rounding a quotient does not go below its floor. -/
private theorem le_roundDiv (num den : Nat) : num / den ≤ roundDiv num den := by
  rcases roundDiv_cases num den with ⟨down, -⟩ | ⟨up, -⟩ <;> omega

/-- No integer is nearer to a quotient than the rounded one. -/
private theorem roundDiv_nearest (num : Nat) (hden : 0 < den) (k : ℤ) :
    |(roundDiv num den : ℚ) - num / den| ≤ |(k : ℚ) - num / den| := by
  have hden' : (0 : ℚ) < den := by exact_mod_cast hden
  have cases := roundDiv_cases num den
  have whole : (num : ℚ) = den * (num / den : Nat) + (num % den : Nat) := by
    exact_mod_cast (Nat.div_add_mod num den).symm
  have rest := Nat.mod_lt num hden
  generalize num / den = quotient at cases whole
  generalize num % den = remainder at cases whole rest
  -- The quotient is written as its integral part and a fraction between zero and one.
  obtain ⟨f, hf⟩ : ∃ f : ℚ, f = remainder / den := ⟨_, rfl⟩
  have value : (num / den : ℚ) = quotient + f := by
    rw [hf, div_eq_iff hden'.ne', add_mul, div_mul_cancel₀ _ hden'.ne', whole, mul_comm]
  have nonneg : 0 ≤ f := hf ▸ by positivity
  have below : f ≤ 1 := by
    rw [hf, div_le_one hden']
    exact_mod_cast rest.le
  -- The integer is on one side of the quotient or on the other.
  have apart : f ≤ |(k : ℚ) - num / den| ∨ 1 - f ≤ |(k : ℚ) - num / den| := by
    rw [value]
    rcases le_or_gt k quotient with side | side
    · have side' : (k : ℚ) ≤ quotient := by exact_mod_cast side
      exact .inl (le_abs.mpr (.inr (by linarith)))
    · have side' : (quotient : ℚ) + 1 ≤ k := by exact_mod_cast side
      exact .inr (le_abs.mpr (.inl (by linarith)))
  -- Rounding goes to the nearer side, which is at most one half away.
  rcases cases with ⟨down, half⟩ | ⟨up, half⟩
  · have half' : f ≤ 1 / 2 := by
      rw [hf, div_le_iff₀ hden']
      have : (2 * remainder : ℚ) ≤ den := by exact_mod_cast half
      linarith
    have distance : |(roundDiv num den : ℚ) - num / den| = f := by
      rw [down, value, sub_add_cancel_left, abs_neg, abs_of_nonneg nonneg]
    rcases apart with h | h <;> linarith
  · have half' : 1 / 2 ≤ f := by
      rw [hf, le_div_iff₀ hden']
      have : (den : ℚ) ≤ 2 * remainder := by exact_mod_cast half
      linarith
    have distance : |(roundDiv num den : ℚ) - num / den| = 1 - f := by
      rw [up, value, Nat.cast_add, Nat.cast_one, add_sub_add_left_eq_sub,
        abs_of_nonneg (by linarith)]
    rcases apart with h | h <;> linarith

/-- The exponent of the double nearest to a quotient. -/
def unit (num den : Nat) : ℤ := max (log2Ratio num den - 52) minExponent

/-- The quotient is rounded to so many units. -/
private theorem scale_nearest (hnum : 0 < num) :
    scale (nearest num den).1 (nearest num den).2 =
      roundDiv (num * 2 ^ (-unit num den).toNat) (den * 2 ^ (unit num den).toNat) *
        2 ^ unit num den := by
  unfold nearest
  rw [if_neg hnum.ne']
  exact scale_eq _ _

/-- To shift numerator and denominator is to multiply by a power of two. -/
private theorem shifted_eq (num den : Nat) (e : ℤ) :
    ((num * 2 ^ (-e).toNat : Nat) : ℚ) / (den * 2 ^ e.toNat : Nat) * 2 ^ e = num / den := by
  have positive : (2 : ℚ) ^ e ≠ 0 := by positivity
  push_cast
  rw [mul_div_mul_comm, shift_eq, inv_mul_cancel_right₀ positive]

/-- A quotient is below `2 ^ 53` units. -/
private theorem div_lt_units (hnum : 0 < num) (hden : 0 < den) :
    (num / den : ℚ) < 2 ^ 53 * 2 ^ unit num den := by
  have above := (two_zpow_log2Ratio hnum hden).2
  rw [two_pow_mul]
  exact above.trans_le (two_zpow_mono (by unfold unit; omega))

/-- A quotient has at most 53 bits in units. -/
theorem roundDiv_units_le (hnum : 0 < num) (hden : 0 < den) :
    roundDiv (num * 2 ^ (-unit num den).toNat) (den * 2 ^ (unit num den).toNat) ≤ 2 ^ 53 := by
  have below := div_lt_units hnum hden
  rw [← shifted_eq num den (unit num den)] at below
  generalize hB : den * 2 ^ (unit num den).toNat = B at below ⊢
  have hB' : 0 < B := hB ▸ by positivity
  rw [mul_lt_mul_iff_left₀ (by positivity), div_lt_iff₀ (by exact_mod_cast hB')] at below
  have below' : num * 2 ^ (-unit num den).toNat < 2 ^ 53 * B := by exact_mod_cast below
  exact (roundDiv_le _ _).trans ((Nat.div_lt_iff_lt_mul hB').mpr below')

/-- It has 53 bits, unless the unit is the least one. -/
theorem le_roundDiv_units (hnum : 0 < num) (hden : 0 < den) (fine : minExponent < unit num den) :
    2 ^ 52 ≤ roundDiv (num * 2 ^ (-unit num den).toNat) (den * 2 ^ (unit num den).toNat) := by
  have exponent : ((52 : ℕ) : ℤ) + unit num den = log2Ratio num den := by
    unfold unit at fine ⊢
    omega
  have above := (two_zpow_log2Ratio hnum hden).1
  rw [← exponent, ← two_pow_mul, ← shifted_eq num den (unit num den)] at above
  generalize hB : den * 2 ^ (unit num den).toNat = B at above ⊢
  have hB' : 0 < B := hB ▸ by positivity
  rw [mul_le_mul_iff_left₀ (by positivity), le_div_iff₀ (by exact_mod_cast hB')] at above
  have above' : 2 ^ 52 * B ≤ num * 2 ^ (-unit num den).toNat := by exact_mod_cast above
  exact ((Nat.le_div_iff_mul_le hB').mpr above').trans (le_roundDiv _ _)

/-- The nearest significand has few digits. -/
private theorem short_scale_nearest (num : Nat) (hden : 0 < den) :
    Short (scale (nearest num den).1 (nearest num den).2) := by
  rcases Nat.eq_zero_or_pos num with rfl | hnum
  · rw [nearest_zero, scale_eq]
    exact ⟨0, minExponent, by norm_num, le_rfl, by norm_num⟩
  · rw [scale_nearest hnum]
    have few := roundDiv_units_le hnum hden
    generalize roundDiv (num * 2 ^ (-unit num den).toNat) (den * 2 ^ (unit num den).toNat) = units
      at few ⊢
    -- Rounding up may give one bit more, and then the significand is a power of two.
    apply short_of_multiple (e := unit num den) (k := units) (le_max_right _ _)
    · norm_cast
    · rw [abs_of_nonneg (by positivity)]
      have few' : (units : ℚ) ≤ 2 ^ 53 := by exact_mod_cast few
      gcongr

/-- No multiple of the unit is nearer to a quotient than what it is rounded to. -/
theorem scale_nearest_units (hnum : 0 < num) (hden : 0 < den) (k : ℤ) :
    |scale (nearest num den).1 (nearest num den).2 - num / den| ≤
      |(k : ℚ) * 2 ^ unit num den - num / den| := by
  rw [scale_nearest hnum, ← shifted_eq num den (unit num den), ← sub_mul, ← sub_mul, abs_mul,
    abs_mul]
  exact mul_le_mul_of_nonneg_right (roundDiv_nearest _ (by positivity) k) (abs_nonneg _)

/-- No number with few bits is nearer to a quotient than what it is rounded to. -/
theorem scale_nearest_nearest (num : Nat) (hden : 0 < den) (short : Short r) :
    |scale (nearest num den).1 (nearest num den).2 - num / den| ≤ |r - num / den| := by
  rcases Nat.eq_zero_or_pos num with rfl | hnum
  · rw [nearest_zero, scale_eq]
    simp
  have low := (two_zpow_log2Ratio hnum hden).1
  have units := scale_nearest_units hnum hden
  -- A number with the same unit is no nearer by the choice of the significand.
  by_cases multiple : ∃ k : ℤ, r = k * 2 ^ unit num den
  · obtain ⟨k, rfl⟩ := multiple
    exact units k
  · -- A finer number is smaller than the least number with this unit.
    obtain ⟨k, e, few, least, rfl⟩ := short
    have finer : e < unit num den := by
      by_contra coarse
      exact multiple (multiple_of_le (not_lt.mp coarse) k)
    have exponent : unit num den = log2Ratio num den - 52 := by
      unfold unit at finer ⊢
      omega
    have few' : (k : ℚ) ≤ 2 ^ 53 := by exact_mod_cast (abs_lt.mp few).2.le
    have small : (k : ℚ) * 2 ^ e ≤ (2 ^ 52 : ℤ) * 2 ^ unit num den := by
      push_cast
      calc (k : ℚ) * 2 ^ e ≤ 2 ^ 53 * 2 ^ e := by gcongr
        _ = 2 ^ (53 + e) := two_pow_mul 53 e
        _ ≤ 2 ^ (52 + unit num den) := two_zpow_mono (by omega)
        _ = 2 ^ 52 * 2 ^ unit num den := (two_pow_mul 52 _).symm
    have start : ((2 ^ 52 : ℤ) : ℚ) * 2 ^ unit num den ≤ num / den := by
      push_cast
      calc (2 : ℚ) ^ 52 * 2 ^ unit num den = 2 ^ (52 + unit num den) := two_pow_mul 52 _
        _ ≤ 2 ^ log2Ratio num den := two_zpow_mono (by omega)
        _ ≤ num / den := low
    -- The least number with the unit lies between the finer one and the quotient.
    exact abs_sub_le_of_between (units (2 ^ 52)) (.inl ⟨small, start⟩)

/-! ## Signed numbers -/

/-- A number that is not negative is rounded as the quotient that it is. -/
private theorem roundRat_of_nonneg (h : 0 ≤ q) :
    roundRat q = scale (nearest q.num.natAbs q.den).1 (nearest q.num.natAbs q.den).2 := by
  unfold roundRat
  exact if_neg (not_lt.mpr (Rat.num_nonneg.mpr h))

/-- Rounding does not depend on the sign. -/
theorem roundRat_neg (q : ℚ) : roundRat (-q) = -roundRat q := by
  unfold roundRat
  simp only [Rat.neg_num, Rat.neg_den, Int.natAbs_neg]
  rcases lt_trichotomy q.num 0 with negative | zero | positive
  · rw [if_neg (by omega), if_pos negative, neg_neg]
  · rw [zero, Int.natAbs_zero, nearest_zero, scale_eq]
    simp
  · rw [if_pos (by omega), if_neg (by omega)]

/-- A number that is not negative is its numerator by its denominator. -/
private theorem natAbs_div_den (h : 0 ≤ q) : (q.num.natAbs : ℚ) / q.den = q := by
  have whole : ((q.num.natAbs : ℤ) : ℚ) = q.num := by
    rw [Int.natAbs_of_nonneg (Rat.num_nonneg.mpr h)]
  rw [← Int.cast_natCast, whole, Rat.num_div_den]

/-- A rounded number has few digits. -/
theorem short_roundRat (q : ℚ) : Short (roundRat q) := by
  rcases le_total 0 q with nonneg | nonpos
  · rw [roundRat_of_nonneg nonneg]
    exact short_scale_nearest _ q.den_pos
  · have short : Short (roundRat (-q)) := by
      rw [roundRat_of_nonneg (neg_nonneg.mpr nonpos)]
      exact short_scale_nearest _ (-q).den_pos
    rw [roundRat_neg] at short
    exact neg_neg (roundRat q) ▸ short.neg

/-- No number with few bits is nearer to a number than what it is rounded to. -/
theorem roundRat_nearest (q : ℚ) (short : Short r) : |roundRat q - q| ≤ |r - q| := by
  rcases le_total 0 q with nonneg | nonpos
  · have near := scale_nearest_nearest q.num.natAbs q.den_pos short
    rw [natAbs_div_den nonneg, ← roundRat_of_nonneg nonneg] at near
    exact near
  · have nonneg := neg_nonneg.mpr nonpos
    have near := scale_nearest_nearest (-q).num.natAbs (-q).den_pos short.neg
    rw [natAbs_div_den nonneg, ← roundRat_of_nonneg nonneg, roundRat_neg] at near
    rw [← abs_neg (roundRat q - q), ← abs_neg (r - q)]
    rwa [neg_sub', neg_sub']

/-- What has few bits is left as it is. -/
theorem roundRat_of_short (short : Short q) : roundRat q = q := by
  have near := roundRat_nearest q short
  rw [sub_self, abs_zero] at near
  exact sub_eq_zero.mp (abs_nonpos_iff.mp near)

/-- A number with few digits stays below what was above it. -/
theorem le_roundRat (short : Short r) (h : r ≤ q) : r ≤ roundRat q := by
  have near := roundRat_nearest q short
  rw [abs_sub_comm r, abs_of_nonneg (sub_nonneg.mpr h)] at near
  have := (abs_le.mp near).1
  linarith

/-- A number with few digits stays above what was below it. -/
theorem roundRat_le (short : Short r) (h : q ≤ r) : roundRat q ≤ r := by
  have near := roundRat_nearest q short
  rw [abs_of_nonneg (sub_nonneg.mpr h)] at near
  have := (abs_le.mp near).2
  linarith

/-- Between `2 ^ 52` and `2 ^ 53` the unit is one. -/
private theorem unit_eq_zero (hnum : 0 < num) (hden : 0 < den) (low : (2 : ℚ) ^ 52 ≤ num / den)
    (high : (num / den : ℚ) < 2 ^ 53) : unit num den = 0 := by
  obtain ⟨below, above⟩ := two_zpow_log2Ratio hnum hden
  have atMost : log2Ratio num den < 53 := by
    apply lt_of_two_zpow_lt
    exact_mod_cast below.trans_lt high
  have atLeast : 52 < log2Ratio num den + 1 := by
    apply lt_of_two_zpow_lt
    exact_mod_cast low.trans_lt above
  unfold unit minExponent
  omega

/-- Where the unit is one, a half goes to the even neighbour. -/
theorem roundRat_half {m : Nat} (low : 2 ^ 52 ≤ m) (high : m < 2 ^ 53) :
    roundRat (m + 1 / 2) = (if m % 2 = 0 then m else m + 1 : Nat) := by
  have quotient : (m + 1 / 2 : ℚ) = ((2 * m + 1 : Nat) : ℤ) / (2 : ℤ) := by
    push_cast
    ring
  -- The fraction is in lowest terms, with two as its denominator.
  have coprime : Nat.Coprime (((2 * m + 1 : Nat) : ℤ)).natAbs (2 : ℤ).natAbs := by
    rw [Int.natAbs_natCast]
    exact Nat.coprime_two_right.mpr ⟨m, rfl⟩
  have num : (m + 1 / 2 : ℚ).num.natAbs = 2 * m + 1 := by
    rw [quotient, Rat.num_div_eq_of_coprime (by decide) coprime, Int.natAbs_natCast]
  have den : (m + 1 / 2 : ℚ).den = 2 := by
    have same := Rat.den_div_eq_of_coprime (by decide) coprime
    rw [quotient]
    exact_mod_cast same
  have low' : (2 : ℚ) ^ 52 ≤ m := by exact_mod_cast low
  have high' : (m : ℚ) + 1 ≤ 2 ^ 53 := by exact_mod_cast high
  -- Numbers of this size are rounded to integers.
  have one : unit (2 * m + 1) 2 = 0 := by
    apply unit_eq_zero (by omega) (by decide)
    · rw [le_div_iff₀ (by norm_num)]
      push_cast
      linarith
    · rw [div_lt_iff₀ (by norm_num)]
      push_cast
      linarith
  rw [roundRat_of_nonneg (by positivity), num, den, scale_nearest (by omega), one]
  have rounded : roundDiv (2 * m + 1) 2 = if m % 2 = 0 then m else m + 1 := by
    unfold roundDiv
    dsimp only
    split <;> split <;> omega
  simp [rounded]

end

end DiceNotation.Binary64
