import DiceNotation.Proofs.Range.Finite
import DiceNotation.Proofs.Range.Nearest

/-! # Adding one half and going down

A number is rounded to an integer by adding one half, which rounds to the nearest double, and going
down to an integer.  This comes to the nearest integer, a half going up, if the sum is exact, or at
least is not rounded up to the next integer.

* Near zero, only one double has a sum that is rounded up: the last one below one half.
* From 2^52 to 2^53 the doubles are the integers, and the sum is halfway between two of them.  It
  goes to the even one, which is the wrong one for an odd integer.
* Above, one half is nothing, and the sum is rounded back to the double itself. -/

namespace DiceNotation.Binary64

section

variable {q p : ℚ} {n m : ℤ}

/-- The greatest double below one half. -/
def lastBelowHalf : ℚ := 1 / 2 - 2 ^ (-54 : ℤ)

/-- The odd integers at which the doubles are one apart. -/
def IsCrowdedOdd (q : ℚ) : Prop := ∃ m : ℤ, q = m ∧ Odd m ∧ 2 ^ 52 < |m| ∧ |m| < 2 ^ 53

/-- The floor is the integer at most one below. -/
private theorem floor_eq_iff : q.floor = n ↔ (n : ℚ) ≤ q ∧ q < n + 1 := by
  rw [← Int.floor_eq_iff]
  rfl

/-- What stands between an integer and a number with few bits below the next integer is rounded to
    something there. -/
private theorem floor_roundRat {y : ℚ} (few : |n| ≤ 2 ^ 53) (low : n ≤ y) (short : Short p)
    (near : y ≤ p) (high : p < n + 1) : (roundRat y).floor = n :=
  floor_eq_iff.mpr ⟨le_roundRat (short_intCast few) low, (roundRat_le short near).trans_lt high⟩

/-! ## Sums that are exact -/

/-- Adding one half to a number that is not greater in size than before loses nothing. -/
private theorem short_add_half (short : Short q) (small : |q| ≤ 2 ^ 52)
    (smaller : |q + 1 / 2| ≤ |q|) : Short (q + 1 / 2) := by
  obtain ⟨k, e, few, least, rfl⟩ := short
  -- The number and the half are multiples of the smaller of their units.
  obtain ⟨l, hl⟩ := multiple_of_le (min_le_left e (-1)) k
  obtain ⟨h, hh⟩ := multiple_of_le (min_le_right e (-1)) 1
  have sum : (k : ℚ) * 2 ^ e + 1 / 2 = ((l + h : ℤ) : ℚ) * 2 ^ min e (-1) := by
    push_cast
    rw [add_mul, ← hl, ← hh]
    norm_num
  apply short_of_multiple (le_min least (by decide)) sum
  refine smaller.trans ?_
  -- The sum has no more bits, because it is no larger than the number.
  rcases le_total e (-1) with fraction | whole
  · rw [min_eq_left fraction, abs_mul, abs_of_pos (by positivity : (0 : ℚ) < 2 ^ e)]
    have few' : |(k : ℚ)| ≤ 2 ^ 53 := by exact_mod_cast few.le
    gcongr
  · rw [min_eq_right whole]
    refine small.trans_eq ?_
    norm_num

/-- Below `2 ^ 52` but not far, doubles are halves. -/
private theorem short_add_half_of_large (short : Short q) (low : 2 ^ 51 ≤ q) (high : q < 2 ^ 52) :
    Short (q + 1 / 2) := by
  -- In this range the unit is one half, so adding it keeps the unit.
  have unit : (2 : ℚ) ^ ((51 : ℤ) - 52) = 1 / 2 := by norm_num
  obtain ⟨k, hk⟩ := short.multiple (j := 51) (by
    rw [abs_of_nonneg (by linarith [pow_pos (two_pos (α := ℚ)) 51])]
    exact_mod_cast low)
  rw [unit] at hk
  have below : q + 1 / 2 ≤ 2 ^ 52 := by
    apply add_unit_le (by norm_num) ⟨k, hk⟩ ⟨2 ^ 53, by norm_num⟩ high
  apply short_of_multiple (e := -1) (k := k + 1) (by decide)
  · rw [hk]
    push_cast
    norm_num
    ring
  · rw [abs_of_nonneg (by linarith [pow_pos (two_pos (α := ℚ)) 51])]
    refine below.trans_eq ?_
    norm_num

/-- Rounding changes no half-up sum with few enough digits. -/
private theorem floor_half_of_short (short : Short (q + 1 / 2)) :
    (roundRat (q + 1 / 2)).floor = (q + 1 / 2).floor := by
  rw [roundRat_of_short short]

/-! ## Sums that are not rounded up to the next integer -/

/-- Near zero, rounding does not reach another integer. -/
private theorem floor_half_of_small (low : -(1 / 4) < q) (high : q < 1 / 4) :
    (roundRat (q + 1 / 2)).floor = (q + 1 / 2).floor := by
  have floor : (q + 1 / 2).floor = 0 :=
    floor_eq_iff.mpr ⟨by norm_num; linarith, by norm_num; linarith⟩
  have short : Short (3 / 4) := ⟨3, -2, by norm_num, by decide, by norm_num⟩
  rw [floor]
  exact floor_roundRat (by norm_num) (by norm_num; linarith) short (by linarith) (by norm_num)

/-- The doubles from one quarter to one half are as far apart as `lastBelowHalf` and one half. -/
private theorem floor_half_of_near (short : Short q) (low : 1 / 4 ≤ q) (high : q < 1 / 2)
    (other : q ≠ lastBelowHalf) : (roundRat (q + 1 / 2)).floor = (q + 1 / 2).floor := by
  have floor : (q + 1 / 2).floor = 0 :=
    floor_eq_iff.mpr ⟨by norm_num; linarith, by norm_num; linarith⟩
  have positive : (0 : ℚ) < 2 ^ (-54 : ℤ) := by positivity
  have multiple : ∃ k : ℤ, q = k * 2 ^ (-54 : ℤ) := by
    apply short.multiple (j := -2)
    rw [abs_of_nonneg (by linarith)]
    refine le_trans ?_ low
    norm_num
  have last : ∃ k : ℤ, lastBelowHalf = k * 2 ^ (-54 : ℤ) :=
    ⟨2 ^ 53 - 1, by norm_num [lastBelowHalf]⟩
  have half : ∃ k : ℤ, (1 / 2 : ℚ) = k * 2 ^ (-54 : ℤ) := ⟨2 ^ 53, by norm_num⟩
  -- All these numbers are multiples of the same unit, so those below the exception are a unit below
  -- it.
  have atMost : q ≤ lastBelowHalf := by
    have := add_unit_le positive multiple half high
    unfold lastBelowHalf
    linarith
  have below := add_unit_le positive multiple last (lt_of_le_of_ne atMost other)
  unfold lastBelowHalf at below
  have short' : Short (1 - 2 ^ (-53 : ℤ)) := ⟨2 ^ 53 - 1, -53, by norm_num, by decide, by norm_num⟩
  have units : (2 : ℚ) ^ (-53 : ℤ) = 2 ^ (-54 : ℤ) + 2 ^ (-54 : ℤ) := by norm_num
  rw [floor]
  exact floor_roundRat (by norm_num) (by norm_num; linarith) short' (by linarith) (by norm_num)

/-- A natural number lies between two powers of two. -/
private theorem log2_bounds {n : ℕ} (positive : 1 ≤ n) :
    (2 : ℚ) ^ (n.log2 : ℤ) ≤ n ∧ (n : ℚ) + 1 ≤ 2 ^ ((n.log2 : ℤ) + 1) := by
  constructor
  · exact_mod_cast Nat.log2_self_le (by omega)
  · exact_mod_cast Nat.lt_log2_self (n := n)

/-- The last double below the next integer. -/
private theorem short_pred {n : ℕ} (positive : 1 ≤ n) (log : n.log2 ≤ 51) :
    Short (n + 1 - 2 ^ ((n.log2 : ℤ) - 52)) := by
  obtain ⟨first, last⟩ := log2_bounds positive
  obtain ⟨k, hk⟩ := multiple_of_le (show (n.log2 : ℤ) - 52 ≤ 0 by omega) (n + 1)
  push_cast at hk
  rw [mul_one] at hk
  have unit : (2 : ℚ) ^ ((n.log2 : ℤ) - 52) ≤ 1 :=
    (two_zpow_mono (show (n.log2 : ℤ) - 52 ≤ 0 by omega)).trans_eq (zpow_zero 2)
  have nonneg : (0 : ℚ) ≤ n := by positivity
  have unitPositive : (0 : ℚ) < 2 ^ ((n.log2 : ℤ) - 52) := by positivity
  -- The number is a multiple of the unit of `n`, with no more bits than `n + 1` has.
  have least : minExponent ≤ (n.log2 : ℤ) - 52 := by
    unfold minExponent
    omega
  apply short_of_multiple (k := k - 1) least
  · rw [hk]
    push_cast
    ring
  · have same : ((53 : ℕ) : ℤ) + ((n.log2 : ℤ) - 52) = n.log2 + 1 := by
      push_cast
      ring
    rw [abs_of_nonneg (by linarith), two_pow_mul, same]
    linarith

/-- Below the next integer there is one more double, and the sum is at most this. -/
private theorem floor_half_of_middle (short : Short q) (low : 1 / 2 ≤ q) (high : q < 2 ^ 51) :
    (roundRat (q + 1 / 2)).floor = (q + 1 / 2).floor := by
  obtain ⟨atLeast, below⟩ := floor_eq_iff.mp (rfl : (q + 1 / 2).floor = _)
  generalize (q + 1 / 2).floor = n at atLeast below ⊢
  have positive : 1 ≤ n := by
    have : (0 : ℚ) < n := by linarith
    exact_mod_cast this
  lift n to ℕ using by omega
  rw [Int.cast_natCast] at atLeast below
  have small : n ≤ 2 ^ 51 := by
    have : (n : ℚ) < 2 ^ 51 + 1 := by linarith
    exact Nat.lt_succ_iff.mp (by exact_mod_cast this)
  -- The integer below the sum gives the unit that numbers of this size have at least.
  have log : n.log2 ≤ 51 :=
    Nat.lt_succ_iff.mp ((Nat.log2_lt (by omega)).mpr (by omega))
  obtain ⟨first, -⟩ := log2_bounds (n := n) (by omega)
  have unitPositive : (0 : ℚ) < 2 ^ ((n.log2 : ℤ) - 52) := by positivity
  have unitSmall : (2 : ℚ) ^ ((n.log2 : ℤ) - 52) ≤ 1 / 2 := by
    refine (two_zpow_mono (show (n.log2 : ℤ) - 52 ≤ -1 by omega)).trans_eq ?_
    norm_num
  -- The sum stays a unit below the next integer, so that it is not rounded up to it.
  have near : q + 1 / 2 ≤ n + 1 - 2 ^ ((n.log2 : ℤ) - 52) := by
    by_cases same : (2 : ℚ) ^ (n.log2 : ℤ) ≤ q
    · have multiple := short.multiple (j := n.log2) (by rwa [abs_of_nonneg (by linarith)])
      have half : ∃ k : ℤ, (n + 1 / 2 : ℚ) = k * 2 ^ ((n.log2 : ℤ) - 52) := by
        obtain ⟨k, hk⟩ := multiple_of_le (show (n.log2 : ℤ) - 52 ≤ -1 by omega) (2 * n + 1)
        refine ⟨k, ?_⟩
        rw [← hk]
        push_cast
        norm_num
        ring
      have apart := add_unit_le unitPositive multiple half (by linarith)
      linarith
    · -- The sum is at most one half above the integer.
      linarith
  apply floor_roundRat _ (by rwa [Int.cast_natCast]) (short_pred (by omega) log) near
  · rw [Int.cast_natCast]
    linarith
  · rw [abs_of_nonneg (by omega)]
    omega

/-- Below `2 ^ 52` in size, only one double has a sum that is rounded up to the next integer. -/
private theorem floor_half_of_fraction (short : Short q) (small : |q| < 2 ^ 52)
    (other : q ≠ lastBelowHalf) : (roundRat (q + 1 / 2)).floor = (q + 1 / 2).floor := by
  have high := (abs_lt.mp small).2
  -- The range is cut where the reason changes why the sum is exact or rounded harmlessly.
  rcases le_or_gt q (-(1 / 4)) with negative | aboveLow
  · have smaller : |q + 1 / 2| ≤ |q| := by
      rw [abs_of_nonpos (by linarith : q ≤ 0), abs_le]
      constructor <;> linarith
    exact floor_half_of_short (short_add_half short small.le smaller)
  rcases lt_or_ge q (1 / 4) with tiny | aboveQuarter
  · exact floor_half_of_small aboveLow tiny
  rcases lt_or_ge q (1 / 2) with near | aboveHalf
  · exact floor_half_of_near short aboveQuarter near other
  rcases lt_or_ge q (2 ^ 51) with middle | large
  · exact floor_half_of_middle short aboveHalf middle
  · exact floor_half_of_short (short_add_half_of_large short large high)

/-! ## Integers -/

/-- An integer is rounded half up to itself. -/
private theorem floor_add_half (m : ℤ) : ((m : ℚ) + 1 / 2).floor = m :=
  floor_eq_iff.mpr ⟨by linarith, by linarith⟩

/-- The floor of an integer is the integer. -/
private theorem floor_cast (m : ℤ) : (m : ℚ).floor = m := floor_eq_iff.mpr ⟨le_rfl, by linarith⟩

/-- Where doubles are one apart, the sum goes to the even neighbour. -/
private theorem floor_half_of_crowded {m : ℤ} (low : 2 ^ 52 ≤ |m|) (high : |m| < 2 ^ 53) :
    (roundRat (m + 1 / 2)).floor = m ↔ ¬(Odd m ∧ 2 ^ 52 < |m|) := by
  -- In this range only integers are doubles; a half is rounded to the even neighbour.
  rcases le_or_gt 0 m with nonneg | negative
  · lift m to ℕ using nonneg
    rw [Nat.abs_cast] at low high ⊢
    have rounded := roundRat_half (m := m) (by exact_mod_cast low) (by exact_mod_cast high)
    rw [Int.cast_natCast, rounded, ← Int.cast_natCast, floor_cast, Int.odd_coe_nat, Nat.odd_iff]
    split <;> omega
  · obtain ⟨n, rfl⟩ : ∃ n : ℕ, m = -((n + 1 : ℕ) : ℤ) := ⟨(-m - 1).toNat, by omega⟩
    rw [abs_neg, Nat.abs_cast] at low high ⊢
    have mirrored : ((-((n + 1 : ℕ) : ℤ) : ℤ) + 1 / 2 : ℚ) = -(n + 1 / 2) := by
      push_cast
      ring
    rcases lt_or_ge n (2 ^ 52) with small | large
    · -- The sum is below `2 ^ 52` in size, where halves are doubles.
      obtain rfl : n = 2 ^ 52 - 1 := by omega
      have exact : Short ((-((2 ^ 52 - 1 + 1 : ℕ) : ℤ) : ℤ) + 1 / 2 : ℚ) := by
        apply short_add_half (short_intCast (by norm_num)) <;> norm_num
      rw [floor_half_of_short exact, floor_add_half]
      simp
    · have rounded := roundRat_half (m := n) large (by omega)
      rw [mirrored, roundRat_neg, rounded, ← Int.cast_natCast, ← Int.cast_neg, floor_cast, neg_inj,
        odd_neg, Int.odd_coe_nat, Nat.odd_iff]
      split <;> omega

/-- The first power of two with too many bits still has few digits. -/
private theorem short_two_pow : Short (2 ^ 53) := ⟨2 ^ 52, 1, by norm_num, by decide, by norm_num⟩

/-- The sum does not go below `2 ^ 53` in size. -/
private theorem le_abs_roundRat_half {k : ℤ} (large : 2 ^ 53 ≤ |2 * k|) :
    2 ^ 53 ≤ |roundRat (2 * k + 1 / 2)| := by
  rcases le_or_gt 0 k with nonneg | negative
  · -- A positive number only grows by the half, and rounding is monotone.
    have low : (2 : ℚ) ^ 53 ≤ 2 * k + 1 / 2 := by
      rw [abs_of_nonneg (by omega)] at large
      have : (2 : ℚ) ^ 53 ≤ 2 * k := by exact_mod_cast large
      linarith
    exact (le_roundRat short_two_pow low).trans (le_abs_self _)
  rw [abs_of_neg (by omega)] at large
  rcases large.eq_or_lt with least | less
  · -- The sum is halfway between the least number of this size and the next one.
    have rounded := roundRat_half (m := 2 ^ 53 - 1) (by norm_num) (by norm_num)
    have mirrored : (2 * k + 1 / 2 : ℚ) = -(((2 ^ 53 - 1 : ℕ) : ℚ) + 1 / 2) := by
      have : (2 * k : ℚ) = -2 ^ 53 := by exact_mod_cast (neg_eq_iff_eq_neg.mp least.symm)
      rw [this]
      norm_num
    rw [mirrored, roundRat_neg, rounded]
    norm_num
  · -- Any other negative number stays below the power, again as rounding is monotone.
    have high : (2 * k + 1 / 2 : ℚ) ≤ -2 ^ 53 := by
      have even : 2 * k + 2 ≤ -2 ^ 53 := by omega
      have : (2 * k + 2 : ℚ) ≤ -2 ^ 53 := by exact_mod_cast even
      linarith
    exact (le_neg.mp (roundRat_le short_two_pow.neg high)).trans (neg_le_abs _)

/-- From `2 ^ 53` on, doubles are even, and the sum is rounded back. -/
private theorem floor_half_of_huge (short : Short q) (large : 2 ^ 53 ≤ |q|) :
    (roundRat (q + 1 / 2)).floor = (q + 1 / 2).floor := by
  obtain ⟨k, hk⟩ := short.multiple (j := 53) (by exact_mod_cast large)
  have even : q = 2 * k := by
    rw [hk]
    norm_num
    ring
  subst even
  -- Here every double is even, so a half is too little to reach the next one.
  have larger := le_abs_roundRat_half (k := k) (by exact_mod_cast large)
  have bits := short_roundRat (2 * (k : ℚ) + 1 / 2)
  obtain ⟨l, hl⟩ := bits.multiple (j := 53) (by exact_mod_cast larger)
  -- The rounded sum is at most as far from the sum as the number itself, which is one half.
  have near := roundRat_nearest (2 * k + 1 / 2) short
  have even : (l : ℚ) * 2 ^ ((53 : ℤ) - 52) = 2 * l := by
    norm_num
    ring
  rw [hl, even, sub_add_cancel_left, abs_neg,
    abs_of_pos (by norm_num : (0 : ℚ) < 1 / 2), abs_le] at near
  have atLeast : 2 * k ≤ 2 * l := by
    have : (2 * k : ℚ) ≤ 2 * l := by linarith
    exact_mod_cast this
  have atMost : 2 * l ≤ 2 * k + 1 := by
    have : (2 * l : ℚ) ≤ 2 * k + 1 := by linarith
    exact_mod_cast this
  obtain rfl : l = k := by omega
  have whole : (2 * l : ℚ) = (2 * l : ℤ) := by push_cast; rfl
  rw [hl, even, whole, floor_cast, floor_add_half]

/-- An integer that is so large is rounded to an even one that is as large. -/
theorem roundRat_of_large (large : 2 ^ 53 < |m|) :
    2 ^ 53 ≤ |roundRat m| ∧ ∃ k : ℤ, roundRat m = (k * 2 : ℤ) := by
  have huge : 2 ^ 53 ≤ |roundRat m| := by
    rcases lt_abs.mp large with positive | negative
    · have low : (2 : ℚ) ^ 53 ≤ m := by exact_mod_cast positive.le
      exact (le_roundRat short_two_pow low).trans (le_abs_self _)
    · have high : (m : ℚ) ≤ -2 ^ 53 := by exact_mod_cast (le_neg.mp negative.le)
      exact (le_neg.mp (roundRat_le short_two_pow.neg high)).trans (neg_le_abs _)
  obtain ⟨k, hk⟩ := (short_roundRat m).multiple (j := 53) (by exact_mod_cast huge)
  refine ⟨huge, k, ?_⟩
  rw [hk]
  norm_num

/-! ## All numbers -/

/-- The last double below one half is rounded up. -/
private theorem floor_half_lastBelowHalf :
    (roundRat (lastBelowHalf + 1 / 2)).floor = 1 ∧ (lastBelowHalf + 1 / 2).floor = 0 := by
  have sum : lastBelowHalf + 1 / 2 = mkRat (2 ^ 54 - 1) (2 ^ 54) := by
    norm_num [lastBelowHalf, Rat.mkRat_eq_div]
  rw [sum]
  decide +kernel

/-- A large number is not the last one below a half. -/
private theorem ne_lastBelowHalf (large : 2 ^ 52 ≤ |q|) : q ≠ lastBelowHalf := by
  rintro rfl
  norm_num [lastBelowHalf, abs_of_pos] at large

/-- Adding one half and going down comes to the nearest integer, with two exceptions. -/
private theorem floor_half_iff (short : Short q) :
    (roundRat (q + 1 / 2)).floor = (q + 1 / 2).floor ↔ q ≠ lastBelowHalf ∧ ¬ IsCrowdedOdd q := by
  -- Below `2 ^ 52` there are fractions, then only integers, and from `2 ^ 53` on only even ones.
  rcases lt_or_ge |q| (2 ^ 52) with fraction | large
  · -- A crowded number is at least as large as the greatest fraction.
    have spaced : ¬ IsCrowdedOdd q := by
      rintro ⟨m, rfl, -, low, -⟩
      have : (2 : ℚ) ^ 52 < |(m : ℚ)| := by exact_mod_cast low
      linarith
    rw [and_iff_left spaced]
    constructor
    · rintro same rfl
      rw [floor_half_lastBelowHalf.1, floor_half_lastBelowHalf.2] at same
      cases same
    · exact floor_half_of_fraction short fraction
  rw [and_iff_right (ne_lastBelowHalf large)]
  rcases lt_or_ge |q| (2 ^ 53) with crowded | huge
  · -- Between the two powers every double is an integer, and an odd one is rounded up to the next
    -- even.
    obtain ⟨m, hm⟩ := short.multiple (j := 52) (by exact_mod_cast large)
    rw [sub_self, zpow_zero, mul_one] at hm
    subst hm
    have low : 2 ^ 52 ≤ |m| := by exact_mod_cast large
    have high : |m| < 2 ^ 53 := by exact_mod_cast crowded
    rw [floor_add_half, floor_half_of_crowded low high, not_iff_not]
    constructor
    · rintro ⟨odd, above⟩
      exact ⟨m, rfl, odd, above, high⟩
    · rintro ⟨n, same, odd, above, -⟩
      obtain rfl : m = n := by exact_mod_cast same
      exact ⟨odd, above⟩
  · refine iff_of_true (floor_half_of_huge short huge) ?_
    rintro ⟨m, rfl, -, -, high⟩
    have : |(m : ℚ)| < 2 ^ 53 := by exact_mod_cast high
    linarith

/-! ## Doubles -/

/-- A number is the value of a double: it has few bits, and it is not too large. -/
def IsDouble (q : ℚ) : Prop := Short q ∧ |q| < bound

/-- The significand and the exponent of a finite double. -/
theorem decode_finite {x : Float} {negative : Bool} {significand : Nat} {exponent : ℤ}
    (h : decode x = .finite negative significand exponent) :
    significand < 2 ^ 53 ∧ minExponent ≤ exponent ∧ exponent ≤ 971 := by
  unfold decode fractions minExponent at h
  unfold minExponent
  dsimp only at h
  split at h
  · split at h <;> cases h
  · split at h
    · cases h
      omega
    · cases h
      omega

/-- A power of two, as a natural number and as a product. -/
private theorem natPow_eq {n m : ℕ} {e : ℤ} (h : (m : ℤ) + e = n) :
    ((Nat.pow 2 n : ℕ) : ℚ) = 2 ^ m * 2 ^ e := by
  rw [two_pow_mul, h, zpow_natCast]
  exact Nat.cast_pow 2 n

/-- The bound of doubles is the first number with 54 bits in the largest exponent. -/
theorem bound_eq : bound = 2 ^ 53 * 2 ^ (971 : ℤ) := by
  unfold bound
  apply natPow_eq
  norm_num

/-- The negation of a double is a double. -/
theorem IsDouble.neg (h : IsDouble q) : IsDouble (-q) := ⟨h.1.neg, by rw [abs_neg]; exact h.2⟩

/-- Few bits with an exponent in the range are a double. -/
private theorem isDouble_scale {significand : Nat} {exponent : ℤ} (few : significand < 2 ^ 53)
    (least : minExponent ≤ exponent) (most : exponent ≤ 971) :
    IsDouble (scale significand exponent) := by
  have few' : (significand : ℚ) < 2 ^ 53 := by exact_mod_cast few
  have positive : (0 : ℚ) < 2 ^ exponent := by positivity
  rw [scale_eq]
  refine ⟨⟨significand, exponent, by rw [Nat.abs_cast]; exact_mod_cast few, least, by simp⟩, ?_⟩
  rw [abs_of_nonneg (by positivity), bound_eq]
  have high := two_zpow_mono most
  calc (significand : ℚ) * 2 ^ exponent < 2 ^ 53 * 2 ^ exponent := by gcongr
    _ ≤ 2 ^ 53 * 2 ^ (971 : ℤ) := by gcongr

/-- The exact value of a double is a double. -/
theorem isDouble_of_toRat? {x : Float} (h : toRat? x = some q) : IsDouble q := by
  unfold toRat? at h
  -- Only a finite number has a value, and its sign does not matter.
  cases decoded : decode x with
  | infinite negative => rw [decoded] at h; cases h
  | nan => rw [decoded] at h; cases h
  | finite negative significand exponent =>
    obtain ⟨few, least, most⟩ := decode_finite decoded
    have double := isDouble_scale few least most
    rw [decoded] at h
    cases negative with
    | true =>
      cases h
      exact double.neg
    | false =>
      cases h
      exact double

end

end DiceNotation.Binary64

namespace DiceNotation

open Binary64 (Short IsDouble IsCrowdedOdd lastBelowHalf bound)

/-- The integer is the nearest one, a half going up. -/
def IsNearest (n : ℤ) (q : ℚ) : Prop := n - 1 / 2 ≤ q ∧ q < n + 1 / 2

/-- The nearest integer, ties going up, is the floor of the half-up sum. -/
private theorem isNearest_iff {n : ℤ} {q : ℚ} : IsNearest n q ↔ n = (q + 1 / 2).floor := by
  rw [eq_comm, Binary64.floor_eq_iff]
  unfold IsNearest
  constructor <;> rintro ⟨low, high⟩ <;> constructor <;> linarith

/-- There is one nearest integer. -/
theorem existsUnique_isNearest (q : ℚ) : ∃! n : ℤ, IsNearest n q :=
  ⟨(q + 1 / 2).floor, isNearest_iff.mpr rfl, fun _ h => isNearest_iff.mp h⟩

/-- The nearest integer of an integer is the integer. -/
private theorem isNearest_intCast {n m : ℤ} : IsNearest n m ↔ n = m := by
  rw [isNearest_iff, Binary64.floor_add_half]

namespace Number

/-- The numbers that are rounded to the nearest integer: they are doubles, but not the last one
    below one half, and no odd integers where doubles are one apart. -/
structure RoundsWell (q : ℚ) : Prop where
  double : IsDouble q
  other : q ≠ lastBelowHalf
  spaced : ¬ IsCrowdedOdd q

section

variable {a : Number} {q : ℚ} {n : ℤ}

/-- A number is converted to a double, a half is added, and the floor is taken of the result. -/
theorem roundHalfUp_of_exact (h : a.exact = .ok q) :
    a.roundHalfUp = if |Binary64.roundRat q| < bound
      then .ok (Binary64.roundRat (Binary64.roundRat q + 1 / 2)).floor
      else .error .tooLargeForReal := by
  unfold roundHalfUp
  rw [h]
  have half : mkRat 1 2 = (1 / 2 : ℚ) := by norm_num [Rat.mkRat_eq_div]
  show (if _ then _ else _ : Except NumberError Int) = _
  rw [half]
  by_cases inside : |Binary64.roundRat q| < bound
  · rw [if_pos inside, if_pos (abs_lt.mp inside).symm]
    rfl
  · rw [if_neg inside, if_neg fun both => inside (abs_lt.mpr both.symm)]
    rfl

/-- Integers and finite doubles have an exact value. -/
theorem exists_exact (bounded : a.isUnbounded = false) :
    ∃ q, a.exact = .ok q ∧ ((∃ m : ℤ, a = int m ∧ q = m) ∨ IsDouble q) := by
  cases a with
  | int m => exact ⟨m, rfl, .inl ⟨m, rfl, rfl⟩⟩
  | real x =>
    have finite : (Binary64.toRat? x).isSome = true := by
      rw [Binary64.isSome_toRat?]
      simpa [isUnbounded] using bounded
    obtain ⟨q, value⟩ := Option.isSome_iff_exists.mp finite
    refine ⟨q, ?_, .inr (Binary64.isDouble_of_toRat? value)⟩
    unfold exact
    dsimp only
    rw [place_of_toRat? value]

/-- A double is rounded to the nearest integer with two exceptions. -/
theorem roundHalfUp_of_isDouble (h : a.exact = .ok q) (double : IsDouble q) :
    (∃ n, a.roundHalfUp = .ok n ∧ IsNearest n q) ↔ RoundsWell q := by
  -- A double is not rounded by the conversion, so it stays within the range.
  have inside : |Binary64.roundRat q| < bound := by
    rw [Binary64.roundRat_of_short double.1]
    exact double.2
  rw [roundHalfUp_of_exact h, if_pos inside, Binary64.roundRat_of_short double.1]
  have exceptions := Binary64.floor_half_iff double.1
  constructor
  · rintro ⟨n, rounded, nearest⟩
    cases rounded
    obtain ⟨other, spaced⟩ := exceptions.mp (isNearest_iff.mp nearest)
    exact ⟨double, other, spaced⟩
  · intro well
    exact ⟨_, rfl, isNearest_iff.mpr (exceptions.mpr ⟨well.other, well.spaced⟩)⟩

/-- An integer that is left as it is by rounding is a double. -/
theorem isDouble_of_rounded {m : ℤ} (h : (int m).roundHalfUp = .ok m) : IsDouble m := by
  rw [roundHalfUp_of_exact (q := m) rfl] at h
  split at h
  · next inside =>
    suffices same : Binary64.roundRat m = m by
      rw [same] at inside
      exact ⟨same ▸ Binary64.short_roundRat m, inside⟩
    rcases le_or_gt |m| (2 ^ 53) with small | large
    · exact Binary64.roundRat_of_short (Binary64.short_intCast small)
    · -- What the integer is rounded to is too large to be changed by one half.
      obtain ⟨huge, k, whole⟩ := Binary64.roundRat_of_large large
      rw [Binary64.floor_half_of_huge (Binary64.short_roundRat m) huge, whole,
        Binary64.floor_add_half] at h
      rw [whole, Except.ok.inj h]
  · cases h

/-- What is rounded to the nearest integer is a double. -/
theorem isDouble_of_isNearest (bounded : a.isUnbounded = false) (h : a.exact = .ok q)
    (rounded : a.roundHalfUp = .ok n) (nearest : IsNearest n q) : IsDouble q := by
  obtain ⟨q', exact, ⟨m, rfl, rfl⟩ | double⟩ := exists_exact bounded
  · obtain rfl : m = q := by
      rw [h] at exact
      exact (Except.ok.inj exact).symm
    obtain rfl := isNearest_intCast.mp nearest
    exact isDouble_of_rounded rounded
  · rw [h] at exact
    exact Except.ok.inj exact ▸ double

/-- The numbers that are rounded to the nearest integer. -/
theorem roundHalfUp_iff (bounded : a.isUnbounded = false) (h : a.exact = .ok q) :
    (∃ n, a.roundHalfUp = .ok n ∧ IsNearest n q) ↔ RoundsWell q := by
  constructor
  · rintro ⟨n, rounded, nearest⟩
    have double := isDouble_of_isNearest bounded h rounded nearest
    exact (roundHalfUp_of_isDouble h double).mp ⟨n, rounded, nearest⟩
  · intro well
    exact (roundHalfUp_of_isDouble h well.double).mpr well

/-- Integers up to `2 ^ 52` in size are no exceptions. -/
theorem roundsWell_of_small (h : |n| ≤ 2 ^ 52) : RoundsWell n where
  double := by
    refine ⟨Binary64.short_intCast (h.trans (by norm_num)), ?_⟩
    have small : |(n : ℚ)| ≤ 2 ^ 52 := by exact_mod_cast h
    have large : (2 : ℚ) ^ 52 < 2 ^ 53 * 2 ^ (971 : ℤ) := by
      rw [Binary64.two_pow_mul, ← zpow_natCast]
      exact zpow_lt_zpow_right₀ (by norm_num) (by norm_num)
    rw [Binary64.bound_eq]
    exact small.trans_lt large
  other := by
    -- The exception is a fraction and no integer.
    intro same
    have positive : (0 : ℚ) < n := by
      rw [same]
      norm_num [lastBelowHalf]
    have below : (n : ℚ) < 1 := by
      rw [same]
      norm_num [lastBelowHalf]
    have positive' : 0 < n := by exact_mod_cast positive
    have below' : n < 1 := by exact_mod_cast below
    omega
  spaced := by
    -- The crowded numbers are larger.
    rintro ⟨m, same, -, low, -⟩
    obtain rfl : n = m := by exact_mod_cast same
    omega

/-- The integers that are left as they are. -/
theorem roundHalfUp_int_iff : (int n).roundHalfUp = .ok n ↔ RoundsWell n := by
  rw [← roundHalfUp_iff (a := int n) rfl rfl]
  constructor
  · intro rounded
    exact ⟨n, rounded, isNearest_intCast.mpr rfl⟩
  · rintro ⟨m, rounded, nearest⟩
    rw [rounded, isNearest_intCast.mp nearest]

end

end Number

end DiceNotation
