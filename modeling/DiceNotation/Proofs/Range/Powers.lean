import DiceNotation.Proofs.Range.Packing

/-! # Powers that doubles hold

A number is an odd number times a power of two in one way only.  So one with few bits has a small
odd part (`Short.odd`), and if its inverse has few bits too, the odd part is one
(`Short.odd_eq_one`).  The odd part of a power is the power of the odd part.

* `exists_exactPower?`      a power is not rounded if it is the value of a double
* `not_isFinite_power`      zero to a negative number -/

namespace DiceNotation.Binary64

section

variable {negative : Bool} {size q : ℚ} {m o : ℕ} {n t : ℤ}

/-! ## Odd parts -/

/-- A number is its odd part and a power of two. -/
private theorem oddPart_mul (limit m : ℕ) : (oddPart limit m).1 * 2 ^ (oddPart limit m).2 = m := by
  induction limit generalizing m with
  | zero => simp [oddPart]
  | succ limit ih =>
    unfold oddPart
    split
    · dsimp only
      rw [pow_succ, ← mul_assoc, ih]
      omega
    · simp

/-- The odd part of a number that is not zero is odd. -/
private theorem odd_oddPart {limit : ℕ} (positive : m ≠ 0) (few : m < 2 ^ limit) :
    Odd (oddPart limit m).1 := by
  induction limit generalizing m with
  | zero => omega
  | succ limit ih =>
    unfold oddPart
    split
    · apply ih <;> omega
    · next odd => exact Nat.odd_iff.mpr (by omega)

/-- Two sizes that are equal, in whole numbers. -/
private theorem cross_of_eq {k l e : ℤ} (same : (k : ℚ) * 2 ^ t = l * 2 ^ e) :
    k * 2 ^ (t - e).toNat = l * 2 ^ (e - t).toNat := by
  have positive : (2 : ℚ) ^ min t e ≠ 0 := by positivity
  have left : ((t - e).toNat : ℤ) + min t e = t := by omega
  have right : ((e - t).toNat : ℤ) + min t e = e := by omega
  have scaled : (k : ℚ) * 2 ^ (t - e).toNat * 2 ^ min t e =
      l * 2 ^ (e - t).toNat * 2 ^ min t e := by
    rw [mul_assoc, mul_assoc, two_pow_mul, two_pow_mul, left, right, same]
  exact_mod_cast mul_right_cancel₀ positive scaled

/-- The odd part of a number with few bits is small, and the rest is not below the least unit. -/
theorem Short.odd (odd : Odd o) (short : Short (o * 2 ^ t)) : o < 2 ^ 53 ∧ minExponent ≤ t := by
  obtain ⟨k, e, few, least, same⟩ := short
  have whole : (o : ℤ) * 2 ^ (t - e).toNat = k * 2 ^ (e - t).toNat :=
    cross_of_eq (by exact_mod_cast same)
  rcases lt_or_ge t e with coarse | fine
  · -- The odd part would be even.
    have left : (t - e).toNat = 0 := by omega
    obtain ⟨s, right⟩ : ∃ s, (e - t).toNat = s + 1 := ⟨(e - t).toNat - 1, by omega⟩
    rw [left, right, pow_zero, mul_one, pow_succ, ← mul_assoc] at whole
    have even : Even (o : ℤ) := whole ▸ even_two.mul_left _
    exact absurd (Int.even_coe_nat o |>.mp even) (Nat.not_even_iff_odd.mpr odd)
  · have right : (e - t).toNat = 0 := by omega
    rw [right, pow_zero, mul_one] at whole
    refine ⟨?_, least.trans fine⟩
    have atMost : (o : ℤ) ≤ o * 2 ^ (t - e).toNat :=
      le_mul_of_one_le_right (by omega) (one_le_pow₀ (by norm_num))
    have := (abs_lt.mp few).2
    omega

/-- Only powers of two have inverses with few bits. -/
theorem Short.odd_eq_one (odd : Odd o) (short : Short ((o : ℚ)⁻¹ * 2 ^ t)) : o = 1 := by
  obtain ⟨k, e, few, least, same⟩ := short
  have positive : (o : ℚ) ≠ 0 := by exact_mod_cast odd.pos.ne'
  rw [inv_mul_eq_iff_eq_mul₀ positive, ← mul_assoc] at same
  -- Multiplied out, the odd number divides a power of two.
  have whole : (1 : ℤ) * 2 ^ (t - e).toNat = o * k * 2 ^ (e - t).toNat := by
    apply cross_of_eq
    push_cast
    rw [one_mul]
    exact same
  have divides : o ∣ 2 ^ (t - e).toNat := by
    have : (o : ℤ) ∣ 2 ^ (t - e).toNat :=
      ⟨k * 2 ^ (e - t).toNat, by rw [← mul_assoc, ← whole, one_mul]⟩
    exact_mod_cast this
  exact ((Nat.coprime_two_right.mpr odd).pow_right _).eq_one_of_dvd divides

/-! ## Signs -/

/-- The sign of a power depends on whether the exponent is odd. -/
private theorem signed_zpow (negative : Bool) (size : ℚ) (n : ℤ) :
    signed negative size ^ n = signed (negative && n.natAbs % 2 == 1) (size ^ n) := by
  cases negative with
  | false => rfl
  | true =>
    rcases Int.even_or_odd n with even | odd
    · have parity : n.natAbs % 2 = 0 := Nat.even_iff.mp (Int.natAbs_even.mpr even)
      simp [signed, parity, even.neg_zpow]
    · have parity : n.natAbs % 2 = 1 := Nat.odd_iff.mp (Int.natAbs_odd.mpr odd)
      simp [signed, parity, odd.neg_zpow]

/-- A double with an exact value is decoded as finite. -/
private theorem exists_decode {x : Float} (h : toRat? x = some q) :
    ∃ negative significand exponent, decode x = .finite negative significand exponent ∧
      q = signed negative (scale significand exponent) := by
  cases decoded : decode x with
  | infinite _ => simp [toRat?, decoded] at h
  | nan => simp [toRat?, decoded] at h
  | finite negative significand exponent =>
    rw [toRat?_of_decode decoded] at h
    exact ⟨_, _, _, rfl, (Option.some.inj h).symm⟩

/-- The size of a double is a double. -/
theorem IsDouble.of_signed (double : IsDouble (signed negative size)) : IsDouble size := by
  cases negative with
  | false => exact double
  | true => exact neg_neg size ▸ double.neg

/-! ## Powers -/

/-- The bound of doubles is a power of two. -/
private theorem bound_eq_zpow : bound = 2 ^ (1024 : ℤ) := by
  rw [bound_eq, two_pow_mul]
  rfl

/-- What makes a power of an odd number times a power of two the value of a double: the odd part is
    one, or its power has few bits. -/
private theorem odd_zpow_cases (odd : Odd o) (double : IsDouble (((o : ℚ) * 2 ^ t) ^ n)) :
    ¬ (o ≠ 1 ∧ (53 < n.natAbs ∨ n < 0)) ∧
      ((o : ℚ) * 2 ^ t) ^ n = (o ^ n.natAbs : ℕ) * 2 ^ (t * n) ∧
      o ^ n.natAbs < 2 ^ 53 ∧ minExponent ≤ t * n ∧ t * n ≤ 1023 := by
  have power : ((o : ℚ) * 2 ^ t) ^ n = (o : ℚ) ^ n * 2 ^ (t * n) := by
    rw [mul_zpow, ← zpow_mul]
  -- The inverse of an odd number above one is no double.
  have one_or : o = 1 ∨ 0 ≤ n := by
    by_contra neither
    rw [not_or, not_le] at neither
    have inverse : (o : ℚ) ^ n = ((o ^ n.natAbs : ℕ) : ℚ)⁻¹ := by
      have : n = -(n.natAbs : ℤ) := by omega
      nth_rewrite 1 [this]
      rw [zpow_neg, zpow_natCast, Nat.cast_pow]
    rw [power, inverse] at double
    have := double.1.odd_eq_one odd.pow
    exact neither.1 ((pow_eq_one_iff.mp this).resolve_right (by omega))
  have whole : (o : ℚ) ^ n = (o ^ n.natAbs : ℕ) := by
    rcases one_or with rfl | nonneg
    · simp
    · rw [Nat.cast_pow, ← zpow_natCast, Int.natAbs_of_nonneg nonneg]
  rw [whole] at power
  rw [power] at double ⊢
  obtain ⟨few, least⟩ := double.1.odd odd.pow
  refine ⟨?_, rfl, few, least, ?_⟩
  · -- A power with more than fifty-three factors has too many bits.
    rintro ⟨other, many | negative⟩
    · have two : 2 ≤ o := by
        have := odd.pos
        omega
      have := (Nat.pow_le_pow_left two n.natAbs).trans_lt few
      have := (Nat.pow_lt_pow_iff_right (by decide)).mp this
      omega
    · rcases one_or with same | nonneg
      · exact other same
      · omega
  · have one : (1 : ℚ) ≤ (o ^ n.natAbs : ℕ) := by exact_mod_cast odd.pow.pos
    have positive : (0 : ℚ) < 2 ^ (t * n) := by positivity
    -- The power of two is at most the whole, which is below the bound.
    have below : (2 : ℚ) ^ (t * n) < 2 ^ (1024 : ℤ) := by
      calc (2 : ℚ) ^ (t * n)
        _ ≤ (o ^ n.natAbs : ℕ) * 2 ^ (t * n) := le_mul_of_one_le_left positive.le one
        _ < bound := (abs_lt.mp double.2).2
        _ = 2 ^ (1024 : ℤ) := bound_eq_zpow
    have := lt_of_two_zpow_lt below
    omega

/-- The double of a power of zero. -/
private theorem toRat?_zeroPower {minus : Bool} (nonneg : 0 ≤ n) (even : n = 0 → minus = false) :
    toRat? (zeroPower minus n) = some (0 ^ n) := by
  unfold zeroPower
  by_cases zero : n = 0
  · subst zero
    rw [even rfl]
    decide +kernel
  · rw [if_neg zero, if_neg (not_lt.mpr nonneg), zero_zpow n zero]
    cases minus <;> decide +kernel

/-- A power is computed without rounding if it is the value of a double. -/
theorem exists_exactPower? {x y : Float} (hx : toRat? x = some q) (hy : toRat? y = some (n : ℚ))
    (defined : q ≠ 0 ∨ 0 ≤ n) (double : IsDouble (q ^ n)) :
    ∃ z, exactPower? x y = some z ∧ toRat? z = some (q ^ n) := by
  obtain ⟨negative, m, e, decoded, rfl⟩ := exists_decode hx
  have few := (decode_finite decoded).1
  unfold exactPower?
  rw [decoded, hy]
  dsimp only
  rw [Rat.num_intCast, Rat.den_intCast, if_neg (not_not.mpr rfl)]
  -- A power of zero has cases of its own.
  by_cases zero : m = 0
  · subst zero
    have nothing : signed negative (scale 0 e) = 0 := by
      rw [scale_eq]
      cases negative <;> simp [signed]
    rw [nothing] at defined ⊢
    rw [if_pos rfl]
    refine ⟨_, rfl, toRat?_zeroPower (defined.resolve_left (not_not.mpr rfl)) ?_⟩
    rintro rfl
    exact Bool.and_false _
  -- What the evaluation tests is the odd part of the significand, raised on its own.
  have odd := odd_oddPart zero few
  have parts := oddPart_mul 53 m
  generalize oddPart 53 m = split at odd parts
  obtain ⟨o, s⟩ := split
  dsimp only at odd parts
  have value : scale m e = o * 2 ^ (e + s) := by
    rw [scale_eq, ← parts, two_zpow_add, zpow_natCast]
    push_cast
    ring
  rw [signed_zpow] at double ⊢
  have size : IsDouble (scale m e ^ n) := double.of_signed
  rw [value] at size double ⊢
  obtain ⟨simple, power, small, least, most⟩ := odd_zpow_cases odd size
  have significand : (if o = 1 then 1 else o ^ n.natAbs) = o ^ n.natAbs := by
    split
    · next one => rw [one, one_pow]
    · rfl
  dsimp only
  -- So none of the tests gives the power up, and what is left is converted without rounding.
  rw [if_neg zero, if_neg simple]
  rw [significand, if_neg (by unfold fractions; omega), scale_eq, ← power]
  exact exists_ofRat? double

/-- Zero to a negative number is not finite. -/
theorem exactPower?_zero {x y : Float} (hx : toRat? x = some 0) (hy : toRat? y = some (n : ℚ))
    (negative : n < 0) : ∃ z, exactPower? x y = some z ∧ z.isFinite = false := by
  obtain ⟨minus, m, e, decoded, nothing⟩ := exists_decode hx
  have zero : m = 0 := by
    have positive : (2 : ℚ) ^ e ≠ 0 := by positivity
    rw [scale_eq] at nothing
    cases minus <;> simpa [signed, positive] using nothing.symm
  unfold exactPower?
  rw [decoded, hy]
  dsimp only
  rw [Rat.num_intCast, Rat.den_intCast, if_neg (not_not.mpr rfl), if_pos zero]
  refine ⟨_, rfl, ?_⟩
  unfold zeroPower
  rw [if_neg negative.ne, if_pos negative]
  generalize (minus && n.natAbs % 2 == 1) = sign
  -- Both infinities are not finite.
  cases sign <;> decide +kernel

end

/-! ## Powers of integers -/

section

variable {a b n : ℤ}

/-- The sign adds no digits. -/
private theorem short_abs {q : ℚ} : Short |q| ↔ Short q := by
  rcases abs_choice q with same | opposite
  · rw [same]
  · rw [opposite]
    exact ⟨fun h => neg_neg q ▸ h.neg, Short.neg⟩

/-- The root of a number with few bits has few bits. -/
private theorem short_of_pow {k : ℕ} (positive : 0 < k) (short : Short ((a : ℚ) ^ k)) :
    Short a := by
  -- The sign does not matter, so the base is a natural number.
  rw [← short_abs, abs_pow] at short
  rw [← short_abs]
  rw [← Int.cast_abs, ← Nat.cast_natAbs] at short ⊢
  by_cases zero : a.natAbs = 0
  · rw [zero]
    exact short_intCast (n := 0) (by norm_num)
  -- A power has the odd part of the base raised, which is no shorter than that of the base.
  have odd := odd_oddPart zero Nat.lt_two_pow_self
  have parts := oddPart_mul a.natAbs a.natAbs
  generalize oddPart a.natAbs a.natAbs = split at odd parts
  obtain ⟨o, s⟩ := split
  dsimp only at odd parts
  have power : (a.natAbs : ℚ) ^ k = (o ^ k : ℕ) * 2 ^ ((s * k : ℕ) : ℤ) := by
    rw [← parts, zpow_natCast]
    push_cast
    rw [mul_pow, ← pow_mul]
  rw [power] at short
  have small : o < 2 ^ 53 := (Nat.le_self_pow positive.ne' o).trans_lt (short.odd odd.pow).1
  refine ⟨o, s, by rw [Nat.abs_cast]; exact_mod_cast small, by unfold minExponent; omega, ?_⟩
  rw [← parts, zpow_natCast]
  push_cast
  rfl

/-- Rounding keeps the sign of an integer. -/
theorem roundRat_pos (positive : 0 < b) : 0 < roundRat b := by
  have one : Short 1 := by exact_mod_cast short_intCast (n := 1) (by norm_num)
  have low : (1 : ℚ) ≤ b := by exact_mod_cast positive
  exact zero_lt_one.trans_le (le_roundRat one low)

/-- An integer is rounded to an integer. -/
theorem exists_roundRat (b : ℤ) : ∃ n : ℤ, roundRat b = n := by
  by_cases small : |b| ≤ 2 ^ 53
  · exact ⟨b, roundRat_of_short (short_intCast small)⟩
  · obtain ⟨-, k, whole⟩ := roundRat_of_large (not_le.mp small)
    exact ⟨k * 2, whole⟩

/-- An integer that is not too large is not changed by rounding. -/
private theorem eq_of_roundRat (rounded : roundRat b = n) (small : |b| ≤ 2 ^ 53) : n = b := by
  rw [roundRat_of_short (short_intCast small)] at rounded
  exact_mod_cast rounded.symm

/-- Powers of zero and of units are not changed when the exponent is rounded, unless its parity is
    lost. -/
private theorem zpow_of_unit (few : |a| ≤ 1) (rounded : roundRat b = n) (defined : a ≠ 0 ∨ 0 ≤ b)
    (parity : ¬ (a = -1 ∧ Odd b ∧ 2 ^ 53 < |b|)) :
    (a : ℚ) ^ n = (a : ℚ) ^ b ∧ ((a : ℚ) ≠ 0 ∨ 0 ≤ n) := by
  -- The base is zero, one or minus one.
  obtain rfl | rfl | rfl := Int.abs_le_one_iff.mp few
  · have nonneg : 0 ≤ b := defined.resolve_left (not_not.mpr rfl)
    rcases nonneg.eq_or_lt with rfl | positive
    · rw [eq_of_roundRat rounded (by norm_num)]
      exact ⟨rfl, .inr le_rfl⟩
    · have stays : 0 < n := by
        have := roundRat_pos positive
        rw [rounded] at this
        exact_mod_cast this
      rw [Int.cast_zero, zero_zpow n stays.ne', zero_zpow b positive.ne']
      exact ⟨rfl, .inr stays.le⟩
  · simp
  · by_cases near : |b| ≤ 2 ^ 53
    · rw [eq_of_roundRat rounded near]
      simp
    · -- The exponent is even, and so is what it is rounded to.
      obtain ⟨-, k, whole⟩ := roundRat_of_large (not_le.mp near)
      have even : Even b := by
        rw [← Int.not_odd_iff_even]
        exact fun odd => parity ⟨rfl, odd, not_le.mp near⟩
      have stays : Even n := by
        have same : n = k * 2 := by exact_mod_cast rounded.symm.trans whole
        exact same ▸ even_two.mul_left k
      push_cast
      rw [even.neg_one_zpow, stays.neg_one_zpow]
      exact ⟨rfl, .inl (by norm_num)⟩

/-- The exponent is small if a power of a greater integer is an integer and the value of a double,
    and the base has few bits. -/
private theorem short_of_zpow (large : 1 < |a|) (whole : ∃ m : ℤ, (a : ℚ) ^ b = m)
    (double : IsDouble ((a : ℚ) ^ b)) : 0 ≤ b ∧ b < 1024 ∧ (b ≠ 0 → Short a) := by
  have two : (2 : ℚ) ≤ |(a : ℚ)| := by exact_mod_cast Int.add_one_le_of_lt large
  have nonneg : 0 ≤ b := by
    by_contra negative
    obtain ⟨m, value⟩ := whole
    have below := zpow_lt_one_of_neg₀ (one_lt_two.trans_le two) (not_le.mp negative)
    rw [← abs_zpow, value, ← Int.cast_abs] at below
    have zero : m = 0 := Int.abs_lt_one_iff.mp (by exact_mod_cast below)
    rw [zero, Int.cast_zero] at value
    exact zpow_ne_zero b (abs_pos.mp (two_pos.trans_le two)) value
  -- The exponent is not negative, since the inverse of a larger number is not whole.
  lift b to ℕ using nonneg
  rw [zpow_natCast] at double
  refine ⟨Int.natCast_nonneg b, ?_, fun positive => short_of_pow (by omega) double.1⟩
  apply lt_of_two_zpow_lt
  -- A base of two or more has a power as large as that of two.
  calc (2 : ℚ) ^ (b : ℤ) ≤ |(a : ℚ)| ^ b := by
        rw [zpow_natCast]
        gcongr
    _ = |(a : ℚ) ^ b| := (abs_pow _ _).symm
    _ < bound := double.2
    _ = 2 ^ (1024 : ℤ) := bound_eq_zpow

/-- A power that is an integer and the value of a double is not changed when base and exponent are
    rounded, unless the parity of the exponent is lost. -/
theorem roundRat_zpow (rounded : roundRat b = n) (defined : a ≠ 0 ∨ 0 ≤ b)
    (whole : ∃ m : ℤ, (a : ℚ) ^ b = m) (double : IsDouble ((a : ℚ) ^ b))
    (parity : ¬ (a = -1 ∧ Odd b ∧ 2 ^ 53 < |b|)) :
    roundRat a ^ n = (a : ℚ) ^ b ∧ (roundRat a ≠ 0 ∨ 0 ≤ n) := by
  by_cases few : |a| ≤ 1
  · rw [roundRat_of_short (short_intCast (few.trans (by norm_num)))]
    exact zpow_of_unit few rounded defined parity
  · obtain ⟨nonneg, small, short⟩ := short_of_zpow (not_le.mp few) whole double
    obtain rfl := eq_of_roundRat rounded (by rw [abs_of_nonneg nonneg]; omega)
    refine ⟨?_, .inr nonneg⟩
    by_cases zero : n = 0
    · rw [zero, zpow_zero, zpow_zero]
    · rw [roundRat_of_short (short zero)]

end

end DiceNotation.Binary64
