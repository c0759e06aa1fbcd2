import DiceNotation.Proofs.Range.HalfUp

/-! # Doubles with a given value

A significand and an exponent as rounding gives them make a double that stands for just this number,
unless it is beyond the largest double.  So the double nearest to a number stands for the number
rounded to 53 bits.

* `toBits_ofBits`     a finite double has the bits it is made of
* `toRat?_ofRatio?`, `toRat?_ofRat?`, `toRat?_ofInt?`     the value of a nearest double
* `exists_ofRat?`     a number with few bits has a double of its own -/

namespace DiceNotation.Binary64

open Float.Model (Format UnpackedFloat)
open Float.Model.UnpackedFloat

/-! ## Bits -/

section

variable {b c : BitVec 64}

/-- The sign, the exponent and the fraction make up a word. -/
private theorem eq_of_fields (sign : @unpackSign Format.binary64 b = @unpackSign Format.binary64 c)
    (exponent : @unpackExponent Format.binary64 b = @unpackExponent Format.binary64 c)
    (mantissa : @unpackMantissa Format.binary64 b = @unpackMantissa Format.binary64 c) : b = c := by
  rw [← BitVec.toNat_inj, toNat_unpackSign, toNat_unpackSign] at sign
  rw [← BitVec.toNat_inj, toNat_unpackExponent, toNat_unpackExponent] at exponent
  rw [← BitVec.toNat_inj, toNat_unpackMantissa, toNat_unpackMantissa] at mantissa
  unfold signBit at sign
  unfold fractions at exponent mantissa
  apply BitVec.eq_of_toNat_eq
  have := b.isLt
  have := c.isLt
  omega

/-- A sign is one bit. -/
private theorem toBitVec_ofBitVec (s : BitVec 1) : (Sign.ofBitVec s).toBitVec = s := by
  revert s
  decide

/-- A word is what its fields are packed to. -/
private theorem packComponents_unpack {exponent : BitVec 11} {mantissa : BitVec 52}
    (hexponent : exponent = @unpackExponent Format.binary64 b)
    (hmantissa : mantissa = @unpackMantissa Format.binary64 b) :
    packComponents Format.binary64 (Sign.ofBitVec (@unpackSign Format.binary64 b)) exponent
      mantissa = b := by
  apply eq_of_fields
  · rw [unpackSign_packComponents, toBitVec_ofBitVec]
  · rw [unpackExponent_packComponents, hexponent]
  · rw [unpackMantissa_packComponents, hmantissa]

/-- A finite double is packed again as it was. -/
private theorem pack_unpack (finite : b.toNat / fractions % 2048 ≠ 2047) :
    pack Format.binary64 (unpack Format.binary64 b) = b := by
  have top : @unpackExponent Format.binary64 b ≠ -1#_ := by
    intro all
    apply finite
    rw [← toNat_unpackExponent, all]
    rfl
  have fraction : (@unpackMantissa Format.binary64 b).toNat < 2 ^ 52 :=
    (@unpackMantissa Format.binary64 b).isLt
  unfold unpack
  dsimp only
  rw [if_neg top]
  -- Zero and the subnormal numbers have no implicit bit.
  by_cases low : @unpackExponent Format.binary64 b = 0#_
  · rw [if_pos low]
    by_cases none : @unpackMantissa Format.binary64 b = 0#_
    · rw [dif_pos none]
      exact packComponents_unpack low.symm none.symm
    · -- A significand with fewer bits is packed as it is.
      rw [dif_neg none]
      have few : (@unpackMantissa Format.binary64 b).toNat.log2 < 52 := by
        apply (Nat.log2_lt _).mpr fraction
        intro zero
        exact none (BitVec.eq_of_toNat_eq zero)
      unfold pack
      dsimp only
      rw [low, if_neg (by decide), if_neg]
      · apply packComponents_unpack low.symm
        exact BitVec.ofNat_toNat _ _
      · show ¬ _ = 53
        omega
  · rw [if_neg low]
    -- A normal number gets its implicit bit back, which packing takes away again.
    have implicit : (1#1 ++ @unpackMantissa Format.binary64 b).toNat =
        2 ^ 52 + (@unpackMantissa Format.binary64 b).toNat := by
      rw [BitVec.toNat_append, ← Nat.shiftLeft_add_eq_or_of_lt fraction]
      rfl
    have normal : (2 ^ 52 + (@unpackMantissa Format.binary64 b).toNat).log2 = 52 :=
      (Nat.log2_eq_iff (by omega)).mpr ⟨by omega, by omega⟩
    have field : (@unpackExponent Format.binary64 b).toNat < 2 ^ 11 :=
      (@unpackExponent Format.binary64 b).isLt
    have notTop : (@unpackExponent Format.binary64 b).toNat ≠ 2047 := by
      rwa [toNat_unpackExponent]
    -- Adding the bias to the exponent undoes the unpacking.
    have biased (n : ℕ) :
        ((n : ℤ) - ((1023 : ℕ) + (52 : ℕ)) + (1023 : ℕ) + (52 : ℕ)).toNat = n := by
      omega
    unfold pack
    dsimp only
    simp only [implicit, normal]
    rw [show Format.binary64.exponentBias = 1023 from rfl, biased, if_neg, if_pos]
    · apply packComponents_unpack
      · exact BitVec.ofNat_toNat _ _
      · apply BitVec.eq_of_toNat_eq
        rw [BitVec.toNat_ofNat]
        show (2 ^ 52 + _) % 2 ^ 52 = _
        omega
    · rfl
    · show ¬ 2 ^ 11 ≤ _
      omega

/-- A finite double has the bits it is made of. -/
theorem toBits_ofBits {a : UInt64} (finite : a.toNat / fractions % 2048 ≠ 2047) :
    (Float.ofBits a).toBits = a := by
  apply UInt64.toBitVec_inj.mp
  exact pack_unpack finite

end

/-! ## Parts -/

section

variable {significand num den : ℕ} {exponent : ℤ} {negative : Bool} {x : Float} {q : ℚ}

/-- A size with a sign. -/
def signed (negative : Bool) (size : ℚ) : ℚ := if negative then -size else size

/-- The size of a signed number. -/
private theorem abs_signed (negative : Bool) (size : ℚ) : |signed negative size| = |size| := by
  unfold signed
  split
  · exact abs_neg size
  · rfl

/-- A significand and an exponent as they are stored: the significand has 53 bits, or it is the
    next power of two, or the exponent is the least one. -/
structure Canonical (significand : ℕ) (exponent : ℤ) : Prop where
  few : significand ≤ 2 ^ 53
  least : minExponent ≤ exponent
  full : 2 ^ 52 ≤ significand ∨ exponent = minExponent

/-- The nearest significand and exponent are canonical. -/
private theorem canonical_nearest (num : ℕ) (hden : 0 < den) :
    Canonical (nearest num den).1 (nearest num den).2 := by
  rcases Nat.eq_zero_or_pos num with rfl | hnum
  · exact ⟨Nat.zero_le _, le_rfl, .inr rfl⟩
  have units : nearest num den = (roundDiv (num * 2 ^ (-unit num den).toNat)
      (den * 2 ^ (unit num den).toNat), unit num den) := if_neg hnum.ne'
  rw [units]
  refine ⟨roundDiv_units_le hnum hden, le_max_right _ _, ?_⟩
  rcases (le_max_right _ _ : minExponent ≤ unit num den).eq_or_lt with least | fine
  · exact .inr least.symm
  · exact .inl (le_roundDiv_units hnum hden fine)

/-- The parts of a double are read off its bits. -/
private theorem decode_ofBits (negative : Bool) {magnitude : ℕ}
    (small : magnitude < 2047 * fractions) :
    decode (Float.ofBits (UInt64.ofNat (magnitude + if negative then signBit else 0))) =
      if magnitude / fractions = 0 then .finite negative magnitude minExponent
      else .finite negative (fractions + magnitude % fractions)
        (minExponent + (magnitude / fractions : ℕ) - 1) := by
  generalize hbits : (magnitude + if negative then signBit else 0) = bits
  -- The sign, the exponent and the fraction are read from separate parts of the bits.
  have size : (UInt64.ofNat bits).toNat = bits := by
    rw [UInt64.toNat_ofNat', Nat.mod_eq_of_lt]
    rw [← hbits]
    unfold fractions at small
    unfold signBit
    split <;> omega
  have sign : decide (signBit ≤ bits) = negative := by
    rw [← hbits]
    unfold fractions at small
    unfold signBit
    cases negative
    · simp
      omega
    · simp
  have fraction : bits % fractions = magnitude % fractions := by
    rw [← hbits]
    unfold fractions signBit
    split <;> omega
  have field : bits / fractions % 2048 = magnitude / fractions := by
    rw [← hbits]
    unfold fractions at small ⊢
    unfold signBit
    split <;> omega
  have finite : magnitude / fractions < 2047 := by
    unfold fractions at small ⊢
    omega
  -- The bits survive the way into a number and back, since they do not stand for infinity.
  have kept := toBits_ofBits (a := UInt64.ofNat bits) (by rw [size, field]; exact finite.ne)
  unfold decode
  rw [kept, size]
  dsimp only
  rw [sign, fraction, field, if_neg finite.ne]
  split
  · next low =>
    have whole : magnitude % fractions = magnitude := by
      unfold fractions at low ⊢
      omega
    rw [whole]
  · rfl

/-- The exact value of a finite double is its significand in its exponent. -/
theorem toRat?_of_decode (h : decode x = .finite negative significand exponent) :
    toRat? x = some (signed negative (scale significand exponent)) := by
  unfold toRat? signed
  rw [h]
  cases negative <;> rfl

/-- The value of a double with a canonical significand and exponent. -/
private theorem toRat?_ofParts? (canonical : Canonical significand exponent)
    (h : ofParts? negative significand exponent = some x) :
    toRat? x = some (signed negative (scale significand exponent)) := by
  obtain ⟨few, least, full⟩ := canonical
  obtain ⟨k, rfl⟩ : ∃ k : ℕ, exponent = minExponent + k :=
    ⟨(exponent - minExponent).toNat, by omega⟩
  unfold ofParts? at h
  dsimp only at h
  rw [add_sub_cancel_left, Int.toNat_natCast] at h
  split at h
  · next small =>
    cases h
    have decoded := decode_ofBits negative small
    -- A significand without its leading bit belongs to the least exponent.
    rcases lt_or_ge significand (2 ^ 52) with fraction | normal
    · obtain rfl : k = 0 := by omega
      have low : (0 * fractions + significand) / fractions = 0 := by
        unfold fractions
        omega
      rw [if_pos low] at decoded
      rw [toRat?_of_decode decoded, Nat.zero_mul, Nat.zero_add]
      rfl
    -- The leading bit is added to the exponent field, which is why the exponent is one less in
    -- decoding.
    rcases few.lt_or_eq with fewer | rfl
    · have field : (k * fractions + significand) / fractions = k + 1 := by
        unfold fractions
        omega
      have rest : fractions + (k * fractions + significand) % fractions = significand := by
        unfold fractions
        omega
      rw [field, rest, if_neg k.succ_ne_zero, Nat.cast_succ, ← add_assoc,
        add_sub_cancel_right] at decoded
      exact toRat?_of_decode decoded
    · -- The significand carries into the exponent field.
      have field : (k * fractions + 2 ^ 53) / fractions = k + 1 + 1 := by
        unfold fractions
        omega
      have rest : fractions + (k * fractions + 2 ^ 53) % fractions = 2 ^ 52 := by
        unfold fractions
        omega
      have same : scale (2 ^ 52) (minExponent + k + 1) = scale (2 ^ 53) (minExponent + k) := by
        rw [scale_eq, scale_eq, two_zpow_add _ 1]
        push_cast
        ring
      rw [field, rest, if_neg (k + 1).succ_ne_zero, Nat.cast_succ, Nat.cast_succ, ← add_assoc,
        ← add_assoc, add_sub_cancel_right] at decoded
      rw [toRat?_of_decode decoded, same]
  · cases h

/-- There is such a double unless its value is beyond the largest double. -/
private theorem isSome_ofParts? (canonical : Canonical significand exponent) :
    (ofParts? negative significand exponent).isSome = true ↔
      scale significand exponent < bound := by
  obtain ⟨few, least, full⟩ := canonical
  obtain ⟨k, rfl⟩ : ∃ k : ℕ, exponent = minExponent + k :=
    ⟨(exponent - minExponent).toNat, by omega⟩
  -- The bits fit exactly if they are less than those of infinity.
  have fits : (ofParts? negative significand (minExponent + k)).isSome = true ↔
      k * fractions + significand < 2047 * fractions := by
    unfold ofParts?
    dsimp only
    rw [add_sub_cancel_left, Int.toNat_natCast]
    split <;> simp [*]
  rw [fits, scale_eq, bound_eq]
  have positive : (0 : ℚ) < 2 ^ (minExponent + k) := by positivity
  -- With a lesser exponent every significand fits, with a greater one none does.
  rcases lt_trichotomy k 2045 with low | rfl | high
  · apply iff_of_true
    · unfold fractions
      omega
    · have few' : (significand : ℚ) ≤ 2 ^ 53 := by exact_mod_cast few
      calc (significand : ℚ) * 2 ^ (minExponent + k) ≤ 2 ^ 53 * 2 ^ (minExponent + k) := by gcongr
        _ < 2 ^ 53 * 2 ^ (971 : ℤ) := by
          gcongr
          · norm_num
          · unfold minExponent
            omega
  · have top : minExponent + (2045 : ℕ) = 971 := by decide
    rw [top, mul_lt_mul_iff_left₀ (by positivity)]
    have cast : (significand : ℚ) < 2 ^ 53 ↔ significand < 2 ^ 53 := by exact_mod_cast Iff.rfl
    rw [cast]
    unfold fractions
    omega
  · have normal : 2 ^ 52 ≤ significand := by omega
    apply iff_of_false
    · unfold fractions
      omega
    · have normal' : (2 : ℚ) ^ 52 ≤ significand := by exact_mod_cast normal
      rw [not_lt]
      calc (2 : ℚ) ^ 53 * 2 ^ (971 : ℤ) = 2 ^ 52 * 2 ^ (972 : ℤ) := by
            rw [two_pow_mul, two_pow_mul]
            rfl
        _ ≤ (significand : ℚ) * 2 ^ (minExponent + k) := by
          gcongr
          · norm_num
          · unfold minExponent
            omega

end

/-! ## The nearest double -/

section

variable {num den : ℕ} {negative : Bool} {x : Float} {q : ℚ} {n : ℤ}

/-- The double nearest to a quotient has the value of the quotient rounded to 53 bits. -/
theorem toRat?_ofRatio? (hden : 0 < den) (h : ofRatio? negative num den = some x) :
    toRat? x = some (signed negative (scale (nearest num den).1 (nearest num den).2)) :=
  toRat?_ofParts? (canonical_nearest num hden) h

/-- A quotient has a double if and only if it is rounded below the bound. -/
private theorem isSome_ofRatio? (negative : Bool) (num : ℕ) (hden : 0 < den) :
    (ofRatio? negative num den).isSome = true ↔
      scale (nearest num den).1 (nearest num den).2 < bound :=
  isSome_ofParts? (canonical_nearest num hden)

/-- A number is rounded by its size, with its sign. -/
private theorem roundRat_eq_signed (q : ℚ) :
    roundRat q = signed (q.num < 0) (scale (nearest q.num.natAbs q.den).1
      (nearest q.num.natAbs q.den).2) := by
  unfold roundRat signed
  simp only [decide_eq_true_eq]

/-- The double made of a number is the one that the number is rounded to. -/
theorem toRat?_ofRat? (h : ofRat? q = some x) : toRat? x = some (roundRat q) := by
  rw [roundRat_eq_signed]
  exact toRat?_ofRatio? q.den_pos h

/-- A number has a double if and only if it is rounded below the bound. -/
private theorem isSome_ofRat? (q : ℚ) : (ofRat? q).isSome = true ↔ |roundRat q| < bound := by
  have nonneg : 0 ≤ scale (nearest q.num.natAbs q.den).1 (nearest q.num.natAbs q.den).2 := by
    rw [scale_eq]
    positivity
  rw [roundRat_eq_signed, abs_signed, abs_of_nonneg nonneg]
  exact isSome_ofRatio? _ _ q.den_pos

/-- The double made of an integer is the one that the integer is rounded to. -/
theorem toRat?_ofInt? (h : ofInt? n = some x) : toRat? x = some (roundRat n) :=
  toRat?_ofRat? h

/-- A double that is the value of a double is the nearest one. -/
theorem exists_ofRat? (double : IsDouble q) : ∃ x, ofRat? q = some x ∧ toRat? x = some q := by
  have same := roundRat_of_short double.1
  have fits := (isSome_ofRat? q).mpr (by rw [same]; exact double.2)
  obtain ⟨x, found⟩ := Option.isSome_iff_exists.mp fits
  exact ⟨x, found, same ▸ toRat?_ofRat? found⟩

end

end DiceNotation.Binary64
