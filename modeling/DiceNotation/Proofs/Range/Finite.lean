import DiceNotation.Proofs.Range.Rounding

/-! # Which numbers stay finite

A number is stored as an integer or as a finite double that is no integer (`Number.Proper`) if it is
finite at all.  Turning the sign of a number, dropping it and taking a square root keep a number
finite, while a sum of finite numbers can be infinite.

Doubles are computed with in unpacked form, as a significand and an exponent.  One that `Fits` is
packed into a finite double again, and rounding a number below two to the 1023 makes one that fits.

* `fits_sqrt`, `isFinite_ofInt?`     what a square root and the conversion of an integer come to
* `proper_normalize`                 finite numbers are stored as they should be
* `isUnbounded_negate`, `isUnbounded_abs`, `isUnbounded_sqrt`     what keeps a number finite -/

namespace DiceNotation.Binary64

open Float.Model (Format UnpackedFloat)
open Float.Model.UnpackedFloat

/-! ## Packing -/

/-- An unpacked double that is packed into a finite one. -/
def Fits : UnpackedFloat → Prop
  | .zero _ => True
  | .finite _ significand exponent _ => significand < 2 ^ 53 ∧ exponent ≤ 971
  | _ => False

/-- The exponent of a double stands in the eleven bits below the sign. -/
theorem toNat_unpackExponent (b : BitVec 64) :
    (@unpackExponent Format.binary64 b).toNat = b.toNat / fractions % 2048 := by
  simp [unpackExponent, BitVec.extractLsb_toNat, Nat.shiftRight_eq_div_pow, fractions]

/-- The fraction of a double stands in the lowest bits. -/
theorem toNat_unpackMantissa (b : BitVec 64) :
    (@unpackMantissa Format.binary64 b).toNat = b.toNat % fractions := by
  simp [unpackMantissa, BitVec.extractLsb_toNat, Nat.shiftRight_eq_div_pow, fractions]

/-- The sign of a double is its highest bit. -/
theorem toNat_unpackSign (b : BitVec 64) :
    (@unpackSign Format.binary64 b).toNat = b.toNat / signBit % 2 := by
  simp [unpackSign, BitVec.extractLsb_toNat, Nat.shiftRight_eq_div_pow, signBit]

/-- A double is finite unless all bits of its exponent are set. -/
private theorem isFinite_unpack (b : BitVec 64) :
    (unpack Format.binary64 b).isFinite = decide (b.toNat / fractions % 2048 ≠ 2047) := by
  -- The greatest exponent is kept for infinity and for what is not a number.
  have field : @unpackExponent Format.binary64 b = -1#_ ↔ b.toNat / fractions % 2048 = 2047 := by
    rw [← toNat_unpackExponent, ← BitVec.toNat_inj]
    rfl
  unfold unpack
  dsimp only
  by_cases top : b.toNat / fractions % 2048 = 2047
  · rw [if_pos (field.mpr top)]
    split <;> simp [UnpackedFloat.isFinite, top]
  · rw [if_neg (fun h => top (field.mp h))]
    split
    · split <;> simp [UnpackedFloat.isFinite, top]
    · simp [UnpackedFloat.isFinite, top]

/-- What is unpacked of a finite double fits. -/
private theorem fits_unpack {b : BitVec 64} (h : (unpack Format.binary64 b).isFinite = true) :
    Fits (unpack Format.binary64 b) := by
  rw [isFinite_unpack, decide_eq_true_eq] at h
  have field : @unpackExponent Format.binary64 b ≠ -1#_ := by
    intro top
    apply h
    rw [← toNat_unpackExponent, top]
    rfl
  have exponent := toNat_unpackExponent b
  unfold unpack
  dsimp only
  rw [if_neg field]
  split
  · -- Numbers below the least normal one keep their significand; all others get its first bit back.
    split
    · trivial
    · constructor
      · have := (@unpackMantissa Format.binary64 b).isLt
        simp at this ⊢
        omega
      · rename_i h0 _
        rw [h0]
        decide
  · constructor
    · -- With the implicit bit the significand has fifty-three bits.
      have := (1#1 ++ @unpackMantissa Format.binary64 b).isLt
      simpa using this
    · rw [exponent]
      simp [Format.exponentBias]
      omega

/-- What fits is packed into a finite double. -/
private theorem isFinite_pack {u : UnpackedFloat} (h : Fits u) :
    (unpack Format.binary64 (pack Format.binary64 u)).isFinite = true := by
  rw [isFinite_unpack, decide_eq_true_eq, ← toNat_unpackExponent]
  cases u with
  | infinity s => cases h
  | notANumber => cases h
  | zero s => simp [pack, packedZero]
  | finite s m e positive =>
    obtain ⟨hm, he⟩ := h
    unfold pack
    dsimp only
    -- The biased exponent stays below the one that means infinity.
    have small : ¬ 2 ^ Format.binary64.exponentBits ≤ (e + Format.binary64.exponentBias +
        Format.binary64.mantissaBitsWithoutImplicit).toNat + 1 := by
      simp [Format.exponentBias]
      omega
    rw [if_neg small]
    split
    · rw [unpackExponent_packComponents, BitVec.toNat_ofNat]
      simp [Format.exponentBias] at small ⊢
      omega
    · rw [unpackExponent_packComponents]
      simp

/-! ## Rounding -/

/-- Shifting to the right divides by a power of two. -/
private theorem mantissa_shiftRight (em : ExtendedMantissa) (n : Nat) :
    (em >>> n).mantissa = em.mantissa / 2 ^ n := by
  induction n with
  | zero => simp [HShiftRight.hShiftRight, Nat.repeat]
  | succ n ih =>
    show (em >>> n).mantissa / 2 = _
    rw [ih, Nat.div_div_eq_div_mul, Nat.pow_succ]

/-- Rounding adds one at most. -/
private theorem roundedMantissa_le (em : ExtendedMantissa) :
    em.roundedMantissa ≤ em.mantissa + 1 := by
  obtain ⟨m, round, sticky⟩ := em
  cases round <;> cases sticky <;>
    simp only [ExtendedMantissa.roundedMantissa, ExtendedMantissa.accuracy,
      Accuracy.roundToNearestEven] <;> omega

/-- A significand is shifted until it has 53 bits at most. -/
private theorem shiftToTargetExponent_le (m : Nat) (e : Int) (accuracy : Accuracy) :
    let shifted := shiftToTargetExponent Format.binary64 m e accuracy
    shifted.1.mantissa < 2 ^ 53 ∧ shifted.2 = max e (max (m.log2 + e - 52) (-1074)) := by
  have start : (ExtendedMantissa.ofMantissaAndAccuracy m accuracy).mantissa = m := by
    unfold ExtendedMantissa.ofMantissaAndAccuracy
    split <;> rfl
  -- The exponent that is aimed at leaves 53 bits, or is the least one there is.
  have target : Format.binary64.targetExponent (Float.Model.totalExponent m e) =
      max (m.log2 + e - 52) (-1074) := by
    simp [Format.targetExponent, Float.Model.totalExponent, Format.mantissaBits, Format.minExponent]
    omega
  unfold shiftToTargetExponent shiftToExponent
  dsimp only
  rw [target, mantissa_shiftRight, start]
  constructor
  · generalize hn : (max (m.log2 + e - 52) (-1074) - e).toNat = n
    have few : m.log2 + 1 ≤ n + 53 := by omega
    rw [Nat.div_lt_iff_lt_mul (by positivity), ← Nat.pow_add]
    calc m < 2 ^ (m.log2 + 1) := Nat.lt_log2_self
      _ ≤ 2 ^ (53 + n) := Nat.pow_le_pow_right (by decide) (by omega)
  · omega

/-- What is rounded fits if it lies within the range of doubles. -/
private theorem fits_roundWithAccuracy (sign : Sign) {m : Nat} {e : Int} (accuracy : Accuracy)
    (he : e ≤ 970) (hm : m.log2 + e ≤ 1022) :
    Fits (roundWithAccuracy Format.binary64 sign m e accuracy) := by
  -- The first shift leaves few enough bits.
  obtain ⟨few, exponent⟩ := shiftToTargetExponent_le m e accuracy
  unfold roundWithAccuracy
  generalize shiftToTargetExponent Format.binary64 m e accuracy = first at few exponent
  obtain ⟨em, e₁⟩ := first
  dsimp only at few exponent ⊢
  -- Rounding up may need one bit more, which the second shift takes away again.
  have rounded : em.roundedMantissa.log2 ≤ 53 := by
    have := roundedMantissa_le em
    have : em.roundedMantissa < 2 ^ 54 := by omega
    by_cases zero : em.roundedMantissa = 0
    · rw [zero]
      decide
    · have := (Nat.log2_lt zero).mpr this
      omega
  obtain ⟨few', exponent'⟩ := shiftToTargetExponent_le em.roundedMantissa e₁ .exact
  generalize shiftToTargetExponent Format.binary64 em.roundedMantissa e₁ .exact = second
    at few' exponent'
  obtain ⟨em', e₂⟩ := second
  dsimp only at few' exponent' ⊢
  split
  · trivial
  · constructor
    · exact few'
    · omega

/-- The square root of a finite double that is not negative is finite. -/
theorem fits_sqrt {u : UnpackedFloat} (h : Fits u)
    (positive : ∀ m e hm, u ≠ .finite .negative m e hm) : Fits (sqrt Format.binary64 u) := by
  cases u with
  | infinity _ => cases h
  | notANumber => cases h
  | zero _ => trivial
  | finite s m e hm =>
    -- A negative radicand is excluded by the hypothesis.
    cases s with
    | negative => exact absurd rfl (positive m e hm)
    | positive =>
      obtain ⟨few, exponent⟩ := h
      unfold sqrt sqrtCore
      dsimp only
      -- The radicand is shifted to an even exponent, and the root has half as many bits.
      generalize ht : min (e.ediv 2) _ = t
      have below : 2 * t ≤ e := by
        have : t ≤ e.ediv 2 := by omega
        have := Int.mul_ediv_self_le (x := e) (k := 2) (by decide)
        show 2 * t ≤ e
        have h2 : e.ediv 2 = e / 2 := rfl
        omega
      apply fits_roundWithAccuracy
      · omega
      · generalize hshift : (e - 2 * t).toNat = shift
        have root := Nat.sqrt_le' (m <<< shift)
        generalize Nat.sqrt (m <<< shift) = r at root
        by_cases zero : r = 0
        · subst zero
          show ((0 : Nat).log2 : Int) + t ≤ 1022
          simp
          omega
        · have low := Nat.log2_self_le zero
          have high : (2 ^ r.log2) ^ 2 < 2 ^ (53 + shift) := by
            calc (2 ^ r.log2) ^ 2 ≤ r ^ 2 := Nat.pow_le_pow_left low 2
              _ ≤ m <<< shift := root
              _ = m * 2 ^ shift := Nat.shiftLeft_eq m shift
              _ < 2 ^ 53 * 2 ^ shift := Nat.mul_lt_mul_of_pos_right few (by positivity)
              _ = 2 ^ (53 + shift) := (Nat.pow_add ..).symm
          rw [← Nat.pow_mul, Nat.pow_lt_pow_iff_right (by decide)] at high
          omega

/-! ## Doubles -/

/-- A double is finite unless all bits of its exponent are set. -/
private theorem isFinite_eq (x : Float) :
    x.isFinite = decide (x.toBits.toNat / fractions % 2048 ≠ 2047) :=
  isFinite_unpack x.toBits.toBitVec

/-- A double fits if and only if it is finite. -/
private theorem fits_iff (x : Float) : Fits x.toModel.unpack ↔ x.isFinite = true := by
  constructor
  · intro h
    show x.toModel.unpack.isFinite = true
    cases found : x.toModel.unpack <;> rw [found] at h
    · cases h
    · cases h
    · rfl
    · rfl
  · exact fits_unpack

/-- A double is finite if it has a value. -/
theorem isSome_toRat? (x : Float) : (toRat? x).isSome = x.isFinite := by
  rw [isFinite_eq]
  unfold toRat? decode
  dsimp only
  by_cases top : x.toBits.toNat / fractions % 2048 = 2047
  · rw [if_pos top]
    by_cases zero : x.toBits.toNat % fractions = 0 <;> simp [zero, top]
  · rw [if_neg top]
    by_cases low : x.toBits.toNat / fractions % 2048 = 0 <;>
      by_cases negative : signBit ≤ x.toBits.toNat <;> simp [low, negative, top]

/-- The negation of a finite double is finite. -/
private theorem isFinite_neg {x : Float} (h : x.isFinite = true) : (-x).isFinite = true := by
  have fits := (fits_iff x).mpr h
  apply isFinite_pack
  cases found : x.toModel.unpack <;> rw [found] at fits
  · cases fits
  · cases fits
  · trivial
  · exact fits

/-- The absolute value of a finite double is finite. -/
private theorem isFinite_abs {x : Float} (h : x.isFinite = true) : x.abs.isFinite = true := by
  have fits := (fits_iff x).mpr h
  apply isFinite_pack
  cases found : x.toModel.unpack <;> rw [found] at fits
  · cases fits
  · cases fits
  · trivial
  · exact fits

/-! ## Signs -/

/-- A number below zero. -/
def Below : UnpackedFloat → Prop
  | .finite .negative _ _ _ => True
  | _ => False

/-- The square root of a finite double that is not negative is finite. -/
private theorem isFinite_sqrt {x : Float} (h : x.isFinite = true)
    (positive : ¬ Below x.toModel.unpack) : x.sqrt.isFinite = true := by
  have fits := (fits_iff x).mpr h
  apply isFinite_pack
  apply fits_sqrt fits
  intro m e hm found
  rw [found] at positive
  exact positive trivial

/-- The sign that is packed is the one that is unpacked. -/
theorem unpackSign_packComponents {spec : Format} {s : Sign} {exponent : BitVec spec.exponentBits}
    {significand : BitVec spec.mantissaBitsWithoutImplicit} :
    unpackSign (packComponents spec s exponent significand) = s.toBitVec := by
  ext i hi
  obtain rfl : i = 0 := by omega
  simp [unpackSign, packComponents, BitVec.getLsbD_append, BitVec.getElem_append]

/-- A double below zero has its sign bit set. -/
private theorem sign_of_below {b : BitVec 64} (h : Below (unpack Format.binary64 b)) :
    @unpackSign Format.binary64 b ≠ 0#1 := by
  intro plus
  have positive : Sign.ofBitVec (@unpackSign Format.binary64 b) = .positive := by
    rw [plus]
    rfl
  unfold unpack at h
  dsimp only at h
  rw [positive] at h
  -- With a positive sign no case of the unpacking is below zero.
  split at h
  · split at h <;> exact h
  · split at h
    · split at h <;> exact h
    · exact h

/-- Packing keeps the sign. -/
private theorem not_below_pack {u : UnpackedFloat} (fits : Fits u) (h : ¬ Below u) :
    ¬ Below (unpack Format.binary64 (pack Format.binary64 u)) := by
  intro below
  -- A number that is not below zero is packed with the positive sign, zero apart.
  cases u with
  | infinity _ => cases fits
  | notANumber => cases fits
  | zero s => cases s <;> exact below
  | finite s m e hm =>
    cases s with
    | negative => exact h trivial
    | positive =>
      apply sign_of_below below
      unfold pack
      dsimp only
      split
      · exact unpackSign_packComponents
      · split <;> exact unpackSign_packComponents

/-- The double nearest to an integer is finite, and not below zero if the integer is not. -/
theorem isFinite_ofInt? {n : Int} {x : Float} (h : ofInt? n = some x) :
    x.isFinite = true ∧ (0 ≤ n → ¬ Below x.toModel.unpack) := by
  unfold ofInt? ofRatio? ofParts? at h
  dsimp only at h
  generalize (_ : Int).toNat * fractions + _ = magnitude at h
  split at h
  · next small =>
    cases h
    generalize hbits : (magnitude + if decide (n < 0) = true then signBit else 0) = bits
    -- The magnitude leaves the sign bit free, so the bits fit into the word.
    have size : (UInt64.ofNat bits).toBitVec.toNat = bits := by
      rw [UInt64.toBitVec_ofNat', BitVec.toNat_ofNat, Nat.mod_eq_of_lt]
      rw [← hbits]
      unfold fractions at small
      unfold signBit
      split <;> omega
    have fits : Fits (unpack Format.binary64 (UInt64.ofNat bits).toBitVec) := by
      apply fits_unpack
      rw [isFinite_unpack, size, decide_eq_true_eq, ← hbits]
      unfold fractions at small ⊢
      unfold signBit
      split <;> omega
    -- A number that is not negative has no sign bit.
    refine ⟨isFinite_pack fits, fun nonneg => not_below_pack fits fun below => ?_⟩
    apply sign_of_below below
    rw [← BitVec.toNat_inj, toNat_unpackSign, size, ← hbits]
    have plus : ¬ n < 0 := by omega
    unfold fractions at small
    unfold signBit
    simp only [plus, decide_false, Bool.false_eq_true, if_false]
    show _ = 0
    omega
  · cases h

/-- The bits of a double below zero: a sign, and not all of the rest zero. -/
private theorem bits_of_below {b : BitVec 64} (h : Below (unpack Format.binary64 b)) :
    b.toNat / fractions % 2048 ≠ 2047 ∧ signBit ≤ b.toNat ∧
      (b.toNat / fractions % 2048 = 0 → b.toNat % fractions ≠ 0) := by
  have finite : (unpack Format.binary64 b).isFinite = true := by
    cases found : unpack Format.binary64 b <;> rw [found] at h <;> first | rfl | cases h
  rw [isFinite_unpack, decide_eq_true_eq] at finite
  refine ⟨finite, ?_, fun low none => ?_⟩
  · -- The sign bit is the highest one.
    have sign := sign_of_below h
    rw [ne_eq, ← BitVec.toNat_inj, toNat_unpackSign] at sign
    unfold signBit at sign ⊢
    have := b.isLt
    simp at sign
    omega
  · -- Otherwise it would be zero.
    have exponent : @unpackExponent Format.binary64 b = 0#_ := by
      rw [← BitVec.toNat_inj, toNat_unpackExponent]
      exact low
    have significand : @unpackMantissa Format.binary64 b = 0#_ := by
      rw [← BitVec.toNat_inj, toNat_unpackMantissa]
      exact none
    have least : @unpackExponent Format.binary64 b ≠ -1#_ := by
      rw [exponent]
      decide
    unfold unpack at h
    dsimp only at h
    rw [if_neg least, if_pos exponent, dif_pos significand] at h
    exact h

/-- The value of a double below zero is below zero. -/
private theorem toRat?_of_below {x : Float} (h : Below x.toModel.unpack) :
    ∃ q, toRat? x = some q ∧ q < 0 := by
  obtain ⟨finite, negative, some⟩ := bits_of_below h
  have positive {significand : Nat} (h : 0 < significand) (exponent : Int) :
      -scale significand exponent < 0 := by
    rw [scale_eq, neg_lt_zero]
    positivity
  have bits : x.toModel.toBits.toBitVec.toNat = x.toBits.toNat := rfl
  rw [bits] at finite negative some
  unfold toRat? decode
  dsimp only
  rw [if_neg finite]
  -- A subnormal number has no implicit bit but some other one.
  by_cases low : x.toBits.toNat / fractions % 2048 = 0
  · simp only [low, negative, if_true, decide_true]
    exact ⟨_, rfl, positive (Nat.pos_of_ne_zero (some low)) _⟩
  · simp only [low, negative, if_false, decide_true]
    exact ⟨_, rfl, positive (Nat.add_pos_left (by decide) _) _⟩

end DiceNotation.Binary64

namespace DiceNotation.Number

/-! ## Numbers -/

/-- An integer, or a finite double that is no integer. -/
def Proper : Number → Prop
  | int _ => True
  | real x => ∃ q, Binary64.toRat? x = some q ∧ q.den ≠ 1

/-- A proper number is not infinite. -/
theorem Proper.bounded {n : Number} (h : n.Proper) : n.isUnbounded = false := by
  cases n with
  | int _ => rfl
  | real x =>
    obtain ⟨q, value, -⟩ := h
    have finite := Binary64.isSome_toRat? x
    rw [value] at finite
    simp [isUnbounded, ← finite]

/-- A number that is not infinite and not NaN is stored as it should be. -/
theorem proper_normalize {n : Number} (h : n.isUnbounded = false) : n.normalize.Proper := by
  cases n with
  | int _ => trivial
  | real x =>
    have finite : (Binary64.toRat? x).isSome = true := by
      rw [Binary64.isSome_toRat?]
      simpa [isUnbounded] using h
    obtain ⟨q, value⟩ := Option.isSome_iff_exists.mp finite
    simp only [normalize, value]
    split
    · trivial
    · next fraction => exact ⟨q, value, fraction⟩

/-- Normalizing makes no number infinite, and no infinite one finite. -/
theorem isUnbounded_normalize (n : Number) : n.normalize.isUnbounded = n.isUnbounded := by
  cases h : n.isUnbounded with
  | false => exact (proper_normalize h).bounded
  | true =>
    cases n with
    | int _ => cases h
    | real x =>
      have infinite : Binary64.toRat? x = none := by
        rw [← Option.not_isSome_iff_eq_none, Binary64.isSome_toRat?]
        simpa [isUnbounded] using h
      simp only [normalize, infinite]
      exact h

/-- The negation of a number that is not infinite is not infinite. -/
theorem isUnbounded_negate {n : Number} (h : n.isUnbounded = false) :
    n.negate.isUnbounded = false := by
  cases n with
  | int _ => rfl
  | real x =>
    have finite : x.isFinite = true := by simpa [isUnbounded] using h
    simp [negate, isUnbounded, Binary64.isFinite_neg finite]

/-- The absolute value of a number that is not infinite is not infinite. -/
theorem isUnbounded_abs {n : Number} (h : n.isUnbounded = false) : n.abs.isUnbounded = false := by
  cases n with
  | int _ => rfl
  | real x =>
    have finite : x.isFinite = true := by simpa [isUnbounded] using h
    simp [abs, isUnbounded, Binary64.isFinite_abs finite]

/-! ## Square roots -/

/-- A double with an exact value has its place there. -/
theorem place_of_toRat? {x : Float} {q : Rat} (h : Binary64.toRat? x = some q) :
    (real x).place = .at q := by
  unfold Binary64.toRat? at h
  simp only [place]
  generalize Binary64.decode x = decoded at h ⊢
  cases decoded with
  | infinite _ => cases h
  | nan => cases h
  | finite negative significand exponent => cases negative <;> cases h <;> rfl

/-- A double is compared by its place. -/
theorem compare?_real (x : Float) (b : Number) :
    compare? (real x) b = (real x).place.compare? b.place := by
  rw [compare?]
  nofun

/-- A double with a negative value is below zero. -/
theorem lt_zero_of_toRat? {x : Float} {q : Rat} (h : Binary64.toRat? x = some q)
    (negative : q < 0) :
    (real x).lt 0 = true := by
  have zero : (0 : Number).place = .at 0 := rfl
  unfold lt
  rw [compare?_real, place_of_toRat? h, zero]
  simp only [Place.compare?, negative, if_true]
  rfl

/-- An integer is converted where the conversion succeeds. -/
theorem convert_of_match {convert : Int → Option Float} {a : Number} {n : Int} {x : Float}
    (same : a = int n)
    (h : (match a with
      | real x => (.ok x : Except NumberError Float)
      | int n =>
        match convert n with
        | some x => .ok x
        | none => .error .tooLargeForReal) = .ok x) :
    convert n = some x := by
  subst same
  dsimp only at h
  cases found : convert n with
  | none =>
    rw [found] at h
    cases h
  | some y =>
    rw [found] at h
    exact congrArg some (Except.ok.inj h)

-- The number is a variable, and the conversion one in the lemma above: on an integer the kernel
-- would compute `ofInt?` here.
/-- An integer is converted to the double nearest to it. -/
theorem ofInt?_of_toReal {a : Number} {n : Int} {x : Float} (same : a = int n)
    (h : a.toReal = .ok x) : Binary64.ofInt? n = some x := by
  unfold toReal at h
  exact convert_of_match same h

/-- A number that is neither infinite nor negative is converted to a finite double that is not below
    zero. -/
theorem isFinite_toReal {n : Number} {x : Float} (h : n.isUnbounded = false)
    (positive : n.lt 0 = false) (converted : n.toReal = .ok x) :
    x.isFinite = true ∧ ¬ Binary64.Below x.toModel.unpack := by
  cases n with
  | int n =>
    have nonneg : 0 ≤ n := by
      have less : (int n).lt (int 0) = false := positive
      rw [lt_int, decide_eq_false_iff_not] at less
      omega
    obtain ⟨finite, sign⟩ := Binary64.isFinite_ofInt? (ofInt?_of_toReal rfl converted)
    exact ⟨finite, sign nonneg⟩
  | real y =>
    obtain rfl : y = x := by
      unfold toReal at converted
      exact Except.ok.inj converted
    -- A negative double compares as less than zero.
    have finite : y.isFinite = true := by simpa [isUnbounded] using h
    refine ⟨finite, fun below => ?_⟩
    obtain ⟨q, value, negative⟩ := Binary64.toRat?_of_below below
    rw [lt_zero_of_toRat? value negative] at positive
    cases positive

/-- The square root of a finite number that is not below zero is finite. -/
theorem isUnbounded_sqrt {n root : Number} (h : n.isUnbounded = false) (positive : n.lt 0 = false)
    (computed : n.sqrt = .ok root) : root.isUnbounded = false := by
  unfold sqrt at computed
  cases converted : n.toReal with
  | error e =>
    rw [converted] at computed
    cases computed
  | ok x =>
    rw [converted] at computed
    obtain ⟨finite, sign⟩ := isFinite_toReal h positive converted
    have same : real x.sqrt = root := Except.ok.inj computed
    rw [← same]
    simp [isUnbounded, Binary64.isFinite_sqrt finite sign]

end DiceNotation.Number
