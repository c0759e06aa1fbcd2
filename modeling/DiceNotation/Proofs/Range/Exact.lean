import DiceNotation.Evaluation.Evaluate
import DiceNotation.Proofs.Limits.Following
import DiceNotation.Proofs.Range.Powers
import DiceNotation.Proofs.Semantics.Simulation

/-! # Exact results

Sums, differences, products and remainders of integers are exact.  Quotients and powers are computed
with doubles, and what has no fractional part becomes an integer again.  So they are exact if the
result is an integer that is the value of a double (`Held`), and for powers if the exponent does not
lose its parity either.  All integers up to 2^53 in size are held, but an integer result that is not
held is another integer than the exact one.

* `Operator.exact`, `Operator.Safe`     the exact result, and when it is computed
* `whole_quotient`     where a quotient of small integers is an integer, it is exact
* `arithmetic_exact`     what an operation on two integers comes to -/

namespace DiceNotation

open DiceNotation.EvalM (evaluateWithin compute)
open Binary64 (Short IsDouble bound scale nearest unit)

/-- An integer that is the value of a double. -/
def Held (q : ℚ) : Prop := ∃ n : ℤ, q = n ∧ IsDouble n

namespace Operator

/-- The exact result of an operation on two integers. -/
def exact : Operator → ℤ → ℤ → ℚ
  | add, a, b => a + b
  | subtract, a, b => a - b
  | multiply, a, b => a * b
  | divide, a, b => a / b
  | modulo, a, b => a - b * ⌊(a : ℚ) / b⌋
  | exponent, a, b => (a : ℚ) ^ b

/-- When the exact result is computed: a quotient or a power has to be held.  An odd exponent that
    is beyond the integers that are held one by one is rounded to an even one. -/
def Safe : Operator → ℤ → ℤ → Prop
  | divide, a, b => Held (a / b)
  | exponent, a, b => Held ((a : ℚ) ^ b) ∧ ¬ (a = -1 ∧ Odd b ∧ 2 ^ 53 < |b|)
  | _, _, _ => True

end Operator

namespace Binary64

section

variable {num den : ℕ} {a b n : ℤ}

/-! ## Quotients -/

/-- A quotient with few enough digits is rounded to itself. -/
private theorem scale_nearest_of_short (num : ℕ) (hden : 0 < den) (short : Short (num / den)) :
    scale (nearest num den).1 (nearest num den).2 = num / den := by
  have near := scale_nearest_nearest num hden short
  rw [sub_self, abs_zero] at near
  exact sub_eq_zero.mp (abs_nonpos_iff.mp near)

/-- Rounding is not more than half a unit away. -/
private theorem abs_sub_le_half_unit (hnum : 0 < num) (hden : 0 < den) :
    |scale (nearest num den).1 (nearest num den).2 - num / den| ≤ 1 / 2 * 2 ^ unit num den := by
  have positive : (0 : ℚ) < 2 ^ unit num den := by positivity
  have near := scale_nearest_units hnum hden (round ((num / den : ℚ) / 2 ^ unit num den))
  refine near.trans ?_
  have scaled : (num / den : ℚ) = num / den / 2 ^ unit num den * 2 ^ unit num den :=
    (div_mul_cancel₀ _ positive.ne').symm
  nth_rewrite 2 [scaled]
  rw [← sub_mul, abs_mul, abs_of_pos positive, abs_sub_comm]
  exact mul_le_mul_of_nonneg_right (abs_sub_round _) positive.le

/-- A quotient of integers that are not too large is not rounded to an integer, unless it is this
    integer. -/
theorem whole_quotient (hden : 0 < den) (few : num ≤ 2 ^ 53) (most : den < 2 ^ 1075)
    (whole : scale (nearest num den).1 (nearest num den).2 = n) : (n : ℚ) = num / den := by
  rcases Nat.eq_zero_or_pos num with rfl | hnum
  · rw [nearest_zero, scale_eq] at whole
    simpa using whole.symm
  have hden' : (0 : ℚ) < den := by exact_mod_cast hden
  by_contra other
  -- Two fractions with this denominator are so far apart.
  have apart : 1 / (den : ℚ) ≤ |(n : ℚ) - num / den| := by
    have different : n * den - num ≠ 0 := by
      intro same
      apply other
      rw [eq_div_iff hden'.ne']
      exact_mod_cast sub_eq_zero.mp same
    have one : (1 : ℚ) ≤ |(n : ℚ) * den - num| := by exact_mod_cast Int.one_le_abs different
    have split : (n : ℚ) - num / den = (n * den - num) / den := by
      rw [sub_div, mul_div_cancel_right₀ _ hden'.ne']
    rw [split, abs_div, abs_of_pos hden']
    gcongr
  have near := apart.trans (whole ▸ abs_sub_le_half_unit hnum hden)
  obtain ⟨low, -⟩ := two_zpow_log2Ratio hnum hden
  rcases le_or_gt (log2Ratio num den - 52) minExponent with tiny | normal
  · -- The fractions are farther apart than the least doubles.
    have unit' : unit num den = minExponent := max_eq_right tiny
    have most' : (den : ℚ) < 2 ^ 1075 := by exact_mod_cast most
    have half : 1 / 2 * (2 : ℚ) ^ minExponent = 1 / 2 ^ 1075 := by
      rw [show minExponent = -(1074 : ℕ) from rfl, zpow_neg, zpow_natCast, pow_succ (2 : ℚ) 1074,
        one_div, one_div, mul_inv, mul_comm]
    rw [unit', half] at near
    exact (one_div_lt_one_div_of_lt hden' most').not_ge near
  · -- The quotient is a power of two, and this is not rounded at all.
    have unit' : unit num den = log2Ratio num den - 52 := max_eq_left normal.le
    have half : 1 / 2 * (2 : ℚ) ^ (log2Ratio num den - 52) = 2 ^ log2Ratio num den / 2 ^ 53 := by
      rw [zpow_sub₀ (by norm_num)]
      norm_num
      ring
    have few' : (num : ℚ) ≤ 2 ^ 53 := by exact_mod_cast few
    rw [unit', half, div_le_div_iff₀ hden' (by positivity), one_mul] at near
    rw [le_div_iff₀ hden'] at low
    have power : (2 : ℚ) ^ log2Ratio num den = num / den := by
      rw [eq_div_iff hden'.ne']
      linarith
    have short : Short (num / den : ℚ) := by
      rw [← power]
      exact ⟨1, log2Ratio num den, by norm_num, by omega, by simp⟩
    exact other (whole.symm.trans (scale_nearest_of_short num hden short))

end

end Binary64

namespace Number

variable {a b : ℤ} {result : Number} {x : Float} {q : ℚ} {n : ℤ}

/-- A double is turned into an integer if this is its value. -/
private theorem normalize_eq_int_iff (value : Binary64.toRat? x = some q) :
    (real x).normalize = int n ↔ q = n := by
  unfold normalize
  dsimp only
  rw [value]
  dsimp only
  -- The value becomes an integer exactly if its denominator is one.
  split
  · next whole =>
    rw [int.injEq]
    constructor
    · rintro rfl
      exact (Rat.den_eq_one_iff q).mp whole |>.symm
    · rintro rfl
      exact Rat.num_intCast n
  · next fraction =>
    refine iff_of_false nofun ?_
    rintro rfl
    exact fraction (Rat.den_intCast n)

/-- The quotient of two integers is a rounded double. -/
private theorem divide_int (computed : divide (int a) (int b) = .ok result) :
    b ≠ 0 ∧ ∃ x, result = real x ∧ Binary64.toRat? x =
      some (Binary64.signed (decide (a < 0) != decide (b < 0))
        (scale (nearest a.natAbs b.natAbs).1 (nearest a.natAbs b.natAbs).2)) := by
  unfold divide at computed
  dsimp only at computed
  split at computed
  · cases computed
  · next nonzero =>
    refine ⟨nonzero, ?_⟩
    split at computed
    · next x found =>
      cases computed
      exact ⟨x, rfl, Binary64.toRat?_ofRatio? (Int.natAbs_pos.mpr nonzero) found⟩
    · cases computed

/-- An integer that is converted becomes the double nearest to it. -/
private theorem toRat?_of_toReal (converted : (int n).toReal = .ok x) :
    Binary64.toRat? x = some (Binary64.roundRat n) :=
  Binary64.toRat?_ofInt? (ofInt?_of_toReal rfl converted)

/-- The power of two integers is a power of rounded integers, and it is finite. -/
private theorem power_int (computed : power (int a) (int b) = .ok result) :
    ∃ x y, Binary64.toRat? x = some (Binary64.roundRat a) ∧
      Binary64.toRat? y = some (Binary64.roundRat b) ∧
      result = real (Binary64.power x y) ∧ (Binary64.power x y).isFinite = true := by
  unfold power onReals at computed
  -- Both operands are converted first, and either conversion may be out of range.
  cases hx : (int a).toReal with
  | error e =>
    rw [hx] at computed
    cases computed
  | ok x =>
    cases hy : (int b).toReal with
    | error e =>
      rw [hx, hy] at computed
      cases computed
    | ok y =>
      rw [hx, hy] at computed
      have base := toRat?_of_toReal hx
      have exponent := toRat?_of_toReal hy
      refine ⟨x, y, base, exponent, ?_⟩
      -- Both operands are finite, so a result that is not finite is a range error.
      have finite : x.isFinite = true := by
        rw [← Binary64.isSome_toRat?, base]
        rfl
      have finite' : y.isFinite = true := by
        rw [← Binary64.isSome_toRat?, exponent]
        rfl
      change (Except.bind (if _ then _ else _) _ : Except NumberError Number) = _ at computed
      generalize Binary64.power x y = z at computed ⊢
      rw [finite, finite', Bool.not_true, Bool.or_false, Bool.or_false] at computed
      cases stays : z.isFinite with
      | true =>
        rw [stays, if_pos rfl] at computed
        exact ⟨(Except.ok.inj computed).symm, rfl⟩
      | false =>
        rw [stays, if_neg Bool.false_ne_true] at computed
        split at computed <;> cases computed

end Number

/-! ## Operations -/

section

variable {op : Operator} {a b : ℤ} {result : Number} {x : Float} {q : ℚ}

/-- Flooring division goes to the floor of the quotient. -/
private theorem fdiv_eq_floor (a b : ℤ) : a.fdiv b = ⌊(a : ℚ) / b⌋ := by
  rcases le_or_gt 0 b with nonneg | negative
  · lift b to ℕ using nonneg
    rw [Int.fdiv_eq_ediv_of_nonneg _ (Int.natCast_nonneg b), Int.cast_natCast,
      Rat.floor_intCast_div_natCast]
  · obtain ⟨n, rfl⟩ : ∃ n : ℕ, b = -n := ⟨b.natAbs, by omega⟩
    have flipped : (a : ℚ) / ((-n : ℤ) : ℚ) = ((-a : ℤ) : ℚ) / n := by
      push_cast
      rw [div_neg, neg_div]
    rw [flipped, Rat.floor_intCast_div_natCast, ← Int.neg_fdiv_neg, neg_neg,
      Int.fdiv_eq_ediv_of_nonneg _ (Int.natCast_nonneg n)]

/-- An integer is its size with its sign. -/
private theorem eq_signed_natAbs (a : ℤ) : (a : ℚ) = Binary64.signed (decide (a < 0)) a.natAbs := by
  rw [Nat.cast_natAbs]
  rcases lt_or_ge a 0 with negative | nonneg
  · simp [Binary64.signed, negative, abs_of_neg negative]
  · simp [Binary64.signed, not_lt.mpr nonneg, abs_of_nonneg nonneg]

/-- A quotient is the quotient of the sizes, with a sign from both. -/
private theorem div_eq_signed (a b : ℤ) : (a / b : ℚ) =
    Binary64.signed (decide (a < 0) != decide (b < 0)) (a.natAbs / b.natAbs) := by
  rw [eq_signed_natAbs a, eq_signed_natAbs b]
  generalize decide (a < 0) = s, decide (b < 0) = t
  cases s <;> cases t <;> simp [Binary64.signed, neg_div, div_neg]

/-- A double is the exact result exactly if the exact result is held. -/
private theorem exact_iff_of_value (value : Binary64.toRat? x = some q) {exact : ℚ}
    (same : Held exact → q = exact) :
    (∃ r : ℤ, (Number.real x).normalize = .int r ∧ r = exact) ↔ Held exact := by
  constructor
  · rintro ⟨r, integer, rfl⟩
    obtain rfl := (Number.normalize_eq_int_iff value).mp integer
    exact ⟨r, rfl, Binary64.isDouble_of_toRat? value⟩
  · intro held
    obtain ⟨r, rfl, -⟩ := id held
    exact ⟨r, (Number.normalize_eq_int_iff value).mpr (same held), rfl⟩

/-- A quotient comes to the exact integer if and only if the operands are safe for it. -/
private theorem exact_divide (computed : Number.divide (.int a) (.int b) = .ok result) :
    (∃ r : ℤ, result.normalize = .int r ∧ r = Operator.divide.exact a b) ↔
      Operator.divide.Safe a b := by
  obtain ⟨nonzero, x, rfl, value⟩ := Number.divide_int computed
  apply exact_iff_of_value value
  rintro ⟨n, whole, double⟩
  rw [← whole] at double
  have size : IsDouble (a.natAbs / b.natAbs : ℚ) := by
    have quotient : IsDouble (a / b : ℚ) := double
    rw [div_eq_signed] at quotient
    exact quotient.of_signed
  rw [Binary64.scale_nearest_of_short _ (Int.natAbs_pos.mpr nonzero) size.1, ← div_eq_signed]
  rfl

/-- A power comes to the exact integer if and only if the operands are safe for it. -/
private theorem exact_power (computed : Number.power (.int a) (.int b) = .ok result) :
    (∃ r : ℤ, result.normalize = .int r ∧ r = Operator.exponent.exact a b) ↔
      Operator.exponent.Safe a b := by
  obtain ⟨x, y, hx, hy, rfl, finite⟩ := Number.power_int computed
  obtain ⟨n, rounded⟩ := Binary64.exists_roundRat b
  rw [rounded] at hy
  -- A power that is the value of a double is not rounded.
  have computes : (Binary64.roundRat a ≠ 0 ∨ 0 ≤ n) → IsDouble (Binary64.roundRat a ^ n) →
      Binary64.toRat? (Binary64.power x y) = some (Binary64.roundRat a ^ n) := by
    intro defined double
    obtain ⟨z, found, value⟩ := Binary64.exists_exactPower? hx hy defined double
    unfold Binary64.power
    rw [found]
    exact value
  -- A power of minus one is the only one that a rounded exponent can spoil.
  by_cases lost : a = -1 ∧ Odd b ∧ 2 ^ 53 < |b|
  · refine iff_of_false ?_ fun safe => safe.2 lost
    obtain ⟨rfl, odd, large⟩ := lost
    -- The exponent becomes even, and the power one.
    obtain ⟨-, k, whole⟩ := Binary64.roundRat_of_large large
    have even : n = k * 2 := by exact_mod_cast rounded.symm.trans whole
    have base : Binary64.roundRat ((-1 : ℤ) : ℚ) = -1 := by
      rw [Binary64.roundRat_of_short (Binary64.short_intCast (by norm_num))]
      norm_num
    have one : Binary64.roundRat ((-1 : ℤ) : ℚ) ^ n = 1 := by
      rw [base, even, Even.neg_one_zpow (even_two.mul_left k)]
    have double : IsDouble 1 := by
      have := (Number.roundsWell_of_small (n := 1) (by norm_num)).double
      exact_mod_cast this
    have value := computes (.inl (by rw [base]; norm_num)) (one ▸ double)
    rintro ⟨r, integer, same⟩
    have result := (Number.normalize_eq_int_iff value).mp integer
    rw [one] at result
    have power : Operator.exponent.exact (-1) b = -1 := by
      unfold Operator.exact
      push_cast
      exact odd.neg_one_zpow
    rw [← result, power] at same
    norm_num at same
  · -- A negative power of zero is no finite number.
    have defined : a ≠ 0 ∨ 0 ≤ b := by
      by_contra neither
      rw [not_or, not_not, not_le] at neither
      obtain ⟨rfl, negative⟩ := neither
      have stays : n < 0 := by
        have := Binary64.roundRat_pos (neg_pos.mpr negative)
        rw [Int.cast_neg, Binary64.roundRat_neg, rounded, neg_pos] at this
        exact_mod_cast this
      have zero : Binary64.roundRat ((0 : ℤ) : ℚ) = 0 :=
        Binary64.roundRat_of_short (Binary64.short_intCast (by norm_num))
      obtain ⟨z, found, infinite⟩ := Binary64.exactPower?_zero (zero ▸ hx) hy stays
      unfold Binary64.power at finite
      rw [found] at finite
      exact Bool.false_ne_true (infinite.symm.trans finite)
    -- Otherwise the result is exact just if the power is an integer that is a double.
    obtain ⟨q, value⟩ := Option.isSome_iff_exists.mp (Binary64.isSome_toRat? _ ▸ finite)
    refine (exact_iff_of_value value ?_).trans (and_iff_left lost).symm
    rintro ⟨m, whole, double⟩
    rw [← whole] at double
    obtain ⟨same, defined'⟩ := Binary64.roundRat_zpow rounded defined ⟨m, whole⟩ double lost
    have exact := computes defined' (same ▸ double)
    rw [value, same] at exact
    exact Option.some.inj exact

/-- What an operation on integers comes to, if it comes to a number, is the exact result exactly
    where this is safe. -/
private theorem exact_apply (computed : op.apply (.int a) (.int b) = .ok result) :
    (∃ r : ℤ, result.normalize = .int r ∧ r = op.exact a b) ↔ op.Safe a b := by
  cases op with
  | divide => exact exact_divide computed
  | exponent => exact exact_power computed
  -- Sums, differences and products are computed on integers, and so is the remainder.
  | add =>
    cases computed
    exact iff_of_true ⟨a + b, rfl, Int.cast_add a b⟩ trivial
  | subtract =>
    cases computed
    exact iff_of_true ⟨a - b, rfl, Int.cast_sub a b⟩ trivial
  | multiply =>
    cases computed
    exact iff_of_true ⟨a * b, rfl, Int.cast_mul a b⟩ trivial
  | modulo =>
    change (if b = 0 then _ else _ : Except NumberError Number) = _ at computed
    split at computed
    · cases computed
    · cases computed
      refine iff_of_true ⟨a.fmod b, rfl, ?_⟩ trivial
      rw [Int.fmod_def, fdiv_eq_floor]
      push_cast
      rfl

/-! ## Runs -/

variable {rules : Rules} {levels : ℕ} {attributes : OrderedMap Value} {left right : Node}
  {record : Record} {first second after : Focus} {value : Value}

/-- An operation that collects no problem comes to a finite number, which is its value. -/
private theorem exists_apply {a b : Number} (new : attributes.get? "value" = none)
    (hleft : evaluateWithin rules levels ⟨left, record⟩ = .ok (.number a) first)
    (hright : evaluateWithin rules levels ⟨right, first.record⟩ = .ok (.number b) second)
    (run : evaluateWithin rules (levels + 1)
      ⟨⟨.operator op, attributes, [left, right]⟩, record⟩ = .ok value after)
    (clean : after.record.problems = second.record.problems) :
    ∃ result, op.apply a b = .ok result ∧ value = .number result.normalize := by
  have empty : Node.value? ⟨.operator op, attributes, [left, right]⟩ = none := new
  rw [evaluateWithin, EvalM.run_node_bind, empty] at run
  obtain ⟨computed, mid, step, stored⟩ := EvalM.exists_of_bind run
  cases stored
  -- A problem would be one more than behind the operands.
  have reported (problem : Problem) (node : Node) :
      (do EvalM.report problem; return .int 0 : EvalM Value) ⟨node, second.record⟩ ≠
        .ok computed mid := by
    intro ran
    have more := (EvalM.Follows.collects_report problem).bind_left
      (fun _ => EvalM.Follows.pure _) _ _ _ ran
    exact more.ne (by rw [← clean])
  -- The run is unfolded statement by statement: the operands, the operation, the tests of its
  -- result.
  have required : EvalM.requireChildren 2 ⟨⟨.operator op, attributes, [left, right]⟩, record⟩ =
      .ok () ⟨⟨.operator op, attributes, [left, right]⟩, record⟩ :=
    EvalM.run_requireChildren rfl record
  have leftDone : EvalM.onChild 0 (evaluateWithin rules levels)
      ⟨⟨.operator op, attributes, [left, right]⟩, record⟩ =
        .ok (.number a) ⟨⟨.operator op, attributes, [first.node, right]⟩, first.record⟩ :=
    EvalM.onChild_of_ok rfl hleft
  have rightDone : EvalM.onChild 1 (evaluateWithin rules levels)
      ⟨⟨.operator op, attributes, [first.node, right]⟩, first.record⟩ =
        .ok (.number b) ⟨⟨.operator op, attributes, [first.node, second.node]⟩, second.record⟩ :=
    EvalM.onChild_of_ok rfl hright
  have step : EvalM.arithmetic op (evaluateWithin rules levels)
      ⟨⟨.operator op, attributes, [left, right]⟩, record⟩ = .ok computed mid := step
  unfold EvalM.arithmetic at step
  rw [EvalM.bind_of_ok required, EvalM.bind_of_ok leftDone, EvalM.bind_of_ok rightDone] at step
  dsimp only [Value.number?] at step
  -- Neither an error nor an unbounded result can be behind a clean run.
  cases applied : op.apply a b with
  | error e =>
    rw [applied] at step
    cases e <;> exact absurd step (reported _ _)
  | ok result =>
    rw [applied] at step
    by_cases infinite : result.isUnbounded
    · exact absurd step (by simpa only [infinite, if_true] using reported _ _)
    · simp only [infinite, Bool.false_eq_true, if_false] at step
      cases step
      exact ⟨result, rfl, rfl⟩

/-- The reported value is the exact result exactly where the operation is safe. -/
private theorem value_exact_iff (applied : op.apply (.int a) (.int b) = .ok result)
    (stored : value = .number result.normalize) :
    (∃ r : ℤ, value = .int r ∧ r = op.exact a b) ↔ op.Safe a b := by
  rw [← exact_apply applied, stored]
  simp only [Value.number.injEq]

/-- An exact result that is an integer is reported exactly where the operation is safe. -/
private theorem value_eq_int_iff (applied : op.apply (.int a) (.int b) = .ok result)
    (stored : value = .number result.normalize) {n : ℤ} (exact : op.exact a b = n) :
    value = .int n ↔ op.Safe a b := by
  rw [← value_exact_iff applied stored, exact]
  constructor
  · intro reported
    exact ⟨n, reported, rfl⟩
  · rintro ⟨r, reported, same⟩
    obtain rfl : r = n := by exact_mod_cast same
    exact reported

/-- An integer of 53 bits is a double. -/
private theorem isDouble_of_small {n : ℤ} (small : |n| ≤ 2 ^ 53) : IsDouble n := by
  refine ⟨Binary64.short_intCast small, ?_⟩
  have small' : |(n : ℚ)| ≤ 2 ^ 53 := by exact_mod_cast small
  rw [Binary64.bound_eq]
  exact small'.trans_lt (lt_mul_of_one_lt_right (by positivity)
    (one_lt_zpow₀ (by norm_num) (by norm_num)))

/-- Results that are integers up to 2^53 in size are safe, if the exponent is not larger either. -/
private theorem safe_of_small {n : ℤ} (exact : op.exact a b = n) (small : |n| ≤ 2 ^ 53)
    (exponent : op = .exponent → |b| ≤ 2 ^ 53) : op.Safe a b := by
  have held : Held (op.exact a b) := ⟨n, exact, isDouble_of_small small⟩
  cases op with
  | divide => exact held
  | exponent => exact ⟨held, fun lost => (exponent rfl).not_gt lost.2.2⟩
  | _ => trivial

/-- A quotient of operands that are not too large is a whole number only if it is exact. -/
private theorem quotient_exact (applied : Number.divide (.int a) (.int b) = .ok result)
    (few : |a| ≤ 2 ^ 53) (most : |b| < 2 ^ 1075) {r : ℤ} (whole : result.normalize = .int r) :
    (r : ℚ) = a / b := by
  obtain ⟨nonzero, x, rfl, value⟩ := Number.divide_int applied
  have rounded := (Number.normalize_eq_int_iff value).mp whole
  have few' : a.natAbs ≤ 2 ^ 53 := by
    rw [Int.abs_eq_natAbs] at few
    exact_mod_cast few
  have most' : b.natAbs < 2 ^ 1075 := by
    rw [Int.abs_eq_natAbs] at most
    exact_mod_cast most
  have exact {n : ℤ} := Binary64.whole_quotient (n := n) (Int.natAbs_pos.mpr nonzero) few' most'
  -- The bound is shown of the sizes, and the sign is put back.
  rw [div_eq_signed]
  generalize (decide (a < 0) != decide (b < 0)) = negative at rounded ⊢
  cases negative with
  | false => exact exact rounded
  | true =>
    have opposite := exact (n := -r) (by rw [Int.cast_neg, ← rounded]; exact (neg_neg _).symm)
    show (r : ℚ) = -_
    rw [← opposite, Int.cast_neg, neg_neg]

end

/-- Where an operation on two integers collects no problem, it reports the exact result exactly if
    it is safe: sums, differences, products and remainders always, and quotients and powers that are
    held, but not minus one to a large odd exponent.  So an exact result up to 2^53 in size is
    reported, and no quotient of integers that are not too large is taken for another integer.  A
    product over one of its factors is the other factor exactly if this is held. -/
theorem arithmetic_exact {rules : Rules} {levels : ℕ} {op : Operator}
    {attributes : OrderedMap Value} {left right : Node} {record : Record}
    {first second after : Focus} {a b : ℤ} {value : Value}
    (new : attributes.get? "value" = none)
    (hleft : evaluateWithin rules levels ⟨left, record⟩ = .ok (.int a) first)
    (hright : evaluateWithin rules levels ⟨right, first.record⟩ = .ok (.int b) second)
    (run : evaluateWithin rules (levels + 1)
      ⟨⟨.operator op, attributes, [left, right]⟩, record⟩ = .ok value after)
    (clean : after.record.problems = second.record.problems) :
    ((∃ r : ℤ, value = .int r ∧ r = op.exact a b) ↔ op.Safe a b) ∧
      (∀ n : ℤ, op.exact a b = n → |n| ≤ 2 ^ 53 → (op = .exponent → |b| ≤ 2 ^ 53) →
        value = .int n) ∧
      (op = .divide → |a| ≤ 2 ^ 53 → |b| < 2 ^ 1075 → ∀ r : ℤ, value = .int r → r = op.exact a b) ∧
      (op = .divide → ∀ c, a = c * b → (value = .int c ↔ IsDouble c)) ∧
      (op = .exponent → ∀ n : ℕ, b = n →
        (value = .int (List.replicate n a).prod ↔ op.Safe a b)) := by
  obtain ⟨result, applied, stored⟩ := exists_apply new hleft hright run clean
  refine ⟨value_exact_iff applied stored, ?_, ?_, ?_, ?_⟩
  · intro n exact small exponent
    exact (value_eq_int_iff applied stored exact).mpr (safe_of_small exact small exponent)
  · rintro rfl few most r rfl
    exact quotient_exact applied few most (Value.number.inj stored).symm
  · -- Where the quotient is whole, safety is that it is a double.
    rintro rfl c rfl
    have nonzero := (Number.divide_int applied).1
    have exact : Operator.divide.exact (c * b) b = c := by
      unfold Operator.exact
      push_cast
      exact mul_div_cancel_right₀ _ (by exact_mod_cast nonzero)
    rw [value_eq_int_iff applied stored exact]
    constructor
    · rintro ⟨n, same, double⟩
      obtain rfl : c = n := by exact_mod_cast exact.symm.trans same
      exact double
    · exact fun double => ⟨c, exact, double⟩
  · -- A power with a natural exponent is a product of equal factors.
    rintro rfl n rfl
    apply value_eq_int_iff applied stored
    rw [List.prod_replicate]
    unfold Operator.exact
    push_cast
    exact zpow_natCast _ n

/-- Six times seven over seven. -/
theorem arithmetic_exact_quotient :
    let rules : Rules := ⟨{}, .default, fun _ faces => faces.low⟩
    let product : Node := ⟨.operator .multiply, .empty, [.integer 6, .integer 7]⟩
    ∃ node after,
      evaluateWithin rules 2 ⟨product, {}⟩ = .ok (.int (6 * 7)) ⟨node, {}⟩ ∧
      evaluateWithin rules 2 ⟨.integer 7, {}⟩ = .ok (.int 7) ⟨.integer 7, {}⟩ ∧
      evaluateWithin rules 3 ⟨⟨.operator .divide, .empty, [product, .integer 7]⟩, {}⟩ =
        .ok (.int 6) ⟨after, {}⟩ ∧
      (∃ r : ℤ, Value.int 6 = .int r ∧ r = Operator.divide.exact (6 * 7) 7) ∧ IsDouble (6 : ℤ) := by
  intro rules product
  -- Both operands and the whole run are computed; the left one is a product.
  have left : ∃ node, evaluateWithin rules 2 ⟨product, {}⟩ = .ok (.int (6 * 7)) ⟨node, {}⟩ :=
    ⟨_, rfl⟩
  have right : evaluateWithin rules 2 ⟨.integer 7, {}⟩ = .ok (.int 7) ⟨.integer 7, {}⟩ := rfl
  have run : ∃ after, evaluateWithin rules 3
      ⟨⟨.operator .divide, .empty, [product, .integer 7]⟩, {}⟩ = .ok (.int 6) ⟨after, {}⟩ :=
    ⟨_, rfl⟩
  obtain ⟨node, left⟩ := left
  obtain ⟨after, run⟩ := run
  obtain ⟨exact, -, -, factor, -⟩ := arithmetic_exact rfl left right run rfl
  have double : IsDouble (6 : ℤ) := (factor rfl 6 rfl).mp rfl
  exact ⟨node, after, left, right, run, exact.mpr ⟨6, by norm_num [Operator.exact], double⟩, double⟩

/-- Without a problem, 2^53 + 1 over one and to the power of one are 2^53, and minus one to the
    power of 2^53 + 1 is one. -/
theorem arithmetic_not_exact :
    let rules : Rules := ⟨{}, .default, fun _ faces => faces.low⟩
    let operation (op : Operator) (a b : ℤ) : Node :=
      ⟨.operator op, .empty, [.integer a, .integer b]⟩
    ((∃ node, evaluateWithin rules 2 ⟨operation .divide (2 ^ 53 + 1) 1, {}⟩ =
        .ok (.int (2 ^ 53)) ⟨node, {}⟩) ∧ Operator.divide.exact (2 ^ 53 + 1) 1 ≠ 2 ^ 53) ∧
      ((∃ node, evaluateWithin rules 2 ⟨operation .exponent (2 ^ 53 + 1) 1, {}⟩ =
        .ok (.int (2 ^ 53)) ⟨node, {}⟩) ∧ Operator.exponent.exact (2 ^ 53 + 1) 1 ≠ 2 ^ 53) ∧
      ((∃ node, evaluateWithin rules 2 ⟨operation .exponent (-1) (2 ^ 53 + 1), {}⟩ =
        .ok (.int 1) ⟨node, {}⟩) ∧ Operator.exponent.exact (-1) (2 ^ 53 + 1) ≠ 1) := by
  intro rules operation
  refine ⟨⟨⟨_, rfl⟩, ?_⟩, ⟨⟨_, rfl⟩, ?_⟩, ⟨⟨_, rfl⟩, ?_⟩⟩
  · norm_num [Operator.exact]
  · norm_num [Operator.exact]
  · have odd : Odd (2 ^ 53 + 1 : ℤ) := ⟨2 ^ 52, by norm_num⟩
    have power : ((-1 : ℤ) : ℚ) ^ (2 ^ 53 + 1 : ℤ) = -1 := by
      rw [Int.cast_neg, Int.cast_one]
      exact odd.neg_one_zpow
    change ((-1 : ℤ) : ℚ) ^ (2 ^ 53 + 1 : ℤ) ≠ 1
    rw [power]
    norm_num

end DiceNotation
