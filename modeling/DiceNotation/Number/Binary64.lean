/-! # Doubles as exact numbers

A finite IEEE 754 double stands for `± significand · 2 ^ exponent`.  This file takes doubles
apart into that form (`decode`, `toRat?`) and rounds exact rationals to the nearest double,
ties to the even significand (`nearest`, `ofRat?`).  Everything is exact integer arithmetic,
so statements about rounding are statements about `Nat` and `Int`. -/

namespace DiceNotation.Binary64

-- Powers of natural numbers are those of core, whatever else is imported.
attribute [local instance (5000)] instPowNat

/-- What the bits of a double stand for. -/
inductive Decoded where
  /-- The number `± significand · 2 ^ exponent`. -/
  | finite (negative : Bool) (significand : Nat) (exponent : Int)
  /-- An infinity. -/
  | infinite (negative : Bool)
  /-- Not a number. -/
  | nan
deriving DecidableEq, Repr

/-- The exponent of the smallest positive double. -/
def minExponent : Int := -1074

/-- The number of fractions: two to the 52. -/
def fractions : Nat := 0x10000000000000

/-- The value of the sign bit: two to the 63. -/
def signBit : Nat := 0x8000000000000000

/-- Take a double apart: one sign bit, eleven exponent bits, fifty-two fraction bits. -/
def decode (x : Float) : Decoded :=
  let bits := x.toBits.toNat
  let negative := decide (signBit ≤ bits)
  let field : Nat := bits / fractions % 2048
  let fraction := bits % fractions
  if field = 2047 then
    if fraction = 0 then .infinite negative else .nan
  else if field = 0 then .finite negative fraction minExponent
  else .finite negative (fractions + fraction) (minExponent + field - 1)

/-- The number `significand · 2 ^ exponent`. -/
def scale (significand : Nat) (exponent : Int) : Rat :=
  if 0 ≤ exponent then ((significand * 2 ^ exponent.toNat : Nat) : Rat)
  else mkRat significand (2 ^ (-exponent).toNat)

/-- The exact value of a finite double. -/
def toRat? (x : Float) : Option Rat :=
  match decode x with
  | .finite true significand exponent => some (-scale significand exponent)
  | .finite false significand exponent => some (scale significand exponent)
  | _ => none

/-! ## Rounding -/

/-- The integer nearest to `num / den`, a half going to the even neighbour. -/
def roundDiv (num den : Nat) : Nat :=
  let quotient := num / den
  let twice := 2 * (num % den)
  if twice < den ∨ (twice = den ∧ quotient % 2 = 0) then quotient else quotient + 1

/-- The greatest `k` with `2 ^ k ≤ num / den`, for positive `num` and `den`. -/
def log2Ratio (num den : Nat) : Int :=
  let k : Int := num.log2 - den.log2
  if den * 2 ^ k.toNat ≤ num * 2 ^ (-k).toNat then k else k - 1

/-- Significand and exponent of the double nearest to `num / den`.  The significand has 53 bits
    unless the exponent is the least one; the exponent has no upper bound here. -/
def nearest (num den : Nat) : Nat × Int :=
  if num = 0 then (0, minExponent)
  else
    let exponent := max (log2Ratio num den - 52) minExponent
    (roundDiv (num * 2 ^ (-exponent).toNat) (den * 2 ^ exponent.toNat), exponent)

/-- Zero is rounded to the significand zero with the least exponent. -/
theorem nearest_zero (den : Nat) : nearest 0 den = (0, minExponent) := rfl

/-- A rational rounded to 53 significant bits. -/
def roundRat (q : Rat) : Rat :=
  let rounded := nearest q.num.natAbs q.den
  let size := scale rounded.1 rounded.2
  if q.num < 0 then -size else size

/-- Every double is below this number. -/
def bound : Rat := (Nat.pow 2 1024 : Rat)

/-- The double with a significand and exponent as `nearest` gives them, or nothing if it is
    beyond the largest double.  A significand of `2 ^ 53` carries into the exponent field. -/
def ofParts? (negative : Bool) (significand : Nat) (exponent : Int) : Option Float :=
  let magnitude := (exponent - minExponent).toNat * fractions + significand
  if magnitude < 2047 * fractions then
    some (Float.ofBits (UInt64.ofNat (magnitude + if negative then signBit else 0)))
  else none

/-- The double nearest to `± num / den`, or nothing if that is too large for a double. -/
def ofRatio? (negative : Bool) (num den : Nat) : Option Float :=
  let rounded := nearest num den
  ofParts? negative rounded.1 rounded.2

/-- The double nearest to an integer, or nothing if that is too large for a double. -/
def ofInt? (n : Int) : Option Float :=
  ofRatio? (n < 0) n.natAbs 1

/-- The double nearest to a rational, or nothing if that is too large for a double. -/
def ofRat? (q : Rat) : Option Float :=
  ofRatio? (q.num < 0) q.num.natAbs q.den

/-! ## Powers and remainders -/

/-- Whether a double carries a minus sign, zeros included. -/
def isNegative (x : Float) : Bool :=
  match decode x with
  | .finite negative _ _ => negative
  | .infinite negative => negative
  | .nan => false

/-- `x` less a multiple of `y`, nearest to zero with the sign of `x`: the exact remainder of
    truncating division.  Nothing remains of an infinite `x`, and an infinite `y` leaves `x`. -/
def truncatedMod (x y : Float) : Float :=
  match decode x, decode y with
  | .finite negative m e, .finite _ n f =>
    let least := min e f
    let rest := (m * 2 ^ (e - least).toNat) % (n * 2 ^ (f - least).toNat)
    match ofRat? (scale rest least) with
    | some size => if negative then -size else size
    | none => x
  | .finite .., .infinite _ => x
  | _, _ => 0.0 / 0.0

/-- The remainder of flooring division, for `y ≠ 0`: it has the sign of `y`. -/
def flooredMod (x y : Float) : Float :=
  let rest := truncatedMod x y
  if rest == 0.0 then (if isNegative y then -0.0 else 0.0)
  else if decide (y < 0.0) != decide (rest < 0.0) then rest + y
  else rest

/-- Split off the factors of two of a positive number, at most `limit` of them. -/
def oddPart : (limit : Nat) → Nat → Nat × Nat
  | 0, m => (m, 0)
  | limit + 1, m =>
    if m % 2 = 0 then
      let rest := oddPart limit (m / 2)
      (rest.1, rest.2 + 1)
    else (m, 0)

/-- A power of zero: zero itself, one, or an infinity. -/
def zeroPower (negative : Bool) (power : Int) : Float :=
  let size := if power = 0 then 1 else if power < 0 then 1 / 0 else 0
  if negative then -size else size

/-- `x ^ y` where a double holds it exactly: `y` an integer, and a power of the odd part of `x`
    with at most 53 bits and an exponent in range.  Zero to a negative number is infinite. -/
def exactPower? (x y : Float) : Option Float :=
  match decode x, toRat? y with
  | .finite negative m e, some power =>
    let count := power.num.natAbs
    let minus := negative && count % 2 == 1
    if power.den ≠ 1 then none
    else if m = 0 then some (zeroPower minus power.num)
    else
      let odd := oddPart 53 m
      if odd.1 ≠ 1 ∧ (53 < count ∨ power.num < 0) then none
      else
        let significand := if odd.1 = 1 then 1 else odd.1 ^ count
        let exponent := (e + odd.2) * power.num
        if 2 * fractions ≤ significand ∨ exponent < minExponent ∨ 1023 < exponent then none
        else
          let size := scale significand exponent
          ofRat? (if minus then -size else size)
  | _, _ => none

/-- `x ^ y`: exact where a double can hold the power, else as the platform rounds it. -/
def power (x y : Float) : Float :=
  (exactPower? x y).getD (x.pow y)

end DiceNotation.Binary64
