import DiceNotation.Number.Binary64

/-! # Decimal text of doubles

A double is written with the fewest decimal digits that read back to it, and of those the
digits nearest to it.  `shortest` finds them: it takes the interval of numbers that round to
the double (its ends included iff the significand is even) and tries the grids of decimals
with 1, 2, … 17 digits; the first grid with a point in the interval wins.

`text` lays the digits out: positionally while the leading digit stands between the fourth
decimal place and the sixteenth integer place, else with an exponent of at least two digits. -/

namespace DiceNotation

-- Powers of natural numbers are those of core, whatever else is imported.
attribute [local instance (5000)] instPowNat

/-- The decimal number `digits · 10 ^ exponent`. -/
structure Decimal where
  digits : Nat
  exponent : Int
deriving DecidableEq, Repr

namespace Decimal

open Binary64 (scale)

/-- The exact value of a decimal. -/
def toRat (d : Decimal) : Rat :=
  if 0 ≤ d.exponent then ((d.digits * 10 ^ d.exponent.toNat : Nat) : Rat)
  else mkRat d.digits (10 ^ (-d.exponent).toNat)

/-- The double nearest to a decimal, or nothing if that is too large for a double.  Numbers from
    `10 ^ 310` on are too large, and numbers below `10 ^ -330` are nearest to zero. -/
def toReal? (d : Decimal) (negative : Bool) : Option Float :=
  let places := d.exponent + (toString d.digits).length
  if d.digits = 0 ∨ places < -330 then Binary64.ofRatio? negative 0 1
  else if 310 < places then none
  else if 0 ≤ d.exponent then Binary64.ofRatio? negative (d.digits * 10 ^ d.exponent.toNat) 1
  else Binary64.ofRatio? negative d.digits (10 ^ (-d.exponent).toNat)

/-- The open or closed interval of the numbers that round to `significand · 2 ^ exponent`.  The
    gap below a power of two is half the gap above it, except at the least exponent. -/
structure RoundingInterval where
  low : Rat
  high : Rat
  closed : Bool

/-- The numbers that round to the double with this significand and exponent. -/
def roundingInterval (significand : Nat) (exponent : Int) : RoundingInterval :=
  let below := if significand = Binary64.fractions ∧ Binary64.minExponent < exponent then 1 else 2
  { low := scale (4 * significand - below) (exponent - 2)
    high := scale (4 * significand + 2) (exponent - 2)
    closed := significand % 2 == 0 }

/-- Whether a number lies in the interval. -/
def RoundingInterval.contains (interval : RoundingInterval) (q : Rat) : Bool :=
  if interval.closed then interval.low ≤ q && q ≤ interval.high
  else interval.low < q && q < interval.high

/-- The greatest `k` with `10 ^ k ≤ q`, for positive `q`. -/
def log10 (q : Rat) : Int :=
  let guess := Binary64.log2Ratio q.num.natAbs q.den * 30103 / 100000
  if (⟨1, guess + 1⟩ : Decimal).toRat ≤ q then guess + 1
  else if (⟨1, guess⟩ : Decimal).toRat ≤ q then guess
  else guess - 1

/-- The neighbours of `q` on the grid of multiples of `10 ^ exponent`, nearer one first.  Of two
    equally near ones the one with the even last digit comes first. -/
def neighbours (q : Rat) (exponent : Int) : List Decimal :=
  let scaled := q / (⟨1, exponent⟩ : Decimal).toRat
  let lower := scaled.floor.toNat
  let part := scaled - (lower : Rat)
  let half := mkRat 1 2
  if part < half ∨ (part = half ∧ lower % 2 = 0) then
    [⟨lower, exponent⟩, ⟨lower + 1, exponent⟩]
  else [⟨lower + 1, exponent⟩, ⟨lower, exponent⟩]

/-- The first decimal with at most `count` more digits that lies in the interval. -/
def search (interval : RoundingInterval) (q : Rat) (leading : Int) : (count : Nat) → Option Decimal
  | 0 => none
  | count + 1 =>
    match search interval q leading count with
    | some d => some d
    | none => (neighbours q (leading - count)).find? fun d => interval.contains d.toRat

/-- Move factors of ten from the digits to the exponent. -/
def stripZeros : (limit : Nat) → Decimal → Decimal
  | 0, d => d
  | limit + 1, d =>
    if d.digits % 10 = 0 ∧ d.digits ≠ 0 then stripZeros limit ⟨d.digits / 10, d.exponent + 1⟩
    else d

/-- The shortest decimal that rounds to a positive double, and of those the nearest one. -/
def shortest (significand : Nat) (exponent : Int) : Decimal :=
  let q := scale significand exponent
  match search (roundingInterval significand exponent) q (log10 q) 17 with
  | some d => stripZeros 17 d
  | none => ⟨significand, exponent⟩

/-! ## Layout -/

/-- Numbers whose leading digit stands for `10 ^ k` are written positionally for `k` from here. -/
def leastPositional : Int := -4

/-- Numbers whose leading digit stands for `10 ^ k` are written positionally for `k` below this. -/
def positionalBound : Int := 16

/-- Two digits at least. -/
private def twoDigits (n : Nat) : String :=
  let digits := toString n
  if n < 10 then "0" ++ digits else digits

/-- Lay out the digits of a positive number; a number without decimal places ends in `.0`. -/
def layout (d : Decimal) : String :=
  let digits := (toString d.digits).toList
  let leading := d.exponent + (digits.length - 1 : Int)
  if leastPositional ≤ leading ∧ leading < positionalBound then
    if leading < 0 then
      "0." ++ String.ofList (List.replicate (-leading - 1).toNat '0' ++ digits)
    else
      let whole := (leading + 1).toNat
      let padded := digits ++ List.replicate (whole + 1 - digits.length) '0'
      String.ofList (padded.take whole) ++ "." ++ String.ofList (padded.drop whole)
  else
    let fraction := digits.drop 1
    let point := if fraction.isEmpty then "" else "."
    let sign := if leading < 0 then "-" else "+"
    String.ofList (digits.take 1) ++ point ++ String.ofList fraction ++ "e" ++ sign ++
      twoDigits leading.natAbs

/-- The text of a double. -/
def text (x : Float) : String :=
  match Binary64.decode x with
  | .nan => "nan"
  | .infinite negative => if negative then "-inf" else "inf"
  | .finite negative significand exponent =>
    let sign := if negative then "-" else ""
    if significand = 0 then sign ++ "0.0" else sign ++ layout (shortest significand exponent)

end Decimal

end DiceNotation
