import DiceNotation.Number.Decimal

/-! # Numbers

A `Number` is an exact integer or a double.  Integers stay exact as long as only integers meet;
where an integer meets a double it is converted first, and that fails if it is too large.

* `compare?`, `lt`, `agree`     comparison is by exact value, and false of NaN
* `add`, `subtract`, …          arithmetic, with the ways in which it fails (`NumberError`)
* `normalize`                   a double without fractional part becomes an integer
* `roundHalfUp`                 the floor of the double nearest to "value plus one half" -/

namespace DiceNotation

/-- An exact integer or a double. -/
inductive Number where
  | int (n : Int)
  | real (x : Float)

/-- The ways in which a computation with numbers fails. -/
inductive NumberError where
  /-- Division or remainder by zero. -/
  | divisionByZero
  /-- An integer beyond the doubles meets a double. -/
  | tooLargeForReal
  /-- The quotient of two integers is beyond the doubles. -/
  | quotientTooLarge
  /-- A power of a negative number to a fraction, or of zero to a negative number. -/
  | outOfDomain
  /-- A power beyond the doubles. -/
  | outOfRange
  /-- An infinity has no integer part. -/
  | infinite
  /-- NaN has no integer part. -/
  | undefined
deriving DecidableEq, Repr

namespace NumberError

/-- The wording of a failure. -/
def message : NumberError → String
  | divisionByZero => "division by zero"
  | tooLargeForReal => "int too large to convert to float"
  | quotientTooLarge => "integer division result too large for a float"
  | outOfDomain => "math domain error"
  | outOfRange => "math range error"
  | infinite => "cannot convert float infinity to integer"
  | undefined => "cannot convert float NaN to integer"

end NumberError

namespace Number

instance : Inhabited Number := ⟨int 0⟩
instance : OfNat Number n := ⟨int n⟩
instance : Coe Int Number := ⟨int⟩

/-! ## Comparison -/

/-- The place of a number on the extended number line. -/
inductive Place where
  | below
  | at (q : Rat)
  | above
  | nowhere

/-- Where a number stands. -/
def place : Number → Place
  | int n => .at n
  | real x =>
    match Binary64.decode x with
    | .infinite true => .below
    | .infinite false => .above
    | .nan => .nowhere
    | .finite negative significand exponent =>
      let size := Binary64.scale significand exponent
      .at (if negative then -size else size)

/-- Order two places; nowhere is not comparable. -/
def Place.compare? : Place → Place → Option Ordering
  | .nowhere, _ => none
  | _, .nowhere => none
  | .below, .below => some .eq
  | .below, _ => some .lt
  | .above, .above => some .eq
  | .above, _ => some .gt
  | .at _, .below => some .gt
  | .at _, .above => some .lt
  | .at p, .at q => some (if p < q then .lt else if q < p then .gt else .eq)

/-- Compare two numbers by exact value; NaN is not comparable. -/
def compare? : Number → Number → Option Ordering
  | int m, int n => some (compare m n)
  | a, b => a.place.compare? b.place

/-- Whether the first number is smaller. -/
def lt (a b : Number) : Bool := compare? a b == some .lt

/-- Whether the two numbers are equal in value. -/
def agree (a b : Number) : Bool := compare? a b == some .eq

/-- Whether the first number is smaller or equal. -/
def le (a b : Number) : Bool := a.lt b || a.agree b

/-- Integers are always comparable, and compared exactly. -/
@[simp] theorem compare?_int (m n : Int) : compare? (int m) (int n) = some (compare m n) := rfl

/-- Integers are ordered as integers, whatever their size. -/
@[simp] theorem lt_int (m n : Int) : lt (int m) (int n) = decide (m < n) := by
  simp only [lt, compare?_int, compare, compareOfLessAndEq]
  split
  · simp_all
  · split <;> simp_all

/-- Integers agree if and only if they are equal. -/
@[simp] theorem agree_int (m n : Int) : agree (int m) (int n) = decide (m = n) := by
  simp only [agree, compare?_int, compare, compareOfLessAndEq]
  split
  · simp only [show (some Ordering.lt == some Ordering.eq) = false from rfl, Bool.false_eq,
      decide_eq_false_iff_not]
    omega
  · split <;> simp_all

/-- Integers are ordered as integers, whatever their size. -/
@[simp] theorem le_int (m n : Int) : le (int m) (int n) = decide (m ≤ n) := by
  simp only [le, lt_int, agree_int, ← Bool.decide_or]
  congr 1
  exact propext (by omega)

/-! ## Arithmetic -/

/-- A number as a double; an integer is rounded to the nearest one. -/
def toReal : Number → Except NumberError Float
  | real x => .ok x
  | int n =>
    match Binary64.ofInt? n with
    | some x => .ok x
    | none => .error .tooLargeForReal

/-- Apply an operation on doubles to two numbers. -/
def onReals (operation : Float → Float → Except NumberError Float) (a b : Number) :
    Except NumberError Number := do
  let x ← a.toReal
  let y ← b.toReal
  return real (← operation x y)

/-- The sum of two numbers. -/
def add : Number → Number → Except NumberError Number
  | int m, int n => .ok (int (m + n))
  | a, b => onReals (fun x y => .ok (x + y)) a b

/-- The difference of two numbers. -/
def subtract : Number → Number → Except NumberError Number
  | int m, int n => .ok (int (m - n))
  | a, b => onReals (fun x y => .ok (x - y)) a b

/-- The product of two numbers. -/
def multiply : Number → Number → Except NumberError Number
  | int m, int n => .ok (int (m * n))
  | a, b => onReals (fun x y => .ok (x * y)) a b

/-- The quotient of two numbers.  Of two integers it is the double nearest to the exact one. -/
def divide : Number → Number → Except NumberError Number
  | int m, int n =>
    if n = 0 then .error .divisionByZero
    else
      match Binary64.ofRatio? (decide (m < 0) != decide (n < 0)) m.natAbs n.natAbs with
      | some x => .ok (real x)
      | none => .error .quotientTooLarge
  | a, b =>
    onReals (fun x y => if y == 0.0 then .error .divisionByZero else .ok (x / y)) a b

/-- The remainder of flooring division; it has the sign of the second number. -/
def modulo : Number → Number → Except NumberError Number
  | int m, int n => if n = 0 then .error .divisionByZero else .ok (int (m.fmod n))
  | a, b =>
    onReals
      (fun x y => if y == 0.0 then .error .divisionByZero else .ok (Binary64.flooredMod x y)) a b

/-- A power, always computed with doubles.  Of finite numbers it fails where it is not finite. -/
def power (a b : Number) : Except NumberError Number :=
  onReals
    (fun x y =>
      let z := Binary64.power x y
      if z.isFinite || !x.isFinite || !y.isFinite then .ok z
      else if z.isNaN || x == 0.0 then .error .outOfDomain
      else .error .outOfRange) a b

/-- The number with the opposite sign. -/
def negate : Number → Number
  | int n => int (-n)
  | real x => real (-x)

/-- The number without its sign. -/
def abs : Number → Number
  | int n => int n.natAbs
  | real x => real x.abs

/-- The square root, as a double. -/
def sqrt (a : Number) : Except NumberError Number := do
  return real (← a.toReal).sqrt

/-- The sum of numbers from left to right, starting from zero. -/
def sum (numbers : List Number) : Except NumberError Number :=
  numbers.foldlM add (int 0)

/-! ## Integer parts -/

/-- The exact value of a number that has one. -/
def exact : Number → Except NumberError Rat
  | a =>
    match a.place with
    | .at q => .ok q
    | .nowhere => .error .undefined
    | _ => .error .infinite

/-- The greatest integer that is not above the number. -/
def floor : Number → Except NumberError Int
  | int n => .ok n
  | a => a.exact.map Rat.floor

/-- The least integer that is not below the number. -/
def ceil : Number → Except NumberError Int
  | int n => .ok n
  | a => a.exact.map Rat.ceil

/-- The integer part, rounding towards zero. -/
def truncate : Number → Except NumberError Int
  | int n => .ok n
  | a => a.exact.map fun q => q.num.tdiv q.den

/-- Round to an integer: the floor of the double nearest to "value plus one half".  An integer
    is first rounded to a double, so one beyond the doubles fails. -/
def roundHalfUp (a : Number) : Except NumberError Int := do
  let q ← a.exact
  let rounded := Binary64.roundRat q
  if rounded < Binary64.bound ∧ -Binary64.bound < rounded then
    return (Binary64.roundRat (rounded + mkRat 1 2)).floor
  else throw .tooLargeForReal

/-- An integer in place of a double without fractional part. -/
def normalize : Number → Number
  | int n => int n
  | real x =>
    match Binary64.toRat? x with
    | some q => if q.den = 1 then int q.num else real x
    | none => real x

/-- Whether the number is a double that is not finite. -/
def isUnbounded : Number → Bool
  | int _ => false
  | real x => !x.isFinite

@[simp] theorem normalize_int (n : Int) : normalize (int n) = int n := rfl

/-- To normalize a number twice is to normalize it once. -/
theorem normalize_normalize (a : Number) : a.normalize.normalize = a.normalize := by
  cases a with
  | int n => rfl
  | real x =>
    cases h : Binary64.toRat? x with
    | none => simp [normalize, h]
    | some q => by_cases hq : q.den = 1 <;> simp [normalize, h, hq]

/-! ## Text -/

/-- The text of a number: the digits of an integer, the shortest digits of a double. -/
def text : Number → String
  | int n => toString n
  | real x => Decimal.text x

/-- Integers of this size and above are not written into a text: they have too many digits. -/
def writableBound : Nat := Nat.pow 10 4300

/-- Whether a number may be written into a text. -/
def isWritable : Number → Bool
  | int n => n.natAbs < writableBound
  | real _ => true

end Number

end DiceNotation
