import DiceNotation.Evaluation.Rules

/-! # Random numbers

`Source.seeded` answers each request from a seed and the number of the request alone: the
request number is mixed into 64-bit words, and enough of them are taken to cover the range. -/

namespace DiceNotation

namespace Faces

/-- How many integers a range holds; none if its ends are in the wrong order. -/
def count (faces : Faces) : Nat := (faces.high - faces.low + 1).toNat

end Faces

namespace Source

/-- Scramble the bits of a word. -/
def mix (word : UInt64) : UInt64 :=
  let a := (word ^^^ (word >>> 30)) * 0xBF58476D1CE4E5B9
  let b := (a ^^^ (a >>> 27)) * 0x94D049BB133111EB
  b ^^^ (b >>> 31)

/-- A number made of `words` scrambled words. -/
def scrambled (seed request : UInt64) : (words : Nat) → Nat
  | 0 => 0
  | words + 1 =>
    let word := mix (mix (seed + 0x9E3779B97F4A7C15 * (request + 1)) + UInt64.ofNat words)
    scrambled seed request words * 2 ^ 64 + word.toNat

/-- Random numbers that depend on a seed. -/
def seeded (seed : Int) : Source := fun request faces =>
  let words := faces.count.log2 / 64 + 2
  faces.low + scrambled (UInt64.ofInt seed) (UInt64.ofNat request) words % faces.count

/-- A random number from a range, or nothing if the range is empty. -/
def between? (source : Source) (request : Nat) (faces : Faces) : Option Int :=
  if faces.low ≤ faces.high then some (source request faces) else none

/-- Where there is only one answer, it does not depend on the seed. -/
theorem seeded_of_low_eq_high (seed : Int) (request : Nat) (n : Int) :
    seeded seed request ⟨n, n⟩ = n := by
  have : (Faces.mk n n).count = 1 := by
    simp [Faces.count]
  simp only [seeded, this]
  omega

/-- The answers stay in the range. -/
theorem seeded_mem (seed : Int) (request : Nat) (faces : Faces) (h : faces.low ≤ faces.high) :
    faces.low ≤ seeded seed request faces ∧ seeded seed request faces ≤ faces.high := by
  -- The remainder is less than the number of faces.
  have hcount : (faces.count : Int) = faces.high - faces.low + 1 := by
    unfold Faces.count
    omega
  unfold seeded
  dsimp only
  constructor
  · have := Int.emod_nonneg
      (scrambled (UInt64.ofInt seed) (UInt64.ofNat request) (faces.count.log2 / 64 + 2) : Int)
      (show (faces.count : Int) ≠ 0 by omega)
    omega
  · have := Int.emod_lt_of_pos
      (scrambled (UInt64.ofInt seed) (UInt64.ofNat request) (faces.count.log2 / 64 + 2) : Int)
      (show (0 : Int) < faces.count by omega)
    omega

end Source

end DiceNotation
