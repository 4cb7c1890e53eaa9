import Walkthrough.Double.Basic

/-!
# The double nearest to a fraction

`nearest` rounds a fraction of natural numbers to the nearest double, a tie to the one
with the even significand, and to infinity from half a unit above the largest double.
-/

namespace Walkthrough.Double

/-- The natural number nearest to `num / den`; of two the even one. -/
def roundHalfEven (num den : Nat) : Nat :=
  let below := num / den
  let rest := 2 * (num % den)
  if rest < den ∨ (rest = den ∧ below % 2 = 0) then below else below + 1

/-- The scale is the least at which the number of units has at most 53 bits.  A
significand that rounds up to 54 bits carries into the scale, as the magnitude is the
sum of the two. -/
def nearestMagnitude (num den : Nat) : Nat :=
  let units := num * Nat.pow 2 1074
  let scale := (units / den).log2 - 52
  min (scale * scaleStep + roundHalfEven units (den * Nat.pow 2 scale)) infinityMagnitude

def nearest (negative : Bool) (num den : Nat) : Double :=
  ofMagnitude negative (nearestMagnitude num den)

/-- The product of two finite doubles, rounded once. -/
def times (a b : Double) : Double :=
  nearest (a.isNegative != b.isNegative) (a.units * b.units) (Nat.pow 2 2148)

theorem nearestMagnitude_le (num den : Nat) : nearestMagnitude num den ≤ infinityMagnitude :=
  Nat.min_le_right _ _

theorem isNaN_nearest (negative : Bool) (num den : Nat) :
    (nearest negative num den).isNaN = false := by
  have bound := nearestMagnitude_le num den
  have small : infinityMagnitude < signBit := by decide
  simp only [isNaN, nearest, magnitude_ofMagnitude (Nat.lt_of_le_of_lt bound small)]
  exact decide_eq_false (Nat.not_lt.2 bound)

end Walkthrough.Double
