/-!
# Doubles

A double is its 64 bits in the binary64 format: the sign, and a magnitude that
counts the doubles from zero upward.  Every finite one stands for
`significand * 2 ^ scale` units of `2 ^ -1074`; `magnitude_eq` recovers the
magnitude from the two.
-/

namespace Walkthrough

structure Double where
  bits : UInt64
  deriving DecidableEq

namespace Double

/-- The highest of the 64 bits, `2 ^ 63`. -/
def signBit : Nat := 0x8000000000000000

/-- The number of magnitudes with one scale, `2 ^ 52`. -/
def scaleStep : Nat := 0x10000000000000

def isNegative (d : Double) : Bool := signBit ≤ d.bits.toNat

def magnitude (d : Double) : Nat := d.bits.toNat % signBit

/-- The magnitude of an infinity; larger ones are not numbers. -/
def infinityMagnitude : Nat := 0x7FF * scaleStep

def isFinite (d : Double) : Bool := d.magnitude < infinityMagnitude

def isNaN (d : Double) : Bool := infinityMagnitude < d.magnitude

def isZero (d : Double) : Bool := d.magnitude == 0

def ofMagnitude (negative : Bool) (magnitude : Nat) : Double :=
  ⟨.ofNat (magnitude + if negative then signBit else 0)⟩

def scale (d : Double) : Nat := d.magnitude / scaleStep - 1

def significand (d : Double) : Nat := d.magnitude - d.scale * scaleStep

/-- The distance of a finite double from zero, in units of `2 ^ -1074`. -/
def units (d : Double) : Nat := d.significand * Nat.pow 2 d.scale

theorem magnitude_eq (d : Double) : d.magnitude = d.scale * scaleStep + d.significand := by
  simp only [significand, scale, scaleStep]
  omega

theorem significand_lt (d : Double) : d.significand < 2 * scaleStep := by
  simp only [significand, scale, scaleStep]
  omega

theorem magnitude_ofMagnitude {negative : Bool} {m : Nat} (h : m < signBit) :
    (ofMagnitude negative m).magnitude = m := by
  cases negative <;> simp [ofMagnitude, magnitude, signBit] at * <;> omega

end Double
end Walkthrough
