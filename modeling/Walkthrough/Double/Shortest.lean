import Walkthrough.Double.Basic

/-!
# Shortest decimal digits

The fewest decimal digits that read back as a given double, and of those the ones
nearest to it.  A double owns the reals that round to it: the interval between the
midpoints to its neighbours, with its ends iff the significand is even.  Each grid of
decimal numbers with one, two, … digits has two points next to the double; the first
grid with a point in the interval gives the digits.
-/

namespace Walkthrough.Double

/-- Which of two equally near decimal numbers is taken. -/
inductive Tie where
  | toEven
  | upward

def Tie.takesLower (tie : Tie) (lower : Nat) : Bool :=
  match tie with
  | .toEven => lower % 2 = 0
  | .upward => false

/-- The number `coefficient * 10 ^ exponent`. -/
structure Scientific where
  coefficient : Nat
  exponent : Int

/-- The interval of a finite double, in quarters of its lowest unit `2 ^ -1074`.  Below
a power of two the neighbour is only half as far away. -/
structure Interval where
  lower : Nat
  value : Nat
  upper : Nat
  closed : Bool

def interval (d : Double) : Interval :=
  let unit := Nat.pow 2 d.scale
  let m := 4 * d.significand
  let down := if d.significand = scaleStep ∧ 0 < d.scale then 1 else 2
  ⟨(m - down) * unit, m * unit, (m + 2) * unit, d.significand % 2 = 0⟩

def Interval.times (i : Interval) (n : Nat) : Interval :=
  ⟨i.lower * n, i.value * n, i.upper * n, i.closed⟩

def Interval.contains (i : Interval) (n : Nat) : Bool :=
  if i.closed then i.lower ≤ n ∧ n ≤ i.upper else i.lower < n ∧ n < i.upper

/-- The greatest `e` with `10 ^ e` not above the double, which is not zero. -/
def decimalExponent (d : Double) : Int :=
  ((Nat.toDigits 10 (d.units * Nat.pow 10 400 / Nat.pow 2 1074)).length : Int) - 401

/-- Of the two multiples of a step next to the value, counted in steps: the one in the
interval, or the nearer one. -/
def Interval.nearest? (tie : Tie) (step : Nat) (i : Interval) : Option Nat :=
  let below := i.value / step
  let above := below + 1
  match i.contains (below * step), i.contains (above * step) with
  | false, false => none
  | true, false => some below
  | false, true => some above
  | true, true =>
    let fromBelow := i.value - below * step
    let toAbove := above * step - i.value
    let takesBelow := fromBelow < toAbove || (fromBelow == toAbove && tie.takesLower below)
    some (if takesBelow then below else above)

/-- The point of the grid of multiples of `10 ^ exponent` that is taken for the double. -/
def onGrid? (tie : Tie) (d : Double) (exponent : Int) : Option Scientific :=
  let step := Nat.pow 10 exponent.toNat * Nat.pow 2 1076
  ((d.interval.times (Nat.pow 10 (-exponent).toNat)).nearest? tie step).map fun coefficient =>
    ⟨coefficient, exponent⟩

/-- Seventeen digits always suffice. -/
def shortest (tie : Tie) (d : Double) : Scientific :=
  let leading := d.decimalExponent
  ((List.range 17).findSome? fun (n : Nat) => d.onGrid? tie (leading - n)).getD ⟨0, 0⟩

end Walkthrough.Double
