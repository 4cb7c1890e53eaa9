import Walkthrough.Double.Literal
import Walkthrough.Double.Shortest

/-!
# Decimal layouts

How the shortest digits of a finite double are set out.  With the value
`d.ddd * 10 ^ e`, a layout fixes for which `e` the number is written positionally, then
always with a fraction, and how the exponent is written otherwise.  Zero is `0.0`, and
a negative zero keeps its sign.
-/

namespace Walkthrough.Double

structure Layout where
  tie : Tie
  leastPositional : Int
  greatestPositional : Int
  /-- Whether an exponent that is not negative has a plus sign. -/
  plus : Bool

namespace Layout

/-- Digits `ddd`, none of them a trailing zero, as the number `0.ddd * 10 ^ point`. -/
def positional (digits : Text) (point : Int) : Text :=
  if point ≤ 0 then "0.".toList ++ List.replicate (-point).toNat '0' ++ digits
  else
    let width := point.toNat
    let whole := digits.take width ++ List.replicate (width - digits.length) '0'
    let fraction := digits.drop width
    whole ++ ['.'] ++ if fraction.isEmpty then ['0'] else fraction

def scientific (plus : Bool) (digits : Text) (exponent : Int) : Text :=
  let mantissa := match digits with
    | [] => []
    | [d] => [d]
    | d :: rest => d :: '.' :: rest
  mantissa ++ ['e'] ++ (if plus ∧ 0 ≤ exponent then ['+'] else []) ++ Text.ofInt exponent

def dropTrailingZeros (digits : Text) : Text := (digits.reverse.dropWhile (· == '0')).reverse

def writeMagnitude (l : Layout) (d : Double) : Text :=
  if d.isZero then "0.0".toList
  else
    let s := d.shortest l.tie
    let digits := Text.ofNat s.coefficient
    let exponent := s.exponent + digits.length - 1
    let kept := dropTrailingZeros digits
    if l.leastPositional ≤ exponent ∧ exponent ≤ l.greatestPositional then
      positional kept (exponent + 1)
    else scientific l.plus kept exponent

/-- The text of a finite double. -/
def write (l : Layout) (d : Double) : Text :=
  (if d.isNegative then ['-'] else []) ++ l.writeMagnitude d

end Layout
end Walkthrough.Double
