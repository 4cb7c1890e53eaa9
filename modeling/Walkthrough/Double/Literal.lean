import Walkthrough.Double.Rounding
import Walkthrough.Text.Digits

/-!
# Decimal literals with a point

The grammar is an optional sign, digits with exactly one point and at least one digit,
and an optional exponent with an optional sign and at least one digit.  A literal
stands for the double nearest to its value.
-/

namespace Walkthrough

/-- The number `coefficient * 10 ^ exponent`, with its sign apart, so that zero has two. -/
structure DecimalLiteral where
  negative : Bool
  coefficient : Nat
  exponent : Int

namespace DecimalLiteral

def readExponent? : Text → Option Int
  | [] => some 0
  | mark :: rest =>
    let (negative, digits) := Text.takeSign rest
    if (mark = 'e' ∨ mark = 'E') ∧ Text.isDigits digits then
      some (if negative then -(Text.digitsValue digits : Int) else Text.digitsValue digits)
    else none

def read? (t : Text) : Option DecimalLiteral :=
  let (negative, unsigned) := Text.takeSign t
  let whole := unsigned.takeWhile Char.isDigit
  match unsigned.dropWhile Char.isDigit with
  | '.' :: rest =>
    let fraction := rest.takeWhile Char.isDigit
    if whole.isEmpty ∧ fraction.isEmpty then none
    else
      (readExponent? (rest.dropWhile Char.isDigit)).map fun e =>
        ⟨negative, Text.digitsValue (whole ++ fraction), e - fraction.length⟩
  | _ => none

/-- Exponents beyond every double are settled first: a coefficient of `n` digits times
`10 ^ e` is at least `10 ^ 400` or below `10 ^ -400`. -/
def toDouble (l : DecimalLiteral) : Double :=
  let digits := (Text.ofNat l.coefficient).length
  if l.coefficient = 0 ∨ digits + l.exponent < -400 then .ofMagnitude l.negative 0
  else if 400 < digits + l.exponent then .ofMagnitude l.negative Double.infinityMagnitude
  else .nearest l.negative (l.coefficient * Nat.pow 10 l.exponent.toNat)
    (Nat.pow 10 (-l.exponent).toNat)

end DecimalLiteral
end Walkthrough
