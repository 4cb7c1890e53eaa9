import Walkthrough.Double.Rounding
import Walkthrough.Text.Digits

/-!
# Number literals

A number has an optional minus sign, a whole part without needless zeros, an optional
fraction and an optional exponent.  A literal is in range unless a double is too small
for it.  The range is tested on a significand below `2 ^ 64`, so that of very long
literals the later digits do not count.
-/

namespace Walkthrough.Json

/-- A literal by its parts, each as it is written. -/
structure NumberLiteral where
  sign : Text
  whole : Text
  /-- The point and the digits after it. -/
  fraction : Text
  /-- The mark, its sign and its digits. -/
  exponent : Text

namespace NumberLiteral

def text (l : NumberLiteral) : Text := l.sign ++ l.whole ++ l.fraction ++ l.exponent

def digitsOf (t : Text) : Text × Text := (t.takeWhile Char.isDigit, t.dropWhile Char.isDigit)

def takeWhole? (t : Text) : Option (Text × Text) :=
  match digitsOf t with
  | ([], _) => none
  | ('0' :: _ :: _, _) => none
  | found => some found

def takeFraction? : Text → Option (Text × Text)
  | '.' :: rest =>
    match digitsOf rest with
    | ([], _) => none
    | (digits, after) => some ('.' :: digits, after)
  | t => some ([], t)

def takeExponentSign : Text → Text × Text
  | '-' :: rest => (['-'], rest)
  | '+' :: rest => (['+'], rest)
  | t => ([], t)

def takeExponent? : Text → Option (Text × Text)
  | [] => some ([], [])
  | mark :: rest =>
    if mark = 'e' ∨ mark = 'E' then
      let (sign, unsigned) := takeExponentSign rest
      match digitsOf unsigned with
      | ([], _) => none
      | (digits, after) => some (mark :: sign ++ digits, after)
    else some ([], mark :: rest)

def takeMinus : Text → Text × Text
  | '-' :: rest => (['-'], rest)
  | t => ([], t)

/-- The literal that a text starts with, and what comes after it. -/
def take? (t : Text) : Option (NumberLiteral × Text) :=
  let (sign, unsigned) := takeMinus t
  match takeWhole? unsigned with
  | none => none
  | some (whole, rest) =>
    match takeFraction? rest with
    | none => none
    | some (fraction, rest) =>
      (takeExponent? rest).map fun (exponent, rest) => (⟨sign, whole, fraction, exponent⟩, rest)

/-- The first number that a significand does not reach, `2 ^ 64`. -/
def significandLimit : Nat := 0x10000000000000000

/-- The significand with digits appended to it, up to the first one that would lift it
to the limit or above, and the number of digits that come from there on. -/
def appendDigits (significand : Nat) : Text → Nat × Nat
  | [] => (significand, 0)
  | c :: rest =>
    let next := 10 * significand + (c.toNat - '0'.toNat)
    if next < significandLimit then appendDigits next rest else (significand, rest.length + 1)

def exponentValue (l : NumberLiteral) : Int :=
  let (negative, digits) := Text.takeSign l.exponent.tail
  if negative then -(Text.digitsValue digits : Int) else Text.digitsValue digits

/-- Whether `significand * 10 ^ exponent` has a finite double, where each of the two
factors is rounded to a double first. -/
def isFiniteProduct (significand : Nat) (exponent : Int) : Bool :=
  significand = 0 || exponent < 0 ||
    (exponent ≤ 308 &&
      ((Double.nearest false significand 1).times
        (.nearest false (Nat.pow 10 exponent.toNat) 1)).isFinite)

def isInRange (l : NumberLiteral) : Bool :=
  let digits := l.fraction.tail
  let (whole, droppedWhole) := appendDigits 0 l.whole
  let (significand, droppedFraction) := appendDigits whole digits
  isFiniteProduct significand
    (l.exponentValue + droppedWhole - (digits.length - droppedFraction : Nat))

end NumberLiteral

def isInRange (literal : Text) : Bool :=
  (NumberLiteral.take? literal).any fun (l, _) => l.isInRange

end Walkthrough.Json
