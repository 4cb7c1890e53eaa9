import Walkthrough.Text.Basic

/-!
# Decimal digits

Numbers as texts of the digits 0 to 9, most significant first, with an optional sign.
Reading the digits that were written for a number gives the number back:
`digitsValue_ofNat`.
-/

namespace Walkthrough.Text

/-- The sign at the start of a text, if there is one, and the rest: whether it is a minus. -/
def takeSign : Text → Bool × Text
  | '-' :: rest => (true, rest)
  | '+' :: rest => (false, rest)
  | t => (false, t)

def isDigits (t : Text) : Bool := !t.isEmpty && t.all Char.isDigit

def digitsValue (t : Text) : Nat := Nat.ofDigitChars 10 t 0

/-- The text of a natural number in the decimal system. -/
def ofNat (n : Nat) : Text := Nat.toDigits 10 n

/-- The text of an integer, with a minus sign if it is negative. -/
def ofInt (n : Int) : Text := if n < 0 then '-' :: ofNat n.natAbs else ofNat n.natAbs

theorem digitsValue_ofNat (n : Nat) : digitsValue (ofNat n) = n :=
  Nat.ofDigitChars_ten_toDigits

theorem isDigits_ofNat (n : Nat) : isDigits (ofNat n) = true := by
  have all : (Nat.toDigits 10 n).all Char.isDigit = true :=
    List.all_eq_true.2 fun c hc => Nat.isDigit_of_mem_toDigits (by decide) (by decide) hc
  simp [isDigits, ofNat, all, Nat.toDigits_ne_nil]

end Walkthrough.Text
