import Walkthrough.Text.Basic

/-!
# Hexadecimal digits

Numbers in base sixteen.  They are written in lower case with a fixed number of digits
and read in either case.  `readHex?_hex` says that reading undoes writing as far as the
digits reach.
-/

namespace Walkthrough.Text

def hexDigit (n : Nat) : Char :=
  if n < 10 then Char.ofNat ('0'.toNat + n) else Char.ofNat ('a'.toNat + (n - 10))

def hexDigitValue? (c : Char) : Option Nat :=
  let n := c.toNat
  if '0'.toNat ≤ n ∧ n ≤ '9'.toNat then some (n - '0'.toNat)
  else if 'a'.toNat ≤ n ∧ n ≤ 'f'.toNat then some (n - 'a'.toNat + 10)
  else if 'A'.toNat ≤ n ∧ n ≤ 'F'.toNat then some (n - 'A'.toNat + 10)
  else none

/-- The lowest `width` digits of a number. -/
def hex (width n : Nat) : Text :=
  match width with
  | 0 => []
  | width + 1 => hex width (n / 16) ++ [hexDigit (n % 16)]

def readHex? (t : Text) : Option Nat :=
  t.foldlM (fun n c => (hexDigitValue? c).map (16 * n + ·)) 0

theorem hexDigitValue?_hexDigit {n : Nat} (h : n < 16) : hexDigitValue? (hexDigit n) = some n := by
  have all : ∀ m : Fin 16, hexDigitValue? (hexDigit m) = some m.val := by decide
  exact all ⟨n, h⟩

theorem readHex?_hex (width n : Nat) : readHex? (hex width n) = some (n % Nat.pow 16 width) := by
  induction width generalizing n with
  | zero => simp [readHex?, hex, Nat.mod_one]
  | succ width ih =>
    have digit := hexDigitValue?_hexDigit (Nat.mod_lt n (by decide : 0 < 16))
    have value : 16 * (n / 16 % Nat.pow 16 width) + n % 16 = n % Nat.pow 16 (width + 1) := by
      simp only [Nat.pow_eq, Nat.pow_succ', Nat.mod_mul, Nat.add_comm]
    simp only [readHex?] at ih
    simp [readHex?, hex, List.foldlM_append, ih, digit, value, -Nat.pow_eq]

end Walkthrough.Text
