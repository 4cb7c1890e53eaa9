import Walkthrough.Text.Utf8

/-!
# Texts of any bytes

Bytes that are not UTF-8 are shown with a replacement character for each byte that no form of
a character starts with, and for each sequence that starts like such a form and breaks off; it
goes as far as some form does.
-/

namespace Walkthrough.Text

/-- The length of the forms of characters with the given first byte; zero if there are none. -/
def formLength (first : UInt8) : Nat :=
  if first.toNat < 0x80 then 1
  else if first.toNat < 0xC2 then 0
  else if first.toNat < 0xE0 then 2
  else if first.toNat < 0xF0 then 3
  else if first.toNat < 0xF5 then 4
  else 0

def isContinuation (byte : UInt8) : Bool := 0x80 ≤ byte.toNat ∧ byte.toNat < 0xC0

/-- Whether a form with the given first byte can go on with the second.  The forms that would
be longer than needed, and those of surrogates and beyond the last character, are left out. -/
def canFollow (first second : UInt8) : Bool :=
  isContinuation second ∧
    (first.toNat = 0xE0 → 0xA0 ≤ second.toNat) ∧ (first.toNat = 0xED → second.toNat < 0xA0) ∧
    (first.toNat = 0xF0 → 0x90 ≤ second.toNat) ∧ (first.toNat = 0xF4 → second.toNat < 0x90)

/-- How many bytes at the start belong together. -/
def unitLength : List UInt8 → Nat
  | [] => 0
  | [_] => 1
  | first :: second :: rest =>
    if 2 ≤ formLength first ∧ canFollow first second then
      2 + ((rest.take (formLength first - 2)).takeWhile isContinuation).length
    else 1

def replacement : Char := '\uFFFD'

def ofUnit (unit : List UInt8) : Text := (ofUtf8? unit).getD [replacement]

/-- The text of the bytes that come after the next `skip` ones. -/
def lossyFrom (skip : Nat) : List UInt8 → Text
  | [] => []
  | byte :: rest =>
    match skip with
    | skip + 1 => lossyFrom skip rest
    | 0 =>
      let length := unitLength (byte :: rest)
      ofUnit ((byte :: rest).take length) ++ lossyFrom (length - 1) rest

def lossy (bytes : List UInt8) : Text := lossyFrom 0 bytes

end Walkthrough.Text
