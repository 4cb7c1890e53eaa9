import Walkthrough.Proofs.Text.Trim
import Walkthrough.Value.Inference

/-!
# Texts that are no numbers

A number starts with a digit, a sign or a point.  `readNumber?_eq_none` rules every text
out that starts with another character.
-/

namespace Walkthrough

theorem isDigit_range {c : Char} (h : c.isDigit = true) : 48 ≤ c.toNat ∧ c.toNat ≤ 57 := by
  simp only [Char.isDigit, Bool.and_eq_true, decide_eq_true_eq, UInt32.le_iff_toNat_le,
    ge_iff_le] at h
  exact h

theorem isBlank_of_isDigit {c : Char} (h : c.isDigit = true) : isBlank c = false := by
  have range := isDigit_range h
  exact isBlank_eq_false (by omega) (by omega)

theorem Text.takeSign_cons {c : Char} {rest : Text} (minus : c ≠ '-') (plus : c ≠ '+') :
    takeSign (c :: rest) = (false, c :: rest) := by
  unfold takeSign
  split
  · rename_i same
    exact absurd (List.cons.inj same).1 minus
  · rename_i same
    exact absurd (List.cons.inj same).1 plus
  · rfl

/-- A character that no number starts with. -/
structure StartsNoNumber (c : Char) : Prop where
  digit : c.isDigit = false
  minus : c ≠ '-'
  plus : c ≠ '+'
  point : c ≠ '.'

theorem DecimalLiteral.read?_eq_none {t : Text} (h : ∀ c, t.head? = some c → StartsNoNumber c) :
    read? t = none := by
  cases t with
  | nil => rfl
  | cons c rest =>
    have no := h c rfl
    have unread : (c :: rest).dropWhile Char.isDigit = c :: rest :=
      List.dropWhile_cons_of_neg (by simp [no.digit])
    simp only [read?, Text.takeSign_cons no.minus no.plus, unread]
    split
    · rename_i same
      exact absurd (List.cons.inj same).1 no.point
    · rfl

theorem Text.readDouble?_eq_none {c : Char} {rest : Text} (h : StartsNoNumber c)
    (trimmed : Trimmed (c :: rest)) : readDouble? (c :: rest) = none := by
  have whole : DecimalLiteral.read? (c :: rest) = none :=
    DecimalLiteral.read?_eq_none fun d hd => Option.some.inj hd ▸ h
  have part : DecimalLiteral.read? (c :: rest).dropLast = none := by
    refine DecimalLiteral.read?_eq_none fun d hd => ?_
    cases rest with
    | nil => cases hd
    | cons e rest => exact Option.some.inj hd ▸ h
  simp only [readDouble?, trimmed.trim_eq, whole, part]
  split <;> rfl

theorem Text.readInt32?_eq_none {c : Char} {rest : Text} (h : StartsNoNumber c) :
    readInt32? (c :: rest) = none := by
  have digits : isDigits (c :: rest) = false := by simp [isDigits, h.digit]
  simp only [readInt32?, takeSign_cons h.minus h.plus, digits]
  rfl

theorem Value.readNumber?_eq_none {c : Char} {rest : Text} (h : StartsNoNumber c)
    (trimmed : Text.Trimmed (c :: rest)) : readNumber? (c :: rest) = none := by
  rw [readNumber?, Text.readDouble?_eq_none h trimmed, Text.readInt32?_eq_none h]
  split <;> rfl

end Walkthrough
