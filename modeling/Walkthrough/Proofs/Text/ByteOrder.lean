import Walkthrough.Text.Order
import Walkthrough.Text.Utf8

/-!
# The order of texts as the order of their bytes

Texts are compared by code points, their UTF-8 forms byte by byte.  `precedes_iff_bytes`
says that the two orders are one.
-/

namespace Walkthrough.Text

/-- The bytes of one text come before those of another. -/
abbrev BytesPrecede (s t : Text) : Prop := List.Lex (· < ·) (toUtf8 s) (toUtf8 t)

theorem lex_ofNat_cons {x y : Nat} {s t : List UInt8} (hx : x < 256) (hy : y < 256) (h : x ≤ y)
    (next : x = y → List.Lex (· < ·) s t) :
    List.Lex (· < ·) (UInt8.ofNat x :: s) (UInt8.ofNat y :: t) := by
  by_cases same : x = y
  · exact same ▸ .cons (next same)
  · apply List.Lex.rel
    rw [UInt8.lt_iff_toNat_lt, UInt8.toNat_ofNat_of_lt' hx, UInt8.toNat_ofNat_of_lt' hy]
    omega

/-- The bytes of two characters differ before either form ends, so what follows them has
no say. -/
theorem lex_utf8EncodeChar {a b : Char} (h : a.toNat < b.toNat) (s t : List UInt8) :
    List.Lex (· < ·) (String.utf8EncodeChar a ++ s) (String.utf8EncodeChar b ++ t) := by
  have bound : b.val.toNat < 0x110000 := by
    have valid := b.valid
    simp only [UInt32.isValidChar, Nat.isValidChar] at valid
    omega
  simp only [String.utf8EncodeChar, Char.toNat] at h ⊢
  generalize a.val.toNat = m at *
  generalize b.val.toNat = n at *
  -- one case for each pair of lengths; the bytes are compared from the first on
  repeat' split
  all_goals simp only [List.cons_append, List.nil_append]
  all_goals repeat' refine lex_ofNat_cons (by omega) (by omega) (by omega) fun _ => ?_
  all_goals omega

theorem bytesPrecede_of_precedes {s t : Text} (h : precedes s t = true) : BytesPrecede s t := by
  induction s generalizing t with
  | nil =>
    cases t with
    | nil => cases h
    | cons b t =>
      obtain ⟨byte, bytes, encoded⟩ :=
        List.exists_cons_of_ne_nil (String.utf8EncodeChar_ne_nil (c := b))
      simp only [BytesPrecede, toUtf8, List.flatMap_cons, encoded]
      exact .nil
  | cons a s ih =>
    cases t with
    | nil => cases h
    | cons b t =>
      simp only [precedes, Bool.or_eq_true, Bool.and_eq_true, decide_eq_true_eq] at h
      simp only [BytesPrecede, toUtf8, List.flatMap_cons]
      rcases h with less | ⟨rfl, h⟩
      · exact lex_utf8EncodeChar less _ _
      · generalize String.utf8EncodeChar a = bytes
        induction bytes with
        | nil => exact ih h
        | cons byte bytes ih_bytes => exact .cons ih_bytes

theorem precedes_iff_bytes {s t : Text} : precedes s t = true ↔ BytesPrecede s t := by
  constructor
  · exact bytesPrecede_of_precedes
  · intro h
    have irrefl (x : List UInt8) : ¬ List.Lex (· < ·) x x := List.lex_irrefl UInt8.lt_irrefl x
    rcases precedes_trichotomous s t with before | rfl | after
    · exact before
    · exact absurd h (irrefl _)
    · exact absurd h (List.lex_asymm UInt8.lt_asymm (bytesPrecede_of_precedes after))

end Walkthrough.Text
