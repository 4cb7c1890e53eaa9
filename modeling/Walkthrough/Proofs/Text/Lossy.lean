import Mathlib.Data.List.Basic
import Walkthrough.Text.Lossy

/-!
# How bytes are shown

A text is shown as it is (`lossy_toUtf8`), also behind bytes that are no text
(`lossy_append_toUtf8`): a sequence that breaks off takes no first byte of a character with it.
-/

namespace Walkthrough.Text

theorem unitLength_pos (byte : UInt8) (rest : List UInt8) : 0 < unitLength (byte :: rest) := by
  cases rest with
  | nil => exact Nat.one_pos
  | cons second rest =>
    rw [unitLength]
    split <;> omega

theorem unitLength_le (bytes : List UInt8) : unitLength bytes ≤ bytes.length := by
  match bytes with
  | [] | [_] => exact Nat.le_refl _
  | first :: second :: rest =>
    have run : ((rest.take (formLength first - 2)).takeWhile isContinuation).length ≤
        rest.length :=
      Nat.le_trans (List.takeWhile_prefix _).length_le (List.length_take_le' _ _)
    simp only [unitLength, List.length_cons]
    split <;> omega

theorem lossyFrom_eq_drop (skip : Nat) (bytes : List UInt8) :
    lossyFrom skip bytes = lossy (bytes.drop skip) := by
  induction bytes generalizing skip with
  | nil =>
    rw [List.drop_nil]
    rfl
  | cons byte rest ih =>
    cases skip with
    | zero => rfl
    | succ skip => exact ih skip

/-- The first bytes that belong together, and then the others. -/
theorem lossy_eq_append (bytes : List UInt8) (h : bytes ≠ []) :
    lossy bytes =
      ofUnit (bytes.take (unitLength bytes)) ++ lossy (bytes.drop (unitLength bytes)) := by
  cases bytes with
  | nil => exact absurd rfl h
  | cons byte rest =>
    obtain ⟨length, length_eq⟩ := Nat.exists_eq_add_one_of_ne_zero
      (Nat.ne_of_gt (unitLength_pos byte rest))
    rw [lossy, lossyFrom]
    simp only [lossyFrom_eq_drop, length_eq]
    rfl

/-! ## The forms of characters -/

/-- What the first bytes of the forms of characters are, and what comes after them. -/
inductive IsForm : List UInt8 → Prop where
  | one {first : UInt8} (h : formLength first = 1) : IsForm [first]
  | two {first second : UInt8} (h : formLength first = 2) (follows : canFollow first second) :
      IsForm [first, second]
  | three {first second third : UInt8} (h : formLength first = 3)
      (follows : canFollow first second) (ends : isContinuation third) :
      IsForm [first, second, third]
  | four {first second third fourth : UInt8} (h : formLength first = 4)
      (follows : canFollow first second) (goes_on : isContinuation third)
      (ends : isContinuation fourth) : IsForm [first, second, third, fourth]

section
variable {x y : Nat} (hx : x < 256) (hy : y < 256)
include hx

theorem toNat_ofNat : (UInt8.ofNat x).toNat = x := UInt8.toNat_ofNat_of_lt' hx

theorem isContinuation_ofNat_iff :
    isContinuation (UInt8.ofNat x) = true ↔ 0x80 ≤ x ∧ x < 0xC0 := by
  rw [isContinuation, toNat_ofNat hx, decide_eq_true_iff]

theorem formLength_ofNat : formLength (UInt8.ofNat x) =
    if x < 0x80 then 1 else if x < 0xC2 then 0 else if x < 0xE0 then 2 else if x < 0xF0 then 3
    else if x < 0xF5 then 4 else 0 := by
  rw [formLength, toNat_ofNat hx]

include hy in
theorem canFollow_ofNat_iff : canFollow (UInt8.ofNat x) (UInt8.ofNat y) = true ↔
    (0x80 ≤ y ∧ y < 0xC0) ∧ (x = 0xE0 → 0xA0 ≤ y) ∧ (x = 0xED → y < 0xA0) ∧
      (x = 0xF0 → 0x90 ≤ y) ∧ (x = 0xF4 → y < 0x90) := by
  rw [canFollow, decide_eq_true_iff, isContinuation_ofNat_iff hy, toNat_ofNat hx, toNat_ofNat hy]

end

theorem isForm_utf8EncodeChar (c : Char) : IsForm (String.utf8EncodeChar c) := by
  have valid := c.valid
  simp only [UInt32.isValidChar, Nat.isValidChar] at valid
  simp only [String.utf8EncodeChar]
  generalize c.val.toNat = n at *
  split
  · apply IsForm.one
    rw [formLength_ofNat (by omega), if_pos (by omega)]
  · split
    · apply IsForm.two
      · rw [formLength_ofNat (by omega), if_neg (by omega), if_neg (by omega), if_pos (by omega)]
      · rw [canFollow_ofNat_iff (by omega) (by omega)]
        omega
    · split
      · apply IsForm.three
        · rw [formLength_ofNat (by omega), if_neg (by omega), if_neg (by omega), if_neg (by omega),
            if_pos (by omega)]
        · rw [canFollow_ofNat_iff (by omega) (by omega)]
          omega
        · exact (isContinuation_ofNat_iff (by omega)).2 (by omega)
      · apply IsForm.four
        · rw [formLength_ofNat (by omega), if_neg (by omega), if_neg (by omega), if_neg (by omega),
            if_neg (by omega), if_pos (by omega)]
        · rw [canFollow_ofNat_iff (by omega) (by omega)]
          omega
        · exact (isContinuation_ofNat_iff (by omega)).2 (by omega)
        · exact (isContinuation_ofNat_iff (by omega)).2 (by omega)

/-- A form belongs together, whatever comes after it. -/
theorem IsForm.unitLength_append {form : List UInt8} (h : IsForm form) (rest : List UInt8) :
    unitLength (form ++ rest) = form.length := by
  cases h with
  | one h => cases rest <;> simp [unitLength, h]
  | two h follows => simp [unitLength, h, follows]
  | three h follows ends => simp [unitLength, h, follows, ends]
  | four h follows goes_on ends => simp [unitLength, h, follows, goes_on, ends]

theorem formLength_of_isContinuation {byte : UInt8} (h : isContinuation byte = true) :
    formLength byte = 0 := by
  rw [isContinuation, decide_eq_true_iff] at h
  rw [formLength, if_neg (by omega), if_pos (by omega)]

/-- No form goes on with the first byte of another. -/
theorem IsForm.exists_head {form : List UInt8} (h : IsForm form) :
    ∃ first others, form = first :: others ∧ isContinuation first = false := by
  have head {first : UInt8} {n : Nat} (h : formLength first = n + 1) :
      isContinuation first = false := by
    rw [← Bool.not_eq_true]
    intro continuation
    rw [formLength_of_isContinuation continuation] at h
    cases h
  cases h with
  | one h | two h | three h | four h => exact ⟨_, _, rfl, head h⟩

/-! ## Texts among the bytes -/

theorem ofUnit_utf8EncodeChar (c : Char) : ofUnit (String.utf8EncodeChar c) = [c] := by
  have single : toUtf8 [c] = String.utf8EncodeChar c := List.append_nil _
  rw [ofUnit, ← single, ofUtf8?_toUtf8, Option.getD_some]

theorem lossy_char_append (c : Char) (rest : List UInt8) :
    lossy (String.utf8EncodeChar c ++ rest) = c :: lossy rest := by
  have form := isForm_utf8EncodeChar c
  have nonempty : String.utf8EncodeChar c ++ rest ≠ [] :=
    List.append_ne_nil_of_left_ne_nil String.utf8EncodeChar_ne_nil rest
  rw [lossy_eq_append _ nonempty, form.unitLength_append, List.take_left, List.drop_left,
    ofUnit_utf8EncodeChar]
  rfl

theorem lossy_toUtf8 (t : Text) : lossy (toUtf8 t) = t := by
  induction t with
  | nil => rfl
  | cons c t ih =>
    have split : toUtf8 (c :: t) = String.utf8EncodeChar c ++ toUtf8 t := List.flatMap_cons
    rw [split, lossy_char_append, ih]

theorem takeWhile_take_append {α : Type} {p : α → Bool} {x : α} (h : p x = false) (n : Nat)
    (xs ys : List α) : ((xs ++ x :: ys).take n).takeWhile p = (xs.take n).takeWhile p := by
  induction xs generalizing n with
  | nil => cases n <;> simp [h]
  | cons y xs ih =>
    cases n with
    | zero => rfl
    | succ n =>
      rw [List.cons_append, List.take_succ_cons, List.take_succ_cons, List.takeWhile_cons,
        List.takeWhile_cons, ih]

/-- What belongs together at the start ends before a byte that goes on with nothing. -/
theorem unitLength_append (bytes : List UInt8) (h : bytes ≠ []) {byte : UInt8}
    (fresh : isContinuation byte = false) (rest : List UInt8) :
    unitLength (bytes ++ byte :: rest) = unitLength bytes := by
  match bytes with
  | [] => exact absurd rfl h
  | [first] => simp [unitLength, canFollow, fresh]
  | first :: second :: others =>
    simp only [List.cons_append, unitLength, takeWhile_take_append fresh]

theorem lossy_append {byte : UInt8} (fresh : isContinuation byte = false)
    (bytes rest : List UInt8) :
    lossy (bytes ++ byte :: rest) = lossy bytes ++ lossy (byte :: rest) := by
  induction length : bytes.length using Nat.strongRecOn generalizing bytes with
  | _ n ih =>
    by_cases h : bytes = []
    · rw [h]
      rfl
    · have inside := unitLength_le bytes
      have shorter : (bytes.drop (unitLength bytes)).length < n := by
        obtain ⟨first, others, rfl⟩ := List.exists_cons_of_ne_nil h
        have positive := unitLength_pos first others
        rw [List.length_drop]
        omega
      rw [lossy_eq_append (bytes ++ byte :: rest) (by simp), lossy_eq_append bytes h,
        unitLength_append bytes h fresh, List.take_append_of_le_length inside,
        List.drop_append_of_le_length inside, ih _ shorter _ rfl, List.append_assoc]

/-- Three bytes that start a form and break off are shown as one character, a first byte and one
that cannot follow it as two. -/
example : lossy [0xF0, 0x90, 0x80, 0x57, 0xF0, 0x80] = "\uFFFDW\uFFFD\uFFFD".toList := rfl

/-- A text is shown as it is behind any bytes. -/
theorem lossy_append_toUtf8 (bytes : List UInt8) (t : Text) :
    lossy (bytes ++ toUtf8 t) = lossy bytes ++ t := by
  cases t with
  | nil => simp [toUtf8]
  | cons c t =>
    obtain ⟨first, others, form, fresh⟩ := (isForm_utf8EncodeChar c).exists_head
    have split : toUtf8 (c :: t) = first :: (others ++ toUtf8 t) := by
      rw [toUtf8, List.flatMap_cons, form]
      rfl
    rw [split, lossy_append fresh, ← split, lossy_toUtf8]

end Walkthrough.Text
