import Walkthrough.Text.Basic

/-!
# The order of texts

Texts are ordered by the code points of their characters, the first difference
deciding; a text comes before its extensions.  This is also the order of their bytes in
UTF-8.  `precedes_trichotomous`, `precedes_irrefl` and `precedes_trans` say that the
order is strict and total.
-/

namespace Walkthrough.Text

def precedes : Text → Text → Bool
  | _, [] => false
  | [], _ :: _ => true
  | a :: s, b :: t => a.toNat < b.toNat || (a = b && precedes s t)

theorem toNat_injective {a b : Char} (h : a.toNat = b.toNat) : a = b := by
  rw [← Char.ofNat_toNat a, ← Char.ofNat_toNat b, h]

theorem precedes_irrefl (t : Text) : precedes t t = false := by
  induction t with
  | nil => rfl
  | cons c t ih => simp [precedes, ih]

theorem precedes_trans {r s t : Text} (hrs : precedes r s = true) (hst : precedes s t = true) :
    precedes r t = true := by
  induction r generalizing s t with
  | nil =>
    cases t with
    | nil => cases s <;> simp [precedes] at hst
    | cons => rfl
  | cons a r ih =>
    cases s with
    | nil => simp [precedes] at hrs
    | cons b s =>
      cases t with
      | nil => simp [precedes] at hst
      | cons c t =>
        simp only [precedes, Bool.or_eq_true, Bool.and_eq_true, decide_eq_true_eq] at *
        rcases hrs with hab | ⟨rfl, hrs⟩ <;> rcases hst with hbc | ⟨rfl, hst⟩
        · exact .inl (Nat.lt_trans hab hbc)
        · exact .inl hab
        · exact .inl hbc
        · exact .inr ⟨rfl, ih hrs hst⟩

theorem precedes_trichotomous (s t : Text) :
    precedes s t = true ∨ s = t ∨ precedes t s = true := by
  induction s generalizing t with
  | nil => cases t <;> simp [precedes]
  | cons a s ih =>
    cases t with
    | nil => simp [precedes]
    | cons b t =>
      simp only [precedes, Bool.or_eq_true, Bool.and_eq_true, decide_eq_true_eq, List.cons.injEq]
      rcases Nat.lt_trichotomy a.toNat b.toNat with h | h | h
      · exact .inl (.inl h)
      · obtain rfl := toNat_injective h
        rcases ih t with before | same | after
        · exact .inl (.inr ⟨rfl, before⟩)
        · exact .inr (.inl ⟨rfl, same⟩)
        · exact .inr (.inr (.inr ⟨rfl, after⟩))
      · exact .inr (.inr (.inl h))

end Walkthrough.Text
