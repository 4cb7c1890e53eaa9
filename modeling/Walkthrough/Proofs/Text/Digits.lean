import Walkthrough.Proofs.Numbers

/-!
# What digits stand for

Digits bound the number that they stand for (`digitsValue_lt`), zeros behind them take it
times ten (`ofDigitChars_replicate_zero`), and a number that is not zero is written without
a zero in front (`exists_cons_ofNat`).
-/

namespace Walkthrough.Text

theorem isDigits_iff {t : Text} : isDigits t = true ↔ t ≠ [] ∧ ∀ c ∈ t, c.isDigit = true := by
  simp only [isDigits, Bool.and_eq_true, Bool.not_eq_true', List.isEmpty_eq_false_iff,
    List.all_eq_true]

theorem takeSign_of_isDigits {t : Text} (h : isDigits t = true) : takeSign t = (false, t) := by
  obtain ⟨nonempty, digits⟩ := isDigits_iff.1 h
  obtain ⟨c, rest, rfl⟩ := List.exists_cons_of_ne_nil nonempty
  have range := isDigit_range (digits c List.mem_cons_self)
  apply takeSign_cons
  · rintro rfl
    exact absurd range.1 (by decide)
  · rintro rfl
    exact absurd range.1 (by decide)

theorem le_ofDigitChars (t : Text) (n : Nat) : n ≤ Nat.ofDigitChars 10 t n := by
  induction t generalizing n with
  | nil => exact Nat.le_refl n
  | cons c t ih =>
    rw [Nat.ofDigitChars_cons]
    exact Nat.le_trans (by omega) (ih _)

/-- As many digits reach no further than the power of ten. -/
theorem ofDigitChars_lt {t : Text} (digits : ∀ c ∈ t, c.isDigit = true) (n : Nat) :
    Nat.ofDigitChars 10 t n < (n + 1) * Nat.pow 10 t.length := by
  induction t generalizing n with
  | nil =>
    rw [Nat.ofDigitChars_nil]
    exact Nat.lt_of_lt_of_eq (Nat.lt_succ_self n) (Nat.mul_one _).symm
  | cons c t ih =>
    obtain ⟨first, others⟩ := List.forall_mem_cons.1 digits
    have range := isDigit_range first
    have zero : '0'.toNat = 48 := rfl
    rw [Nat.ofDigitChars_cons]
    calc Nat.ofDigitChars 10 t (10 * n + (c.toNat - '0'.toNat))
        < (10 * n + (c.toNat - '0'.toNat) + 1) * Nat.pow 10 t.length := ih others _
      _ ≤ (n + 1) * 10 * Nat.pow 10 t.length := Nat.mul_le_mul_right _ (by omega)
      _ = (n + 1) * Nat.pow 10 (c :: t).length := by
        rw [Nat.mul_assoc, Nat.mul_comm 10]
        rfl

theorem digitsValue_lt {t : Text} (digits : ∀ c ∈ t, c.isDigit = true) :
    digitsValue t < Nat.pow 10 t.length :=
  Nat.lt_of_lt_of_eq (ofDigitChars_lt digits 0) (by rw [Nat.zero_add, Nat.one_mul])

theorem ofDigitChars_replicate_zero (k n : Nat) :
    Nat.ofDigitChars 10 (List.replicate k '0') n = n * Nat.pow 10 k := by
  induction k generalizing n with
  | zero => exact (Nat.mul_one n).symm
  | succ k ih =>
    rw [List.replicate_succ, Nat.ofDigitChars_cons, ih]
    have next : Nat.pow 10 (k + 1) = Nat.pow 10 k * 10 := rfl
    rw [next, Nat.sub_self, Nat.add_zero]
    ac_rfl

theorem isDigit_of_mem_ofNat {n : Nat} {c : Char} (h : c ∈ ofNat n) : c.isDigit = true :=
  Nat.isDigit_of_mem_toDigits (by decide) (by decide) h

/-- A number that is not zero is written without a zero in front. -/
theorem exists_cons_ofNat {n : Nat} (h : n ≠ 0) :
    ∃ first rest, ofNat n = first :: rest ∧ first ≠ '0' := by
  induction n using Nat.strongRecOn with
  | ind n ih =>
    by_cases small : n < 10
    · refine ⟨Nat.digitChar n, [], Nat.toDigits_of_lt_base small, ?_⟩
      have all : ∀ m : Fin 10, (m : Nat) ≠ 0 → Nat.digitChar m ≠ '0' := by decide
      exact all ⟨n, small⟩ h
    · obtain ⟨first, rest, leads, not_zero⟩ := ih (n / 10) (by omega) (by omega)
      refine ⟨first, rest ++ [Nat.digitChar (n % 10)], ?_, not_zero⟩
      rw [ofNat, Nat.toDigits_of_base_le (by decide) (by omega), ← List.cons_append, ← leads]
      rfl

theorem ofNat_injective : Function.Injective ofNat := by
  intro m n same
  rw [← digitsValue_ofNat m, same, digitsValue_ofNat]

theorem ofInt_injective : Function.Injective ofInt := by
  intro m n same
  -- no digit is a minus sign
  have unsigned {k : Nat} {t : Text} : ofNat k ≠ '-' :: t := by
    intro equal
    have digit := isDigit_of_mem_ofNat (n := k) (equal ▸ List.mem_cons_self)
    cases digit
  unfold ofInt at same
  split at same <;> split at same
  · have natAbs := ofNat_injective (List.cons.inj same).2
    omega
  · exact absurd same.symm unsigned
  · exact absurd same unsigned
  · have natAbs := ofNat_injective same
    omega

end Walkthrough.Text
