import Walkthrough.Double.Literal
import Walkthrough.Proofs.Double.Rounding
import Walkthrough.Proofs.Double.Shortest

/-!
# Literals beyond the doubles

From half a unit above the greatest finite double upward, the nearest double is an infinity
(`isFinite_nearest_iff`), as the tie there goes to the even side.  So a decimal literal has a
finite double exactly if its value is below that (`DecimalLiteral.isFinite_toDouble_iff`).
-/

namespace Walkthrough

namespace Double

/-- Half a unit above the greatest finite double. -/
def overflow : Nat := largest + Nat.pow 2 970

theorem roundHalfEven_lt {num den n : Nat} (h : 2 * num + den < 2 * (n * den)) :
    roundHalfEven num den < n := by
  have num_eq := Nat.div_add_mod num den
  have below : num / den < n := Nat.div_lt_of_lt_mul (by rw [Nat.mul_comm]; omega)
  simp only [roundHalfEven]
  by_cases last : num / den + 1 = n
  · -- the last number below `n` is not left behind, as the rest is less than half
    have room : n * den = den * (num / den) + den := by
      rw [← last, Nat.succ_mul, Nat.mul_comm]
    split <;> omega
  · split <;> omega

theorem roundHalfEven_tie {n half : Nat} (odd : n % 2 = 1) (positive : 0 < half) :
    roundHalfEven ((2 * n + 1) * half) (2 * half) = n + 1 := by
  have below : (2 * n + 1) * half / (2 * half) = n := by
    rw [Nat.mul_div_mul_right _ _ positive]
    omega
  have rest : (2 * n + 1) * half % (2 * half) = half := by
    have one : (2 * n + 1) % 2 = 1 := by omega
    rw [Nat.mul_mod_mul_right, one, Nat.one_mul]
  simp only [roundHalfEven, below, rest]
  split <;> omega

section
variable {num den : Nat}

theorem nearestMagnitude_eq {scale step : Nat}
    (scale_eq : (num * Nat.pow 2 1074 / den).log2 - 52 = scale)
    (step_eq : den * Nat.pow 2 scale = step) :
    nearestMagnitude num den =
      min (scale * scaleStep + roundHalfEven (num * Nat.pow 2 1074) step) infinityMagnitude := by
  subst scale_eq step_eq
  rfl

/-- At the highest scale, overflow is a tie between the greatest significand and the next. -/
theorem exists_tie (positive : 0 < den) {scale : Nat} (highest : scale = 2045) :
    ∃ half, 0 < half ∧ den * Nat.pow 2 scale = 2 * half ∧
      overflow * den * Nat.pow 2 1074 = (2 * (2 * scaleStep - 1) + 1) * half := by
  have scaled {power step unit : Nat} (power_pos : 0 < power) (double : step = 2 * power)
      (split : overflow * unit = (2 * (2 * scaleStep - 1) + 1) * power) :
      0 < den * power ∧ den * step = 2 * (den * power) ∧
        overflow * den * unit = (2 * (2 * scaleStep - 1) + 1) * (den * power) := by
    refine ⟨Nat.mul_pos positive power_pos, ?_, ?_⟩
    · rw [double, Nat.mul_left_comm]
    · rw [Nat.mul_right_comm, split, Nat.mul_assoc, Nat.mul_comm den]
  refine ⟨den * Nat.pow 2 2044, scaled (by decide +kernel) ?_ (by decide +kernel)⟩
  rw [highest]
  decide +kernel

theorem nearestMagnitude_overflow (positive : 0 < den) :
    nearestMagnitude (overflow * den) den = infinityMagnitude := by
  have scale_eq : (overflow * den * Nat.pow 2 1074 / den).log2 - 52 = 2045 := by
    have highest : (overflow * Nat.pow 2 1074).log2 - 52 = 2045 := by decide +kernel
    rw [Nat.mul_right_comm, Nat.mul_div_cancel _ positive, highest]
  obtain ⟨half, half_pos, step_eq, units_eq⟩ := exists_tie positive scale_eq
  rw [nearestMagnitude_eq rfl step_eq, scale_eq, units_eq, roundHalfEven_tie (by decide) half_pos]
  rfl

theorem nearestMagnitude_lt (h : num < overflow * den) :
    nearestMagnitude num den < infinityMagnitude := by
  have positive : 0 < den := Nat.pos_of_mul_pos_left (Nat.zero_lt_of_lt h)
  have units_lt : num * Nat.pow 2 1074 < overflow * den * Nat.pow 2 1074 :=
    (Nat.mul_lt_mul_right unit_pos).2 h
  have scale_le : (num * Nat.pow 2 1074 / den).log2 - 52 ≤ 2045 := by
    have highest : (overflow * Nat.pow 2 1074).log2 = 2097 := by decide +kernel
    have quotient : num * Nat.pow 2 1074 / den < overflow * Nat.pow 2 1074 :=
      Nat.div_lt_of_lt_mul (by rwa [Nat.mul_comm den, Nat.mul_right_comm])
    have logs := log2_mono (Nat.le_of_lt quotient)
    rw [highest] at logs
    exact Nat.sub_le_of_le_add logs
  rcases Nat.lt_or_eq_of_le scale_le with less | same
  · have rounded := roundHalfEven_le_scaleStep
      (Nat.le_refl ((num * Nat.pow 2 1074 / den).log2 - 52))
    have scaled := Nat.mul_le_mul_right scaleStep (Nat.le_of_lt_succ less)
    rw [nearestMagnitude_eq rfl rfl]
    refine Nat.lt_of_le_of_lt (Nat.min_le_left _ _) ?_
    exact Nat.lt_of_le_of_lt (Nat.add_le_add scaled rounded) (by decide)
  · -- at the highest scale the significand stays below the tie
    obtain ⟨half, -, step_eq, units_eq⟩ := exists_tie positive same
    have below : roundHalfEven (num * Nat.pow 2 1074) (2 * half) < 2 * scaleStep := by
      apply roundHalfEven_lt
      rw [units_eq] at units_lt
      generalize num * Nat.pow 2 1074 = units at units_lt ⊢
      simp only [scaleStep] at units_lt ⊢
      omega
    rw [nearestMagnitude_eq rfl step_eq, same]
    refine Nat.lt_of_le_of_lt (Nat.min_le_left _ _) ?_
    exact Nat.add_lt_add_left below (2045 * scaleStep)

theorem isFinite_nearest_iff (negative : Bool) (positive : 0 < den) :
    (nearest negative num den).isFinite = true ↔ num < overflow * den := by
  rw [isFinite, magnitude_nearest, decide_eq_true_iff]
  constructor
  · intro finite
    refine Nat.lt_of_not_le fun reached => ?_
    have infinite : nearestMagnitude (overflow * den) den ≤ nearestMagnitude num den :=
      nearestMagnitude_mono reached
    rw [nearestMagnitude_overflow positive] at infinite
    exact Nat.not_lt.2 infinite finite
  · exact nearestMagnitude_lt

end

end Double

namespace DecimalLiteral

/-- The value of a literal is at least half a unit above all finite doubles. -/
def Overflows (l : DecimalLiteral) : Prop :=
  Double.overflow * Nat.pow 10 (-l.exponent).toNat ≤ l.coefficient * Nat.pow 10 l.exponent.toNat

instance (l : DecimalLiteral) : Decidable l.Overflows := inferInstanceAs (Decidable (_ ≤ _))

theorem lt_pow_digits (n : Nat) : n < Nat.pow 10 (Text.ofNat n).length :=
  (Nat.length_toDigits_le_iff (by decide) Nat.length_toDigits_pos).1 (Nat.le_refl _)

theorem pow_digits_le {n : Nat} (h : n ≠ 0) : Nat.pow 10 ((Text.ofNat n).length - 1) ≤ n := by
  by_cases single : (Text.ofNat n).length - 1 = 0
  · rw [single]
    exact Nat.pos_of_ne_zero h
  · refine Nat.le_of_not_lt fun less => ?_
    have shorter : (Text.ofNat n).length ≤ (Text.ofNat n).length - 1 :=
      (Nat.length_toDigits_le_iff (by decide) (Nat.pos_of_ne_zero single)).2 less
    omega

section
variable {l : DecimalLiteral}

/-- Exponents beyond every double are settled rightly. -/
theorem overflows_of_lt {limit : Nat} (bound : Double.overflow ≤ Nat.pow 10 limit)
    (nonzero : l.coefficient ≠ 0)
    (h : limit < (Text.ofNat l.coefficient).length + l.exponent) : l.Overflows := by
  calc Double.overflow * Nat.pow 10 (-l.exponent).toNat
    _ ≤ Nat.pow 10 limit * Nat.pow 10 (-l.exponent).toNat := Nat.mul_le_mul_right _ bound
    _ = Nat.pow 10 (limit + (-l.exponent).toNat) := (Nat.pow_add ..).symm
    _ ≤ Nat.pow 10 ((Text.ofNat l.coefficient).length - 1 + l.exponent.toNat) :=
      Nat.pow_le_pow_right (by decide) (by omega)
    _ = Nat.pow 10 ((Text.ofNat l.coefficient).length - 1) * Nat.pow 10 l.exponent.toNat :=
      Nat.pow_add ..
    _ ≤ l.coefficient * Nat.pow 10 l.exponent.toNat :=
      Nat.mul_le_mul_right _ (pow_digits_le nonzero)

theorem not_overflows_of_lt
    (h : l.coefficient = 0 ∨ (Text.ofNat l.coefficient).length + l.exponent < -400) :
    ¬ l.Overflows := by
  refine Nat.not_le.2 ?_
  have power_pos : 0 < Nat.pow 10 (-l.exponent).toNat := Nat.pow_pos (by decide)
  have overflow_pos : 0 < Double.overflow := by decide +kernel
  rcases h with zero | tiny
  · rw [zero, Nat.zero_mul]
    exact Nat.mul_pos overflow_pos power_pos
  · have negative : l.exponent.toNat = 0 := by omega
    calc l.coefficient * Nat.pow 10 l.exponent.toNat
      _ = l.coefficient := by rw [negative]; exact Nat.mul_one _
      _ < Nat.pow 10 (Text.ofNat l.coefficient).length := lt_pow_digits _
      _ ≤ Nat.pow 10 (-l.exponent).toNat := Nat.pow_le_pow_right (by decide) (by omega)
      _ ≤ Double.overflow * Nat.pow 10 (-l.exponent).toNat :=
        Nat.le_mul_of_pos_left _ overflow_pos

end

/-- A literal has a finite double exactly if its value is below the overflow. -/
theorem isFinite_toDouble_iff (l : DecimalLiteral) :
    l.toDouble.isFinite = true ↔ ¬ l.Overflows := by
  unfold toDouble
  dsimp only
  split
  · rename_i small
    refine iff_of_true ?_ (not_overflows_of_lt small)
    rw [Double.isFinite, Double.magnitude_ofMagnitude (by decide)]
    rfl
  · rename_i large
    split
    · rename_i great
      have bound : Double.overflow ≤ Nat.pow 10 400 := by decide +kernel
      refine iff_of_false ?_ (not_not_intro (overflows_of_lt bound (not_or.1 large).1 great))
      rw [Double.isFinite, Double.magnitude_ofMagnitude (by decide)]
      decide
    · have power_pos : 0 < Nat.pow 10 (-l.exponent).toNat := Nat.pow_pos (by decide)
      rw [Double.isFinite_nearest_iff _ power_pos, Overflows, Nat.not_le]

/-- The greatest finite double has seventeen digits. -/
example : ¬ Overflows ⟨false, 17976931348623157, 292⟩ ∧
    Overflows ⟨false, 17976931348623159, 292⟩ := by decide +kernel

end DecimalLiteral
end Walkthrough
