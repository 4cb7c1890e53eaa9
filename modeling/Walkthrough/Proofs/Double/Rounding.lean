import Walkthrough.Double.Rounding

/-!
# Rounding keeps the order

The magnitude of the nearest double grows with the fraction (`nearestMagnitude_mono`), and
the units of a double with its magnitude (`units_mono`).  So with two factors the product
of two lesser ones is finite too: `isFinite_times_of_le`.
-/

namespace Walkthrough.Double

/-! ## To a natural number -/

section
variable {m n den : Nat}

theorem roundHalfEven_le_succ (num den : Nat) : roundHalfEven num den ≤ num / den + 1 := by
  simp only [roundHalfEven]
  split <;> omega

theorem div_le_roundHalfEven (num den : Nat) : num / den ≤ roundHalfEven num den := by
  simp only [roundHalfEven]
  split <;> omega

theorem roundHalfEven_mono (h : m ≤ n) : roundHalfEven m den ≤ roundHalfEven n den := by
  rcases Nat.lt_or_eq_of_le (Nat.div_le_div_right h (c := den)) with less | same
  · calc roundHalfEven m den ≤ m / den + 1 := roundHalfEven_le_succ m den
      _ ≤ n / den := less
      _ ≤ roundHalfEven n den := div_le_roundHalfEven n den
  · -- with one floor the rests are in order, and an even floor is even for both
    have rests : m % den ≤ n % den := by
      have m_eq := Nat.div_add_mod m den
      have n_eq := Nat.div_add_mod n den
      rw [same] at m_eq
      omega
    simp only [roundHalfEven, same]
    split <;> split <;> omega

end

/-! ## To a double -/

section
variable {m n den : Nat}

theorem log2_mono (h : m ≤ n) : m.log2 ≤ n.log2 := by
  by_cases zero : m = 0
  · rw [zero, Nat.log2_zero]
    exact Nat.zero_le _
  · exact (Nat.le_log2 (by omega)).2 (Nat.le_trans (Nat.log2_self_le zero) h)

/-- A significand has at most 53 bits, or rounds up to the first number with 54. -/
theorem roundHalfEven_le_scaleStep {units scale : Nat}
    (h : (units / den).log2 - 52 ≤ scale) :
    roundHalfEven units (den * Nat.pow 2 scale) ≤ 2 * scaleStep := by
  have floor_lt : units / (den * Nat.pow 2 scale) < 2 * scaleStep := by
    have positive : 0 < Nat.pow 2 scale := Nat.pow_pos (by decide)
    rw [← Nat.div_div_eq_div_mul, Nat.div_lt_iff_lt_mul positive]
    calc units / den < 2 ^ ((units / den).log2 + 1) := Nat.lt_log2_self
      _ ≤ 2 ^ (53 + scale) := Nat.pow_le_pow_right (by decide) (by omega)
      _ = 2 * scaleStep * Nat.pow 2 scale := Nat.pow_add 2 53 scale
  exact Nat.le_trans (roundHalfEven_le_succ _ _) floor_lt

/-- Above the least scale the significand has all of its 53 bits. -/
theorem scaleStep_le_roundHalfEven {units scale : Nat} (h : (units / den).log2 - 52 = scale)
    (later : 0 < scale) : scaleStep ≤ roundHalfEven units (den * Nat.pow 2 scale) := by
  refine Nat.le_trans ?_ (div_le_roundHalfEven _ _)
  have some_bit : units / den ≠ 0 := by
    intro zero
    rw [zero, Nat.log2_zero] at h
    omega
  have positive : 0 < Nat.pow 2 scale := Nat.pow_pos (by decide)
  rw [← Nat.div_div_eq_div_mul, Nat.le_div_iff_mul_le positive]
  calc scaleStep * Nat.pow 2 scale = 2 ^ (52 + scale) := (Nat.pow_add 2 52 scale).symm
    _ = 2 ^ (units / den).log2 := by rw [← h]; congr 1; omega
    _ ≤ units / den := Nat.log2_self_le some_bit

theorem nearestMagnitude_mono (h : m ≤ n) : nearestMagnitude m den ≤ nearestMagnitude n den := by
  have units_le : m * Nat.pow 2 1074 ≤ n * Nat.pow 2 1074 := Nat.mul_le_mul_right _ h
  unfold nearestMagnitude
  generalize m * Nat.pow 2 1074 = a at units_le ⊢
  generalize n * Nat.pow 2 1074 = b at units_le ⊢
  have scales : (a / den).log2 - 52 ≤ (b / den).log2 - 52 := by
    have logs : (a / den).log2 ≤ (b / den).log2 :=
      log2_mono (Nat.div_le_div_right units_le)
    omega
  refine Nat.le_min.2 ⟨Nat.le_trans (Nat.min_le_left _ _) ?_, Nat.min_le_right _ _⟩
  rcases Nat.lt_or_eq_of_le scales with less | same
  · have low := roundHalfEven_le_scaleStep (Nat.le_refl ((a / den).log2 - 52))
    have high : scaleStep ≤ roundHalfEven b (den * Nat.pow 2 ((b / den).log2 - 52)) :=
      scaleStep_le_roundHalfEven rfl (by omega)
    have step : ((a / den).log2 - 52 + 1) * scaleStep ≤ ((b / den).log2 - 52) * scaleStep :=
      Nat.mul_le_mul_right _ less
    rw [Nat.succ_mul] at step
    omega
  · rw [same]
    exact Nat.add_le_add_left (roundHalfEven_mono units_le) _

theorem magnitude_nearest (negative : Bool) (num den : Nat) :
    (nearest negative num den).magnitude = nearestMagnitude num den :=
  magnitude_ofMagnitude (Nat.lt_of_le_of_lt (nearestMagnitude_le num den) (by decide))

end

/-! ## Units and products -/

/-- Above the least scale the highest bit of the significand is set. -/
theorem scaleStep_le_significand {d : Double} (h : 0 < d.scale) : scaleStep ≤ d.significand := by
  simp only [significand, scale, scaleStep] at h ⊢
  omega

theorem units_mono {d e : Double} (h : d.magnitude ≤ e.magnitude) : d.units ≤ e.units := by
  have scales : d.scale ≤ e.scale := by
    have quotients : d.magnitude / scaleStep ≤ e.magnitude / scaleStep := Nat.div_le_div_right h
    simp only [scale]
    omega
  rcases Nat.lt_or_eq_of_le scales with less | same
  · calc d.units ≤ 2 * scaleStep * 2 ^ d.scale :=
          Nat.mul_le_mul_right _ (Nat.le_of_lt d.significand_lt)
      _ = scaleStep * 2 ^ (d.scale + 1) := by rw [Nat.pow_succ]; ac_rfl
      _ ≤ scaleStep * 2 ^ e.scale := Nat.mul_le_mul_left _ (Nat.pow_le_pow_right (by decide) less)
      _ ≤ e.units := Nat.mul_le_mul_right _ (scaleStep_le_significand (by omega))
  · have significands : d.significand ≤ e.significand := by
      rw [magnitude_eq d, magnitude_eq e, same] at h
      omega
    simp only [units, same]
    exact Nat.mul_le_mul_right _ significands

/-- The product of two doubles is finite if that of two no lesser ones is. -/
theorem isFinite_times_of_le {a b c d : Double} (h : (c.times d).isFinite = true)
    (first : a.magnitude ≤ c.magnitude) (second : b.magnitude ≤ d.magnitude) :
    (a.times b).isFinite = true := by
  have product : a.units * b.units ≤ c.units * d.units :=
    Nat.mul_le_mul (units_mono first) (units_mono second)
  simp only [isFinite, times, magnitude_nearest, decide_eq_true_eq] at h ⊢
  exact Nat.lt_of_le_of_lt (nearestMagnitude_mono product) h

end Walkthrough.Double
