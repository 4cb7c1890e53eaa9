import Walkthrough.Double.Shortest
import Walkthrough.Proofs.Double.Rounding

/-!
# Seventeen digits suffice

The digits that are chosen for a double lie in its interval, they are not zero, and there
are no more than seventeen of them, but for a one with seventeen zeros: `shortest_spec`.

* `steps_bounds` places a double on the grid of `n + 1` digits;
* `exists_onGrid?` finds a point on the grid of seventeen digits, which is finer than the
  interval is wide;
* `shortest_le_largest` bounds the digits of a finite double by the greatest one.
-/

namespace Walkthrough.Double

/-! ## The grids -/

theorem unit_pos : 0 < Nat.pow 2 1074 := by decide +kernel

theorem pow_mul_pow_eq {a b c d e : Nat} (h : a + b = c + d + e) :
    Nat.pow 10 a * Nat.pow 10 b = Nat.pow 10 c * Nat.pow 10 d * Nat.pow 10 e := by
  simp only [Nat.pow_eq, ← Nat.pow_add, h]

section
variable {below digits grid above clear units unit : Nat}
  (powers : below * digits = grid * above * clear)
include powers

theorem mul_le_of_cleared (clear_pos : 0 < clear) (h : digits * unit ≤ units * clear) :
    grid * (above * unit) ≤ units * below := by
  refine Nat.le_of_mul_le_mul_right ?_ clear_pos
  calc grid * (above * unit) * clear = grid * above * clear * unit := by ac_rfl
    _ = below * (digits * unit) := by rw [← powers, Nat.mul_assoc]
    _ ≤ below * (units * clear) := Nat.mul_le_mul_left below h
    _ = units * below * clear := by ac_rfl

theorem lt_mul_of_cleared (below_pos : 0 < below) (clear_pos : 0 < clear)
    (h : units * clear < digits * unit) : units * below < grid * (above * unit) := by
  refine (Nat.mul_lt_mul_right clear_pos).1 ?_
  calc units * below * clear = below * (units * clear) := by ac_rfl
    _ < below * (digits * unit) := (Nat.mul_lt_mul_left below_pos).2 h
    _ = grid * above * clear * unit := by rw [← powers, Nat.mul_assoc]
    _ = grid * (above * unit) * clear := by ac_rfl

end

section
variable {d : Double} (nonzero : d.isZero = false)
include nonzero

theorem significand_pos : 0 < d.significand := by
  simp only [isZero, beq_eq_false_iff_ne] at nonzero
  simp only [significand, scale, scaleStep]
  omega

theorem units_pos : 0 < d.units :=
  Nat.mul_pos (significand_pos nonzero) (Nat.pow_pos (by decide))

/-- The double has its leading digit at the decimal exponent. -/
theorem decimalExponent_spec : ∃ digits : Nat, d.decimalExponent = (digits : Int) - 400 ∧
    Nat.pow 10 digits * Nat.pow 2 1074 ≤ d.units * Nat.pow 10 400 ∧
    d.units * Nat.pow 10 400 < Nat.pow 10 (digits + 1) * Nat.pow 2 1074 := by
  have least : Nat.pow 2 1074 ≤ Nat.pow 10 400 := by decide +kernel
  have reached : Nat.pow 2 1074 ≤ d.units * Nat.pow 10 400 :=
    Nat.le_trans least (Nat.le_mul_of_pos_left _ (units_pos nonzero))
  have floor_pos : 0 < d.units * Nat.pow 10 400 / Nat.pow 2 1074 := Nat.div_pos reached unit_pos
  have exponent_eq : d.decimalExponent =
      ((Nat.toDigits 10 (d.units * Nat.pow 10 400 / Nat.pow 2 1074)).length : Int) - 401 := rfl
  rw [exponent_eq]
  simp only [← Nat.le_div_iff_mul_le unit_pos, ← Nat.div_lt_iff_lt_mul unit_pos]
  generalize d.units * Nat.pow 10 400 / Nat.pow 2 1074 = n at floor_pos
  obtain ⟨digits, length_eq⟩ :=
    Nat.exists_eq_succ_of_ne_zero (Nat.ne_of_gt (Nat.length_toDigits_pos (b := 10) (n := n)))
  refine ⟨digits, by omega, ?_, ?_⟩
  · cases digits with
    | zero => exact floor_pos
    | succ digits =>
      have fewer := Nat.length_toDigits_le_iff (b := 10) (n := n) (k := digits + 1) (by decide)
        (by omega)
      exact Nat.not_lt.1 fun less => absurd (fewer.2 less) (by omega)
  · exact (Nat.length_toDigits_le_iff (by decide) (by omega)).1 (Nat.le_of_eq length_eq)

/-- The distance from zero, in steps of the grid `n` digits below the decimal exponent:
at least `10 ^ n` of them, and fewer than `10 ^ (n + 1)`. -/
theorem steps_bounds (n : Nat) :
    Nat.pow 10 n * (Nat.pow 10 (d.decimalExponent - n).toNat * Nat.pow 2 1074) ≤
      d.units * Nat.pow 10 (-(d.decimalExponent - n)).toNat ∧
    d.units * Nat.pow 10 (-(d.decimalExponent - n)).toNat <
      Nat.pow 10 (n + 1) * (Nat.pow 10 (d.decimalExponent - n).toNat * Nat.pow 2 1074) := by
  obtain ⟨digits, exponent_eq, low, high⟩ := decimalExponent_spec nonzero
  generalize below_eq : (-(d.decimalExponent - n)).toNat = below
  generalize above_eq : (d.decimalExponent - n).toNat = above
  have powers (m : Nat) : Nat.pow 10 below * Nat.pow 10 (digits + m) =
      Nat.pow 10 (n + m) * Nat.pow 10 above * Nat.pow 10 400 := by
    apply pow_mul_pow_eq
    omega
  have below_pos : 0 < Nat.pow 10 below := Nat.pow_pos (by decide)
  have clear_pos : 0 < Nat.pow 10 400 := by decide +kernel
  exact ⟨mul_le_of_cleared (powers 0) clear_pos low,
    lt_mul_of_cleared (powers 1) below_pos clear_pos high⟩

end

/-! ## The points in the interval -/

namespace Interval

variable {tie : Tie} {step : Nat} {i : Interval}

/-- What is taken is one of the two multiples, and lies in the interval. -/
theorem nearest?_eq_some {n : Nat} (h : i.nearest? tie step = some n) :
    i.contains (n * step) = true ∧ n ≤ i.value / step + 1 := by
  unfold nearest? at h
  generalize i.value / step = floor at h ⊢
  dsimp only at h
  split at h
  · cases h
  · rename_i below _
    cases h
    exact ⟨below, Nat.le_succ _⟩
  · rename_i above
    cases h
    exact ⟨above, Nat.le_refl _⟩
  · rename_i below above
    cases h
    split
    · exact ⟨below, Nat.le_succ _⟩
    · exact ⟨above, Nat.le_refl _⟩

/-- If one of the two multiples lies in the interval, there is one to take. -/
theorem exists_nearest? (tie : Tie) (h : i.contains (i.value / step * step) = true ∨
      i.contains ((i.value / step + 1) * step) = true) :
    ∃ n, i.nearest? tie step = some n := by
  unfold nearest?
  generalize i.value / step = floor at h ⊢
  dsimp only
  split
  · rename_i below above
    rw [below, above] at h
    exact absurd h (by decide)
  all_goals exact ⟨_, rfl⟩

theorem contains_of_lt {n : Nat} (low : i.lower < n) (high : n < i.upper) :
    i.contains n = true := by
  simp only [contains]
  split
  · exact decide_eq_true ⟨Nat.le_of_lt low, Nat.le_of_lt high⟩
  · exact decide_eq_true ⟨low, high⟩

theorem le_of_contains {n : Nat} (h : i.contains n = true) : i.lower ≤ n ∧ n ≤ i.upper := by
  simp only [contains] at h
  split at h
  · exact of_decide_eq_true h
  · obtain ⟨low, high⟩ := of_decide_eq_true h
    exact ⟨Nat.le_of_lt low, Nat.le_of_lt high⟩

/-- A step that is shorter than the interval cannot pass over it. -/
theorem exists_contains (low : i.lower < i.value) (high : i.value < i.upper) (positive : 0 < step)
    (short : step < i.upper - i.lower) : i.contains (i.value / step * step) = true ∨
      i.contains ((i.value / step + 1) * step) = true := by
  have below : i.value / step * step ≤ i.value := Nat.div_mul_le_self _ _
  have above : i.value < i.value / step * step + step := by
    have rest := Nat.mod_lt i.value positive
    have split := Nat.div_add_mod' i.value step
    omega
  rw [Nat.succ_mul]
  generalize i.value / step * step = n at below above ⊢
  by_cases reached : i.lower < n
  · exact .inl (contains_of_lt reached (by omega))
  · exact .inr (contains_of_lt (by omega) (by omega))

end Interval

/-- The number `coefficient * 10 ^ exponent` lies in the interval of a double. -/
def Owns (d : Double) (coefficient : Nat) (exponent : Int) : Prop :=
  (d.interval.times (Nat.pow 10 (-exponent).toNat)).contains
    (coefficient * (Nat.pow 10 exponent.toNat * Nat.pow 2 1076)) = true

theorem value_times (d : Double) (factor : Nat) :
    (d.interval.times factor).value = d.units * factor * 4 := by
  simp only [interval, Interval.times, units]
  ac_rfl

/-- The points of a grid are a multiple of four quarters apart. -/
theorem step_eq (n : Nat) : n * Nat.pow 2 1076 = n * Nat.pow 2 1074 * 4 := by
  have quarters : Nat.pow 2 1076 = Nat.pow 2 1074 * 4 := by decide +kernel
  rw [quarters, Nat.mul_assoc n (Nat.pow 2 1074) 4]

section
variable {d : Double} (nonzero : d.isZero = false)
include nonzero

theorem lower_pos {factor : Nat} (positive : 0 < factor) :
    0 < (d.interval.times factor).lower := by
  have sig_pos := significand_pos nonzero
  refine Nat.mul_pos (Nat.mul_pos ?_ (Nat.pow_pos (by decide))) positive
  split <;> omega

/-- An interval is wider than a step that its value has `10 ^ 16` of. -/
theorem step_lt_width {factor step : Nat} (positive : 0 < factor)
    (fine : Nat.pow 10 16 * step ≤ d.units * factor) :
    step * 4 < (d.interval.times factor).upper - (d.interval.times factor).lower ∧
      (d.interval.times factor).lower < (d.interval.times factor).value ∧
      (d.interval.times factor).value < (d.interval.times factor).upper := by
  have sig_pos := significand_pos nonzero
  have sig_lt := d.significand_lt
  have width_pos : 0 < Nat.pow 2 d.scale * factor :=
    Nat.mul_pos (Nat.pow_pos (by decide)) positive
  simp only [interval, Interval.times, units, Nat.mul_assoc] at fine ⊢
  generalize Nat.pow 2 d.scale * factor = width at fine width_pos ⊢
  have value_le : d.significand * width ≤ 2 * scaleStep * width :=
    Nat.mul_le_mul_right _ (Nat.le_of_lt sig_lt)
  have lower_eq (down : Nat) : (4 * d.significand - down) * width =
      4 * (d.significand * width) - down * width := by rw [Nat.sub_mul, Nat.mul_assoc]
  have upper_eq : (4 * d.significand + 2) * width =
      4 * (d.significand * width) + 2 * width := by rw [Nat.add_mul, Nat.mul_assoc]
  have value_ge : width ≤ d.significand * width := Nat.le_mul_of_pos_left _ sig_pos
  have digits : Nat.pow 10 16 = 10000000000000000 := by decide +kernel
  rw [digits] at fine
  rw [lower_eq, upper_eq]
  split
  · rename_i power
    rw [power.1] at fine value_ge ⊢
    simp only [scaleStep] at *
    omega
  · simp only [scaleStep] at *
    omega

/-- The grid of seventeen digits has a point to take. -/
theorem exists_onGrid? (tie : Tie) :
    ∃ s, d.onGrid? tie (d.decimalExponent - (16 : Nat)) = some s := by
  obtain ⟨fine, -⟩ := steps_bounds nonzero 16
  have step_pos : 0 < Nat.pow 10 (d.decimalExponent - (16 : Nat)).toNat * Nat.pow 2 1074 :=
    Nat.mul_pos (Nat.pow_pos (by decide)) unit_pos
  have factor_pos : 0 < Nat.pow 10 (-(d.decimalExponent - (16 : Nat))).toNat :=
    Nat.pow_pos (by decide)
  obtain ⟨wide, low, high⟩ := step_lt_width nonzero factor_pos fine
  unfold onGrid?
  rw [step_eq]
  obtain ⟨n, found⟩ := Interval.exists_nearest? tie
    (Interval.exists_contains low high (Nat.mul_pos step_pos (by decide)) wide)
  dsimp only
  rw [found]
  exact ⟨_, rfl⟩

/-- The digits of a double that is not zero: a point in its interval, which is not zero
and which has no more than seventeen digits if trailing zeros are left out. -/
theorem shortest_spec (tie : Tie) :
    ∃ coefficient exponent, d.shortest tie = ⟨coefficient, exponent⟩ ∧
      d.Owns coefficient exponent ∧ 0 < coefficient ∧ coefficient ≤ Nat.pow 10 17 := by
  obtain ⟨s, n, few, taken, shortest_eq⟩ : ∃ s, ∃ n : Nat, n < 17 ∧
      d.onGrid? tie (d.decimalExponent - n) = some s ∧ d.shortest tie = s := by
    cases found : (List.range 17).findSome? fun (n : Nat) =>
        d.onGrid? tie (d.decimalExponent - n) with
    | none =>
      obtain ⟨s, last⟩ := exists_onGrid? nonzero tie
      rw [List.findSome?_eq_none_iff.1 found 16 (by decide)] at last
      cases last
    | some s =>
      obtain ⟨n, member, taken⟩ := List.exists_of_findSome?_eq_some found
      refine ⟨s, n, List.mem_range.1 member, taken, ?_⟩
      simp only [shortest, found, Option.getD_some]
  obtain ⟨-, coarse⟩ := steps_bounds nonzero n
  have factor_pos : 0 < Nat.pow 10 (-(d.decimalExponent - n)).toNat := Nat.pow_pos (by decide)
  have step_pos : 0 < Nat.pow 10 (d.decimalExponent - n).toNat * Nat.pow 2 1074 :=
    Nat.mul_pos (Nat.pow_pos (by decide)) unit_pos
  obtain ⟨coefficient, nearest, rfl⟩ := Option.map_eq_some_iff.1 taken
  obtain ⟨inside, bound⟩ := Interval.nearest?_eq_some nearest
  refine ⟨coefficient, d.decimalExponent - n, shortest_eq, inside, ?_, ?_⟩
  · refine Nat.pos_of_ne_zero ?_
    rintro rfl
    rw [Nat.zero_mul] at inside
    exact absurd (Interval.le_of_contains inside).1 (Nat.not_le.2 (lower_pos nonzero factor_pos))
  · have floor_lt : (d.interval.times (Nat.pow 10 (-(d.decimalExponent - n)).toNat)).value /
        (Nat.pow 10 (d.decimalExponent - n).toNat * Nat.pow 2 1076) < Nat.pow 10 (n + 1) := by
      rw [step_eq, value_times, Nat.mul_div_mul_right _ _ (by decide : 0 < 4)]
      exact (Nat.div_lt_iff_lt_mul step_pos).2 coarse
    calc coefficient ≤ Nat.pow 10 (n + 1) := Nat.le_trans bound floor_lt
      _ ≤ Nat.pow 10 17 := Nat.pow_le_pow_right (by decide) few

end

/-! ## The greatest double -/

/-- The greatest finite double. -/
def largest : Nat := (2 * scaleStep - 1) * Nat.pow 2 971

/-- The interval of a lesser double ends below the greatest one. -/
theorem upper_le_largest {d : Double} (lesser : d.magnitude < infinityMagnitude - 1) :
    d.interval.upper ≤ largest * Nat.pow 2 1076 := by
  have magnitude_eq := d.magnitude_eq
  have sig_lt := d.significand_lt
  have scale_le : d.scale ≤ 2045 := by
    simp only [infinityMagnitude, scaleStep, scale] at lesser ⊢
    omega
  have pow_add {a b c e : Nat} (h : a + b = c + e) :
      Nat.pow 2 a * Nat.pow 2 b = Nat.pow 2 c * Nat.pow 2 e := by
    simp only [Nat.pow_eq, ← Nat.pow_add, h]
  have largest_eq : largest * Nat.pow 2 1076 =
      (2 * scaleStep - 1) * Nat.pow 2 (2047 - d.scale) * Nat.pow 2 d.scale := by
    have powers : Nat.pow 2 971 * Nat.pow 2 1076 =
        Nat.pow 2 (2047 - d.scale) * Nat.pow 2 d.scale := by
      apply pow_add
      omega
    rw [largest, Nat.mul_assoc, powers, Nat.mul_assoc]
  rw [largest_eq]
  refine Nat.mul_le_mul_right _ ?_
  -- at the highest scale there is room for one more significand, below it for a higher scale
  by_cases top : d.scale = 2045
  · rw [top] at magnitude_eq ⊢
    have room : Nat.pow 2 (2047 - 2045) = 4 := rfl
    rw [room]
    simp only [infinityMagnitude, scaleStep] at *
    omega
  · have room : Nat.pow 2 3 ≤ Nat.pow 2 (2047 - d.scale) :=
      Nat.pow_le_pow_right (by decide) (by omega)
    refine Nat.le_trans ?_ (Nat.mul_le_mul_left _ room)
    have eight : Nat.pow 2 3 = 8 := rfl
    simp only [scaleStep, eight] at *
    omega

theorem shortest_congr {tie : Tie} {d e : Double} (h : d.magnitude = e.magnitude) :
    d.shortest tie = e.shortest tie := by
  have scale_eq : d.scale = e.scale := by rw [scale, h, scale]
  have significand_eq : d.significand = e.significand := by
    rw [significand, h, scale_eq, significand]
  simp only [shortest, onGrid?, decimalExponent, interval, units, scale_eq, significand_eq]

/-- Not even for the greatest double are the digits above it, though the next ones on their
grid lie in its interval, too. -/
theorem shortest_largest {d : Double} (h : d.magnitude = infinityMagnitude - 1) :
    d.shortest .toEven = ⟨17976931348623157, 292⟩ := by
  have greatest : (ofMagnitude false (infinityMagnitude - 1)).magnitude = infinityMagnitude - 1 :=
    magnitude_ofMagnitude (by decide)
  rw [shortest_congr (h.trans greatest.symm)]
  have coefficient : ((ofMagnitude false (infinityMagnitude - 1)).shortest .toEven).coefficient =
      17976931348623157 := by decide +kernel
  have exponent :
      ((ofMagnitude false (infinityMagnitude - 1)).shortest .toEven).exponent = 292 := by
    decide +kernel
  generalize
    (ofMagnitude false (infinityMagnitude - 1)).shortest .toEven = s at coefficient exponent
  cases s
  cases coefficient
  cases exponent
  rfl

/-- The digits of a finite double stand for no more than the greatest one. -/
theorem shortest_le_largest {d : Double} (finite : d.isFinite = true) (nonzero : d.isZero = false)
    {coefficient : Nat} {exponent : Int} (h : d.shortest .toEven = ⟨coefficient, exponent⟩) :
    coefficient * Nat.pow 10 exponent.toNat ≤ largest * Nat.pow 10 (-exponent).toNat := by
  by_cases greatest : d.magnitude = infinityMagnitude - 1
  · rw [shortest_largest greatest] at h
    cases h
    decide +kernel
  · have lesser : d.magnitude < infinityMagnitude - 1 := by
      have below := of_decide_eq_true finite
      omega
    obtain ⟨c, e, shortest_eq, owned, -⟩ := shortest_spec nonzero .toEven
    obtain ⟨rfl, rfl⟩ := Scientific.mk.inj (shortest_eq.symm.trans h)
    have positive : 0 < Nat.pow 2 1076 := by decide +kernel
    have inside : c * (Nat.pow 10 e.toNat * Nat.pow 2 1076) ≤
        d.interval.upper * Nat.pow 10 (-e).toNat := (Interval.le_of_contains owned).2
    have upper_le := upper_le_largest lesser
    generalize Nat.pow 2 1076 = unit at positive inside upper_le
    refine Nat.le_of_mul_le_mul_right ?_ positive
    calc c * Nat.pow 10 e.toNat * unit = c * (Nat.pow 10 e.toNat * unit) := Nat.mul_assoc ..
      _ ≤ d.interval.upper * Nat.pow 10 (-e).toNat := inside
      _ ≤ largest * unit * Nat.pow 10 (-e).toNat := Nat.mul_le_mul_right _ upper_le
      _ = largest * Nat.pow 10 (-e).toNat * unit := Nat.mul_right_comm ..

end Walkthrough.Double
