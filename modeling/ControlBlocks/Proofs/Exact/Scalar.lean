import Mathlib.Analysis.SpecialFunctions.Complex.Arg
import Mathlib.Analysis.SpecialFunctions.Pow.Real
import Mathlib.Analysis.SpecialFunctions.Trigonometric.Arctan
import ControlBlocks.Numeric.Scalar

/-!
# Exact arithmetic

What clamping and taking remainders do to a rational, and the reals as scalars.

* `Scalar.clamp_mem`, `clamp_eq_self_iff` — a clamped value lies between the limits, and is the
  value itself where that does;
* `Scalar.clamp_toward_iff` — what is clamped may be drawn up to the limit and not past it;
* `Scalar.clamp_eq_max_min` — clamping by the maximum and the minimum;
* `Scalar.clamp_neg` — the opposite value between the opposite limits;
* `Scalar.larger_eq_max`, `smaller_eq_min` — the larger of two values is their maximum, the smaller
  one their minimum;
* `Scalar.magnitude_eq_abs` — the magnitude is the absolute value;
* `Scalar.isFinite_exact` — every rational is finite;
* `Scalar.reached_or` — a bound that was reached is still reached by what is larger;
* `Scalar.sum_eq_sum_coe` — it makes no difference to add up from minus zero;
* `Scalar.floorMod_nonneg`, `floorMod_lt` — the remainder lies between zero and the divisor;
* `Scalar.exists_add_floorMod` — what is left is a whole multiple of the divisor;
* `Scalar.floorMod_add_mul` — whole multiples of the divisor do not change the remainder;
* `Scalar.floorMod_eq_self` — what lies between zero and the divisor is its own remainder;
* `Scalar.floorMod_mul_mul` — in other units, the remainder is the same;
* `Scalar ℝ` — the reals as scalars; `Scalar.clamp_real` — clamping them;
* `Elementary.real` — with the elementary functions of analysis, but for a logarithm of one's own.
-/

set_option autoImplicit false

namespace ControlBlocks

namespace Scalar

/-! ## Limits -/

variable {low high x : Rat}

/-- A clamped value lies between the limits. -/
theorem clamp_mem (hlimits : low ≤ high) (x : Rat) :
    low ≤ clamp low high x ∧ clamp low high x ≤ high := by
  unfold clamp
  split
  · exact ⟨le_refl low, hlimits⟩
  · rename_i hlow
    split
    · exact ⟨hlimits, le_refl high⟩
    · rename_i hhigh
      exact ⟨not_lt.1 hlow, not_lt.1 hhigh⟩

/-- What lies between the limits is left as it is, and nothing else. -/
theorem clamp_eq_self_iff (hlimits : low ≤ high) :
    clamp low high x = x ↔ low ≤ x ∧ x ≤ high := by
  constructor
  · intro h
    have := clamp_mem hlimits x
    rwa [h] at this
  · rintro ⟨hlow, hhigh⟩
    unfold clamp
    rw [if_neg (not_lt.2 hlow), if_neg (not_lt.2 hhigh)]

/-- Clamping in any linear order. -/
theorem ite_eq_max_min {K : Type} [LinearOrder K] {low high : K} (hlimits : low ≤ high) (x : K) :
    (if x < low then low else if high < x then high else x) = max low (min x high) := by
  split
  · rename_i hlow
    rw [min_eq_left (hlow.le.trans hlimits), max_eq_left hlow.le]
  · rename_i hlow
    have hlow := not_lt.1 hlow
    split
    · rename_i hhigh
      rw [min_eq_right hhigh.le, max_eq_right hlimits]
    · rename_i hhigh
      rw [min_eq_left (not_lt.1 hhigh), max_eq_right hlow]

theorem clamp_eq_max_min (hlimits : low ≤ high) (x : Rat) :
    clamp low high x = max low (min x high) :=
  ite_eq_max_min hlimits x

theorem clamp_neg (hlimits : low ≤ high) (x : Rat) :
    clamp (-high) (-low) (-x) = -clamp low high x := by
  unfold clamp
  simp only [neg_lt_neg_iff]
  by_cases hlow : x < low
  · have hhigh : ¬ high < x := not_lt.2 (hlow.le.trans hlimits)
    simp only [hlow, hhigh, if_true, if_false]
  · by_cases hhigh : high < x
    · simp only [hlow, hhigh, if_true, if_false]
    · simp only [hlow, hhigh, if_false]

/-- A clamped value is no farther from zero than the farther limit. -/
theorem abs_clamp_le (hlimits : low ≤ high) (x : Rat) :
    |clamp low high x| ≤ max |low| |high| := by
  obtain ⟨hlow, hhigh⟩ := clamp_mem hlimits x
  exact abs_le_max_abs_abs hlow hhigh

theorem clamp_eq_low_iff (hlimits : low < high) : clamp low high x = low ↔ x ≤ low := by
  unfold clamp
  split
  · rename_i hlow
    exact iff_of_true rfl hlow.le
  · rename_i hlow
    split
    · exact iff_of_false hlimits.ne' (by linarith)
    · exact ⟨fun h => h.le, fun h => le_antisymm h (not_lt.1 hlow)⟩

theorem clamp_eq_high_iff (hlimits : low < high) : clamp low high x = high ↔ high ≤ x := by
  unfold clamp
  split
  · exact iff_of_false hlimits.ne (by linarith)
  · split
    · rename_i hhigh
      exact iff_of_true rfl hhigh.le
    · rename_i hhigh
      exact ⟨fun h => h.ge, fun h => le_antisymm (not_lt.1 hhigh) h⟩

/-- A value that goes a part of the way to its clamped value is clamped to the same one; one that
goes past it is not. -/
theorem clamp_toward_iff (hlimits : low < high) (x left : Rat) :
    clamp low high (clamp low high x + (x - clamp low high x) * left) = clamp low high x ↔
      clamp low high x = x ∨ 0 ≤ left := by
  by_cases hlow : x < low
  · have atLow : clamp low high x = low := (clamp_eq_low_iff hlimits).2 hlow.le
    have short : x - low < 0 := sub_neg.2 hlow
    have below : low + (x - low) * left ≤ low ↔ 0 ≤ left := by
      rw [add_le_iff_nonpos_right, mul_nonpos_iff]
      simp [short.le, short.not_ge]
    rw [atLow, clamp_eq_low_iff hlimits, below, or_iff_right hlow.ne']
  · by_cases hhigh : high < x
    · have atHigh : clamp low high x = high := (clamp_eq_high_iff hlimits).2 hhigh.le
      have above : high ≤ high + (x - high) * left ↔ 0 ≤ left := by
        rw [le_add_iff_nonneg_right, mul_nonneg_iff_of_pos_left (sub_pos.2 hhigh)]
      rw [atHigh, clamp_eq_high_iff hlimits, above, or_iff_right hhigh.ne]
    · have inside : clamp low high x = x :=
        (clamp_eq_self_iff hlimits.le).2 ⟨not_lt.1 hlow, not_lt.1 hhigh⟩
      simp [inside]

theorem isFinite_exact (x : Rat) : isFinite x = true := by
  simp [isFinite]

/-- Where values grow, it makes no difference to remember that a bound was reached. -/
theorem reached_or {before now : Rat} (h : before ≤ now) (bound : Rat) :
    (decide (bound ≤ before) || decide (bound ≤ now)) = decide (bound ≤ now) := by
  by_cases hbefore : bound ≤ before
  · simp [hbefore, hbefore.trans h]
  · simp [hbefore]

theorem larger_eq_max (a b : Rat) : larger a b = max a b := by
  unfold larger
  split
  · rename_i h
    rw [max_eq_right h.le]
  · rename_i h
    rw [max_eq_left (not_lt.1 h)]
    simp

theorem smaller_eq_min (a b : Rat) : smaller a b = min a b := by
  unfold smaller
  split
  · rename_i h
    rw [min_eq_right h.le]
  · rename_i h
    rw [min_eq_left (not_lt.1 h)]
    simp

theorem magnitude_eq_abs (x : Rat) : magnitude x = |x| := by
  unfold magnitude
  split
  · rename_i h
    rw [abs_of_pos h]
  · rename_i h
    rw [abs_of_nonpos (not_lt.1 h), zero_sub]

theorem sum_eq_sum_coe (xs : List Rat) : sum xs = (xs : Multiset Rat).sum := by
  have zero : (-0 : Rat) = 0 := neg_zero
  rw [Multiset.sum_coe, List.sum_eq_foldl, ← zero]
  rfl

/-! ## Remainders -/

variable {a b : Rat}

/-- The whole multiple that is taken away. -/
theorem floorMod_eq (a b : Rat) : floorMod a b = a - b * ⌊a / b⌋ := rfl

theorem floorMod_nonneg (hb : 0 < b) (a : Rat) : 0 ≤ floorMod a b := by
  rw [floorMod_eq, sub_nonneg, mul_comm, ← le_div_iff₀ hb]
  exact Int.floor_le (a / b)

theorem floorMod_lt (hb : 0 < b) (a : Rat) : floorMod a b < b := by
  have above : a < (⌊a / b⌋ + 1) * b := (div_lt_iff₀ hb).1 (Int.lt_floor_add_one (a / b))
  rw [floorMod_eq, sub_lt_iff_lt_add, add_comm, ← mul_add_one, mul_comm]
  exact above

theorem exists_add_floorMod (a b : Rat) : ∃ m : ℤ, a = m * b + floorMod a b :=
  ⟨⌊a / b⌋, by rw [floorMod_eq, mul_comm, add_sub_cancel]⟩

theorem floorMod_add_mul (hb : b ≠ 0) (a : Rat) (m : ℤ) :
    floorMod (a + m * b) b = floorMod a b := by
  have shifted : (a + m * b) / b = a / b + m := by rw [add_div, mul_div_cancel_right₀ _ hb]
  rw [floorMod_eq, floorMod_eq, shifted, Int.floor_add_intCast]
  push_cast
  ring

theorem floorMod_eq_self (ha : 0 ≤ a) (hab : a < b) : floorMod a b = a := by
  have none : ⌊a / b⌋ = 0 :=
    Int.floor_eq_zero_iff.2 ⟨div_nonneg ha (ha.trans hab.le), (div_lt_one (ha.trans_lt hab)).2 hab⟩
  rw [floorMod_eq, none, Int.cast_zero, mul_zero, sub_zero]

theorem floorMod_mul_mul {c : Rat} (hc : c ≠ 0) (a b : Rat) :
    floorMod (c * a) (c * b) = c * floorMod a b := by
  rw [floorMod_eq, floorMod_eq, mul_div_mul_left _ _ hc, mul_sub, mul_assoc]

end Scalar

/-! ## Reals -/

/-- Exact arithmetic on the reals. -/
noncomputable instance : Scalar ℝ where
  intCast := fun n => (n : ℝ)
  decLT := fun _ _ => inferInstance
  decLE := fun _ _ => inferInstance
  floor := fun x => ⌊x⌋
  ceil := fun x => ⌈x⌉
  wholePart? := fun x => some (if x < 0 then ⌈x⌉ else ⌊x⌋)
  powerOfTen := fun n => 10 ^ n
  totalLE := fun a b => decide (a ≤ b)

/-- The elementary functions of the reals.  The logarithm is a parameter, for statements that need
to know little of it. -/
noncomputable abbrev Elementary.real (log : ℝ → ℝ) : Elementary ℝ where
  toScalar := inferInstance
  pi := Real.pi
  sqrt := Real.sqrt
  exp := Real.exp
  log := log
  log10 := fun x => log x / log 10
  pow := fun x y => x ^ y
  sin := Real.sin
  cos := Real.cos
  tan := Real.tan
  asin := Real.arcsin
  acos := Real.arccos
  atan := Real.arctan
  atan2 := fun y x => Complex.arg ⟨x, y⟩

namespace Scalar

variable {low high : ℝ}

theorem clamp_real (hlimits : low ≤ high) (x : ℝ) : clamp low high x = max low (min x high) :=
  ite_eq_max_min hlimits x

theorem isFinite_real (x : ℝ) : isFinite x = true := by
  simp [isFinite]

end Scalar

end ControlBlocks
