import ControlBlocks.Memoryless.RealMath
import ControlBlocks.Proofs.Exact.Scalar
import Mathlib

/-!
# Rounding to decimal places

Rounding to the multiples of a power of ten, in exact arithmetic.

* `IsNearest` — the nearest of a set, and of two that are equally near the one farther from zero;
  `IsNearest.unique`, `IsNearest.le_of_le`, `IsNearest.neg` and `isNearest_self` — what follows from
  that alone;
* `halfAway` — the nearest integer; `halfAway_neg`, `isNearest_halfAway`;
* `Rounds` — what it is to round to the multiples of a number; `rounds_of_isNearest`;
* `nearestMultiple` — the nearest multiple, as it is computed; `isNearest_nearestMultiple`;
* `rounds_to_decimals` — a block rounds to a number of decimal places, over the rationals and over
  the reals.
-/

set_option autoImplicit false

namespace ControlBlocks

variable {K : Type} [Field K]

/-- The whole multiples of a number. -/
def multiples (step : K) : Set K := Set.range fun m : ℤ => m * step

theorem neg_mem_multiples {step z : K} (hz : z ∈ multiples step) : -z ∈ multiples step := by
  obtain ⟨m, rfl⟩ := hz
  exact ⟨-m, by simp⟩

variable [LinearOrder K]

/-! ## The nearest of a set -/

section Nearest

variable {s : Set K} {c u v y z : K}

/-- No member of the set is nearer to `u` than `y`, and the others that are as near are nearer to
zero. -/
structure IsNearest (s : Set K) (u y : K) : Prop where
  mem : y ∈ s
  le : ∀ z ∈ s, |u - y| ≤ |u - z|
  tie : ∀ z ∈ s, z ≠ y → |u - z| = |u - y| → |z| < |y|

theorem IsNearest.unique (hy : IsNearest s u y) (hz : IsNearest s u z) : y = z := by
  have same : |u - z| = |u - y| := le_antisymm (hz.le y hy.mem) (hy.le z hz.mem)
  by_contra hne
  exact (hy.tie z hz.mem (Ne.symm hne) same).asymm (hz.tie y hy.mem hne same.symm)

/-- In a set that is the same on both sides of zero, the nearest to the opposite is the opposite of
the nearest. -/
theorem IsNearest.neg (hs : ∀ z ∈ s, -z ∈ s) (h : IsNearest s u y) : IsNearest s (-u) (-y) where
  mem := hs y h.mem
  le z hz := by
    have := h.le (-z) (hs z hz)
    rwa [sub_neg_eq_add, ← abs_neg (u - y), ← abs_neg (u + z), neg_sub', neg_add'] at this
  tie z hz hne htie := by
    have := h.tie (-z) (hs z hz) fun hzy => hne (by rw [← hzy, neg_neg])
    rw [abs_neg] at this ⊢
    refine this ?_
    rwa [sub_neg_eq_add, ← abs_neg (u + z), ← abs_neg (u - y), neg_add', neg_sub']

variable [IsStrictOrderedRing K]

/-- A member is the nearest one to itself. -/
theorem isNearest_self (hy : y ∈ s) : IsNearest s y y where
  mem := hy
  le z _ := by
    rw [sub_self, abs_zero]
    exact abs_nonneg _
  tie z _ hne h := by
    rw [sub_self, abs_zero, abs_eq_zero, sub_eq_zero] at h
    exact absurd h.symm hne

theorem IsNearest.mul (hc : 0 < c) (h : IsNearest s u y) :
    IsNearest ((· * c) '' s) (u * c) (y * c) where
  mem := ⟨y, h.mem, rfl⟩
  le := by
    rintro _ ⟨z, hz, rfl⟩
    rw [← sub_mul, ← sub_mul, abs_mul, abs_mul]
    exact mul_le_mul_of_nonneg_right (h.le z hz) (abs_nonneg c)
  tie := by
    rintro _ ⟨z, hz, rfl⟩ hne htie
    rw [← sub_mul, ← sub_mul, abs_mul, abs_mul, mul_left_inj' (abs_pos.2 hc.ne').ne'] at htie
    rw [abs_mul, abs_mul]
    have nearer := h.tie z hz (fun hzy => hne (congrArg (· * c) hzy)) htie
    exact mul_lt_mul_of_pos_right nearer (abs_pos.2 hc.ne')

/-- What is not nearer to the larger of two numbers is not above their middle. -/
theorem add_le_of_nearer (hzy : z < y) (h : |u - y| ≤ |u - z|) : z + y ≤ u + u := by
  by_contra hbelow
  have hbelow := not_le.1 hbelow
  have near : |u - z| < y - u := abs_lt.2 ⟨by linarith, by linarith⟩
  have far : y - u ≤ |u - y| := by
    rw [abs_sub_comm]
    exact le_abs_self _
  linarith

/-- The nearest to a larger number is no smaller. -/
theorem IsNearest.le_of_le (huv : u ≤ v) (hy : IsNearest s u y) (hz : IsNearest s v z) : y ≤ z := by
  by_contra hlt
  have hzy := not_le.1 hlt
  have low : z + y ≤ u + u := add_le_of_nearer hzy (hy.le z hz.mem)
  have high : -y + -z ≤ -v + -v := by
    refine add_le_of_nearer (neg_lt_neg hzy) ?_
    rw [neg_sub_neg, neg_sub_neg, abs_sub_comm z, abs_sub_comm y]
    exact hz.le y hy.mem
  obtain rfl : u = v := le_antisymm huv (by linarith)
  exact hzy.ne (hz.unique hy)

end Nearest

/-! ## The nearest multiple -/

section Multiples

variable [FloorRing K] {x : K} {step : K}

/-- The nearest integer; a half goes away from zero. -/
def halfAway (x : K) : ℤ := if 0 < x then ⌊x + 1 / 2⌋ else ⌈x - 1 / 2⌉

/-- The nearest multiple of a number, or of two the one farther from zero. -/
def nearestMultiple (step u : K) : K := halfAway (u / step) * step

/-- To round to the multiples of a number is to give the nearest one; so the error is at most a half
of that number, what is opposite is rounded to what is opposite, what is larger is not rounded to
what is smaller, and what is rounded stays as it is. -/
structure Rounds (step : K) (r : K → K) : Prop where
  eq_iff : ∀ u y, r u = y ↔ IsNearest (multiples step) u y
  error : ∀ u, |u - r u| ≤ step / 2
  odd : ∀ u, r (-u) = -r u
  mono : Monotone r
  idem : ∀ u, r (r u) = r u

variable [IsStrictOrderedRing K]

theorem halfAway_of_nonneg (hx : 0 ≤ x) : halfAway x = round x := by
  rw [round_eq]
  rcases hx.eq_or_lt with rfl | hpos
  · norm_num [halfAway]
  · exact if_pos hpos

theorem halfAway_neg (x : K) : halfAway (-x) = -halfAway x := by
  rcases lt_trichotomy x 0 with hneg | rfl | hpos
  · rw [halfAway, halfAway, if_pos (neg_pos.2 hneg), if_neg hneg.asymm, ← Int.floor_neg, neg_sub',
      sub_neg_eq_add]
  · norm_num [halfAway]
  · rw [halfAway, halfAway, if_neg (neg_neg_iff_pos.2 hpos).asymm, if_pos hpos, ← Int.ceil_neg,
      neg_add']

theorem isNearest_halfAway_of_nonneg (hx : 0 ≤ x) :
    IsNearest (Set.range ((↑) : ℤ → K)) x (halfAway x) where
  mem := ⟨_, rfl⟩
  le := by
    rintro _ ⟨m, rfl⟩
    rw [halfAway_of_nonneg hx]
    exact round_le x m
  tie := by
    rintro _ ⟨m, rfl⟩ hne htie
    generalize hk : halfAway x = k at hne htie ⊢
    rw [halfAway_of_nonneg hx, round_eq, Int.floor_eq_iff] at hk
    obtain ⟨hlow, hhigh⟩ := hk
    rcases abs_eq_abs.1 htie with hsame | hopposite
    · exact absurd (sub_right_injective hsame) hne
    -- two integers that are equally near lie around a half, which the larger one goes with
    · have below : m < k := by
        have : (m : K) < k + 1 := by linarith
        have : m ≤ k := Int.lt_add_one_iff.1 (by exact_mod_cast this)
        exact lt_of_le_of_ne this fun h => hne (congrArg _ h)
      have next : k ≤ m + 1 := by
        have : (k : K) ≤ m + 1 := by linarith
        exact_mod_cast this
      have sum : (0 : K) ≤ m + k := by linarith
      have sum : 0 ≤ m + k := by exact_mod_cast sum
      have closer : |m| < |k| := by
        rw [abs_of_nonneg (by omega), abs_of_nonneg (by omega)]
        exact below
      exact_mod_cast closer

theorem isNearest_halfAway (x : K) : IsNearest (Set.range ((↑) : ℤ → K)) x (halfAway x) := by
  rcases le_total 0 x with hx | hx
  · exact isNearest_halfAway_of_nonneg hx
  · have opposite : IsNearest (Set.range ((↑) : ℤ → K)) (-x) (halfAway (-x)) :=
      isNearest_halfAway_of_nonneg (neg_nonneg.2 hx)
    have symmetric : ∀ z ∈ Set.range ((↑) : ℤ → K), -z ∈ Set.range ((↑) : ℤ → K) := by
      rintro _ ⟨m, rfl⟩
      exact ⟨-m, Int.cast_neg m⟩
    have := opposite.neg symmetric
    rwa [halfAway_neg, Int.cast_neg, neg_neg, neg_neg] at this

/-- All the laws of rounding follow from giving the nearest multiple. -/
theorem rounds_of_isNearest {r : K → K} (hstep : 0 < step)
    (h : ∀ u, IsNearest (multiples step) u (r u)) : Rounds step r where
  eq_iff u y := by
    constructor
    · rintro rfl
      exact h u
    · exact (h u).unique
  error u := by
    have whole : |u - r u| ≤ |u - round (u / step) * step| := (h u).le _ ⟨round (u / step), rfl⟩
    have half := mul_le_mul_of_nonneg_right (abs_sub_round (u / step)) hstep.le
    rw [← abs_of_pos hstep, ← abs_mul, abs_of_pos hstep, sub_mul, div_mul_cancel₀ u hstep.ne',
      one_div_mul_eq_div] at half
    exact whole.trans half
  odd u := (h (-u)).unique ((h u).neg fun _ => neg_mem_multiples)
  mono u v huv := (h u).le_of_le huv (h v)
  idem u := (h (r u)).unique (isNearest_self (h u).mem)

theorem isNearest_nearestMultiple (hstep : 0 < step) (u : K) :
    IsNearest (multiples step) u (nearestMultiple step u) := by
  have := (isNearest_halfAway (u / step)).mul hstep
  rwa [div_mul_cancel₀ u hstep.ne', ← Set.range_comp] at this

/-- The nearest multiple of `c⁻¹`, as it is computed. -/
theorem ite_div_eq_nearestMultiple {c : K} (hc : 0 < c) (u : K) :
    (if 0 < u then (⌊u * c + 0.5⌋ : K) / c else (⌈u * c - 0.5⌉ : K) / c) =
      nearestMultiple c⁻¹ u := by
  have half : (0.5 : K) = 1 / 2 := by norm_num
  rw [nearestMultiple, div_inv_eq_mul, ← div_eq_mul_inv, halfAway, half]
  simp only [mul_pos_iff_of_pos_right hc]
  split_ifs <;> rfl

end Multiples

/-! ## Decimal places -/

theorem Scalar.powerOfTen_exact (n : ℤ) : powerOfTen n = (10 : ℚ) ^ n := by
  show (if 0 ≤ n then (10 : ℚ) ^ n.toNat else 1 / 10 ^ n.natAbs) = 10 ^ n
  split_ifs with hn
  · rw [← zpow_natCast, Int.toNat_of_nonneg hn]
  · have opposite : n = -(n.natAbs : ℤ) := by omega
    rw [one_div, ← zpow_natCast, ← zpow_neg, ← opposite]

theorem Scalar.ceil_exact (x : ℚ) : ceil x = (⌈x⌉ : ℚ) := by
  have whole : x.ceil = ⌈x⌉ := by
    rw [Rat.ceil_eq_neg_floor_neg, ← neg_neg ⌈x⌉, ← Int.floor_neg]
    rfl
  rw [← whole]
  rfl

namespace RealMath

theorem roundTo_rational (n : ℤ) (u : ℚ) : roundTo n u = nearestMultiple (10 ^ (-n)) u := by
  rw [zpow_neg, ← ite_div_eq_nearestMultiple (zpow_pos (by norm_num) n),
    ← Scalar.powerOfTen_exact, ← Scalar.ceil_exact]
  rfl

theorem roundTo_real (n : ℤ) (u : ℝ) : roundTo n u = nearestMultiple (10 ^ (-n)) u := by
  rw [zpow_neg, ← ite_div_eq_nearestMultiple (zpow_pos (by norm_num) n)]
  rfl

/-- **Rounding to decimal places.**  For every number of places, also below zero, the block gives
the multiple of that power of ten that is nearest to its input, and of two that are equally near the
one farther from zero; over the rationals and over the reals. -/
theorem rounds_to_decimals (n : ℤ) :
    (∀ now (u : ℚ), (round n).step now () u = .ok (roundTo n u, ())) ∧
    Rounds (10 ^ (-n)) (roundTo n : ℚ → ℚ) ∧
    (∀ now (u : ℝ), (round n).step now () u = .ok (roundTo n u, ())) ∧
    Rounds (10 ^ (-n)) (roundTo n : ℝ → ℝ) := by
  refine ⟨fun _ _ => rfl, ?_, fun _ _ => rfl, ?_⟩
  · have hn : (0 : ℚ) < 10 ^ (-n) := zpow_pos (by norm_num) (-n)
    rw [funext (roundTo_rational n)]
    exact rounds_of_isNearest hn (isNearest_nearestMultiple hn)
  · have hn : (0 : ℝ) < 10 ^ (-n) := zpow_pos (by norm_num) (-n)
    rw [funext (roundTo_real n)]
    exact rounds_of_isNearest hn (isNearest_nearestMultiple hn)

example : roundTo 1 (-1.25 : ℚ) = -1.3 ∧ roundTo (-1) (15 : ℚ) = 20 := by decide +kernel

end RealMath

end ControlBlocks
