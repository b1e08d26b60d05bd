import ControlBlocks.Decimal.Shortest
import ControlBlocks.Proofs.Binary64.Nearest
import ControlBlocks.Proofs.Binary64.TotalOrder

/-!
# Decimals are read as the nearest float

* `Decimal.value` — a decimal as a rational;
* `Decimal.ten_pow_le_value`, `value_lt_ten_pow` — its size, by its digits;
* `Decimal.ofScientific_of_inReach` — the conversion, exact powers of ten or not;
* `Decimal.toFloat_of_inReach` — a decimal is read as the magnitude that has it in reach.
-/

set_option autoImplicit false

namespace ControlBlocks.Decimal

open Binary64
open Float.Model (Format UnpackedFloat)
open Float.Model.UnpackedFloat (Sign)

/-- A decimal as a rational. -/
def value (d : Decimal) : ℚ := d.coefficient * 10 ^ d.exponent

section Size

variable {d : Decimal}

theorem lt_ten_pow_digitCount (n : ℕ) : n < 10 ^ digitCount n :=
  (Nat.length_toDigits_le_iff (by decide) Nat.length_toDigits_pos).1 le_rfl

theorem ten_pow_digitCount_le {n : ℕ} (hn : 0 < n) : 10 ^ (digitCount n - 1) ≤ n := by
  rcases (show 1 ≤ digitCount n from Nat.length_toDigits_pos).eq_or_lt with hone | hmore
  · rw [← hone]
    exact hn
  · by_contra hlt
    have := (Nat.length_toDigits_le_iff (b := 10) (by decide) (Nat.sub_pos_of_lt hmore)).2
      (not_le.1 hlt)
    unfold digitCount at hmore this
    omega

/-- The power of ten above a decimal. -/
def point (d : Decimal) : ℤ := digitCount d.coefficient + d.exponent

theorem value_lt_ten_pow (d : Decimal) : d.value < 10 ^ d.point := by
  have scale : (0 : ℚ) < 10 ^ d.exponent := zpow_pos (by norm_num) _
  rw [value, point, zpow_add₀ (by norm_num), zpow_natCast]
  exact mul_lt_mul_of_pos_right (by exact_mod_cast lt_ten_pow_digitCount _) scale

theorem ten_pow_le_value (hd : 0 < d.coefficient) : 10 ^ (d.point - 1) ≤ d.value := by
  have scale : (0 : ℚ) < 10 ^ d.exponent := zpow_pos (by norm_num) _
  have digits : 1 ≤ digitCount d.coefficient := Nat.length_toDigits_pos
  have exponent : d.point - 1 = (digitCount d.coefficient - 1 : ℕ) + d.exponent := by
    unfold point
    omega
  rw [value, exponent, zpow_add₀ (by norm_num), zpow_natCast]
  exact mul_le_mul_of_nonneg_right (by exact_mod_cast ten_pow_digitCount_le hd) scale.le

/-- Each decimal digit takes at least one bit. -/
theorem digitCount_le (n : ℕ) : digitCount n ≤ n.log2 + 1 := by
  refine (Nat.length_toDigits_le_iff (by decide) (Nat.succ_pos _)).2 ?_
  exact Nat.lt_log2_self.trans_le (Nat.pow_le_pow_left (by decide) _)

end Size

/-! ## Conversion -/

section Conversion

variable {m c n : ℕ} {e q : ℤ}

/-- The tabulated powers of ten are exact. -/
theorem value_powerOfTen (hn : n < Float.exactlyRepresentablePowersOfTen.size) :
    IsFinite (valueOf Float.exactlyRepresentablePowersOfTen[n]) ∧
      Binary64.value Float.exactlyRepresentablePowersOfTen[n] = 10 ^ n := by
  have table : ∀ i : Fin 23, isNegative Float.exactlyRepresentablePowersOfTen[i] = false ∧
      (decode Float.exactlyRepresentablePowersOfTen[i]).map
        (fun m => steps m.significand m.exponent) = some (steps (10 ^ (i : ℕ)) 0) := by
    decide +kernel
  obtain ⟨sign, magnitude⟩ : isNegative Float.exactlyRepresentablePowersOfTen[n] = false ∧
      (decode Float.exactlyRepresentablePowersOfTen[n]).map
        (fun m => steps m.significand m.exponent) = some (steps (10 ^ n) 0) := table ⟨n, hn⟩
  generalize Float.exactlyRepresentablePowersOfTen[n] = x at sign magnitude ⊢
  obtain ⟨m, decoded, same⟩ := Option.map_eq_some_iff.1 magnitude
  refine ⟨(value_of_decode decoded).1, ?_⟩
  have positive : 0 < 10 ^ n := Nat.pow_pos (by decide)
  have units : units (valueOf x) = units (.finite .positive (10 ^ n) 0 positive) := by
    rw [units_of_decode decoded, signOf, sign, same]
    rfl
  have power : toRat (.finite .positive (10 ^ n) 0 positive) = (10 ^ n : ℕ) * 2 ^ (0 : ℤ) :=
    toRat_finite (by decide)
  rw [toRat, ← units] at power
  rw [Binary64.value, toRat, power, zpow_zero, mul_one]
  push_cast
  rfl

/-- Where the coefficient and the power of ten are exact, there is one operation. -/
theorem ofScientific_of_short (hc : 0 < c) (hc' : c < 2 ^ 53) (hn : n ≤ 22) (negative : Bool)
    (hm : Canonical m e) (he : e ≤ 971)
    (h : InReach m e (c * 10 ^ (if negative then -(n : ℤ) else n))) :
    IsFinite (valueOf (Float.ofScientific c negative n)) ∧
      Binary64.value (Float.ofScientific c negative n) = m * 2 ^ e := by
  obtain ⟨finite, coefficient⟩ := value_toFloat hc'
  have tabulated : n < Float.exactlyRepresentablePowersOfTen.size := by
    show n < 23
    omega
  obtain ⟨finite', power⟩ := value_powerOfTen tabulated
  have positive : 0 < Binary64.value c.toUInt64.toFloat := by
    rw [coefficient]
    exact_mod_cast hc
  have positive' : (0 : ℚ) < 10 ^ n := by positivity
  rw [← power] at positive'
  unfold Float.ofScientific
  rw [dif_pos ⟨hc', hn⟩]
  cases negative with
  | false =>
    refine value_mul_of_inReach finite finite' positive positive' hm he ?_
    rw [coefficient, power]
    simpa using h
  | true =>
    refine value_div_of_inReach finite finite' positive positive' hm he ?_
    rw [coefficient, power]
    simpa [div_eq_mul_inv] using h

/-- Unless the exponent is far out of range, the model multiplies or divides by the power of ten. -/
theorem ofScientific_of_model (hc : 0 < c) (hq : q ≤ 2048) (hq' : -(2048 + (c.log2 : ℤ)) ≤ q)
    (hm : Canonical m e) (h : InReach m e (c * 10 ^ q)) :
    let f := UnpackedFloat.ofScientific Format.binary64 c q
    Rounded f ∧ IsNumber f ∧ toRat f = m * 2 ^ e := by
  intro f
  have result : f = UnpackedFloat.ofScientific Format.binary64 c q := rfl
  have range : (2 : ℤ) ^ Format.binary64.exponentBits = 2048 := by decide
  unfold UnpackedFloat.ofScientific at result
  rw [dif_neg hc.ne', range, if_neg (by omega), if_neg (by omega)] at result
  by_cases hsign : 0 ≤ q
  · rw [if_pos hsign] at result
    obtain ⟨n, rfl⟩ := Int.eq_ofNat_of_zero_le hsign
    have shifted : c <<< Format.binary64.mantissaBits = c * 2 ^ 53 := Nat.shiftLeft_eq c 53
    have large : 53 ≤ (c * 2 ^ 53 * 10 ^ n).log2 := by
      have positive : 0 < c * 2 ^ 53 * 10 ^ n := by positivity
      refine (Nat.le_log2 positive.ne').2 ?_
      rw [mul_right_comm]
      exact Nat.le_mul_of_pos_left _ (by positivity)
    have enough : (-53 : ℤ) + 0 ≤ target (c * 2 ^ 53 * 10 ^ n) (-53 + 0) := by
      unfold target
      omega
    rw [result]
    simp only [shifted]
    refine mul_of_inReach enough hm ?_
    have cancel : ((c * 2 ^ 53 : ℕ) : ℚ) * 2 ^ (-53 : ℤ) = c := by
      rw [Nat.cast_mul, Nat.cast_pow, mul_assoc, ← zpow_natCast, Nat.cast_ofNat,
        ← zpow_add₀ two_ne_zero]
      simp
    show InReach m e ((c * 2 ^ 53 : ℕ) * 2 ^ (-53 : ℤ) * ((10 ^ n : ℕ) * 2 ^ (0 : ℤ)))
    rw [cancel, zpow_zero, mul_one, Nat.cast_pow]
    exact h
  · rw [if_neg hsign] at result
    obtain ⟨n, hn⟩ : ∃ n : ℕ, -q = n := ⟨(-q).toNat, by omega⟩
    obtain rfl : q = -n := by omega
    rw [result]
    refine div_of_inReach hm ?_
    rw [neg_neg, Int.toNat_natCast, zpow_zero, mul_one, mul_one, Nat.cast_pow, div_eq_mul_inv,
      ← zpow_natCast, ← zpow_neg]
    exact h

theorem ofScientific_of_inReach (hc : 0 < c) (hq : q ≤ 2048) (hq' : -(2048 + (c.log2 : ℤ)) ≤ q)
    (hm : Canonical m e) (he : e ≤ 971) (h : InReach m e (c * 10 ^ q)) :
    IsFinite (valueOf (Float.ofScientific c (q < 0) q.natAbs)) ∧
      Binary64.value (Float.ofScientific c (q < 0) q.natAbs) = m * 2 ^ e := by
  by_cases hshort : c < 2 ^ 53 ∧ q.natAbs ≤ 22
  · refine ofScientific_of_short hc hshort.1 hshort.2 (q < 0) hm he ?_
    have signed : (if decide (q < 0) = true then -(q.natAbs : ℤ) else q.natAbs) = q := by
      simp only [decide_eq_true_eq]
      split <;> omega
    rw [signed]
    exact h
  · have signed : (if decide (q < 0) = true then Int.negOfNat q.natAbs else Int.ofNat q.natAbs) =
        q := by
      simp only [decide_eq_true_eq, Int.negOfNat_eq, Int.ofNat_eq_natCast]
      split <;> omega
    refine value_of_stored ?_ (ofScientific_of_model hc hq hq' hm h) hm he
    unfold Float.ofScientific
    rw [dif_neg hshort]
    simp only [signed]
    rfl

end Conversion

/-- **A decimal is read as the magnitude that has it in reach.** -/
theorem toFloat_of_inReach {d : Decimal} {m : ℕ} {e : ℤ} (hm : Canonical m e) (he : e ≤ 971)
    (pos : 0 < m) (h : InReach m e d.value) :
    IsFinite (valueOf d.toFloat) ∧ Binary64.value d.toFloat = m * 2 ^ e := by
  have positive : 0 < d.coefficient := by
    refine Nat.pos_of_ne_zero fun hzero => (h.pos pos).ne' ?_
    rw [value, hzero, Nat.cast_zero, zero_mul]
  have large : (2 : ℚ) ^ (1024 : ℤ) ≤ 10 ^ (310 : ℤ) := by
    have : 2 ^ 1024 ≤ 10 ^ 310 := by decide +kernel
    exact_mod_cast this
  have small : (10 : ℚ) ^ (-331 : ℤ) ≤ 2 ^ (-1075 : ℤ) := by
    have : 2 ^ 1075 ≤ 10 ^ 331 := by decide +kernel
    rw [zpow_neg, zpow_neg]
    exact inv_anti₀ (by positivity) (by exact_mod_cast this)
  have upper : d.point ≤ 310 := by
    by_contra hlarge
    have := calc (2 : ℚ) ^ (1024 : ℤ) ≤ 10 ^ (310 : ℤ) := large
      _ ≤ 10 ^ (d.point - 1) := zpow_le_zpow_right₀ (by norm_num) (by omega)
      _ ≤ d.value := ten_pow_le_value positive
    exact this.not_gt (h.lt hm he)
  have lower : -330 ≤ d.point := by
    by_contra hsmall
    have := calc d.value < 10 ^ d.point := value_lt_ten_pow d
      _ ≤ 10 ^ (-331 : ℤ) := zpow_le_zpow_right₀ (by norm_num) (by omega)
      _ ≤ 2 ^ (-1075 : ℤ) := small
    exact this.not_ge (h.ge hm pos)
  have digits : 1 ≤ digitCount d.coefficient := Nat.length_toDigits_pos
  have bits := digitCount_le d.coefficient
  have conversion : d.toFloat =
      Float.ofScientific d.coefficient (d.exponent < 0) d.exponent.natAbs := by
    unfold toFloat
    rw [if_neg positive.ne']
    exact (if_neg upper.not_gt).trans (if_neg lower.not_gt)
  unfold point at upper lower
  rw [conversion]
  exact ofScientific_of_inReach positive (by omega) (by omega) hm he h

end ControlBlocks.Decimal
