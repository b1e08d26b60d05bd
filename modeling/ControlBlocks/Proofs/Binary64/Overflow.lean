import ControlBlocks.Proofs.Binary64.Arithmetic

/-!
# Overflow

Which products of floats are finite, and which are numbers.

* `Binary64.roundedMantissa_of_odd` — an odd significand is rounded up just if the next bit is set;
* `Binary64.roundedMantissa_lt_iff` — which significands still have 53 bits after rounding;
* `Binary64.rounded_lt_iff` — which magnitudes are rounded to one of the format;
* `isFinite_mul_iff` — a product is finite just if it is below the middle between the largest
  magnitude of the format and the next power of two;
* `isNumber_mul_pos_iff`, `isFinite_mul_pos_iff` — products of finite floats with positive ones,
  infinity among them.
-/

set_option autoImplicit false

namespace ControlBlocks.Binary64

open Float.Model (Format UnpackedFloat)
open Float.Model.UnpackedFloat (Sign ExtendedMantissa Accuracy)

/-! ## The last significand of 53 bits -/

/-- An odd significand goes up also from the middle, to the even one. -/
theorem roundedMantissa_of_odd {em : ExtendedMantissa} (hodd : em.mantissa % 2 = 1) :
    em.roundedMantissa = em.mantissa + em.roundBit.toNat := by
  obtain ⟨q, round, sticky⟩ := em
  cases round with
  | false => cases sticky <;> rfl
  | true =>
    cases sticky with
    | false =>
      show q + q % 2 = q + 1
      rw [show q % 2 = 1 from hodd]
    | true => rfl

/-- The bit after a significand that was shifted was the last one before the last shift. -/
theorem roundBit_shiftRight (em : ExtendedMantissa) (k : ℕ) :
    (em >>> (k + 1)).roundBit.toNat = em.mantissa / 2 ^ k % 2 := by
  have bit : (em >>> (k + 1)).roundBit = ((em >>> k).mantissa % 2 != 0) := rfl
  rw [bit, mantissa_shiftRight]
  rcases Nat.mod_two_eq_zero_or_one (em.mantissa / 2 ^ k) with h | h
  · rw [h]
    rfl
  · rw [h]
    rfl

section Rounded

variable {m : ℕ} {e : ℤ}

/-- What is rounded keeps its 53 bits unless all of them are set and the next one as well. -/
theorem roundedMantissa_lt_iff {k : ℕ} (hm : m / 2 ^ k < 2 ^ 53) :
    (ExtendedMantissa.ofMantissaAndAccuracy m .exact >>> k).roundedMantissa < 2 ^ 53 ↔
      2 * m < (2 ^ 54 - 1) * 2 ^ k := by
  cases k with
  | zero =>
    have kept : (ExtendedMantissa.ofMantissaAndAccuracy m .exact >>> 0).roundedMantissa = m := rfl
    rw [kept]
    rw [pow_zero, Nat.div_one] at hm
    omega
  | succ k =>
    obtain ⟨em, hem⟩ : ∃ em, ExtendedMantissa.ofMantissaAndAccuracy m .exact >>> (k + 1) = em :=
      ⟨_, rfl⟩
    have quotient : em.mantissa = m / 2 ^ k / 2 := by
      rw [← hem, mantissa_shiftRight, mantissa_ofMantissaAndAccuracy, pow_succ,
        Nat.div_div_eq_div_mul]
    have bit : em.roundBit.toNat = m / 2 ^ k % 2 := by
      rw [← hem, roundBit_shiftRight, mantissa_ofMantissaAndAccuracy]
    have below : 2 * m < (2 ^ 54 - 1) * 2 ^ (k + 1) ↔ m / 2 ^ k < 2 ^ 54 - 1 := by
      rw [Nat.div_lt_iff_lt_mul (Nat.two_pow_pos k), pow_succ]
      omega
    rw [pow_succ, ← Nat.div_div_eq_div_mul] at hm
    rw [hem, below]
    by_cases hlast : em.mantissa = 2 ^ 53 - 1
    · rw [roundedMantissa_of_odd (by rw [hlast]; rfl)]
      omega
    · have := roundedMantissa_eq_or em
      omega

/-- The middle between the largest magnitude and the next power of two has one bit more. -/
theorem lt_middle_iff {k : ℕ} (he : e + k = 971) :
    (m : ℚ) * 2 ^ e < 2 ^ (1024 : ℤ) - 2 ^ (970 : ℤ) ↔ 2 * m < (2 ^ 54 - 1) * 2 ^ k := by
  have unit : (0 : ℚ) < 2 ^ e := zpow_pos two_pos e
  have edge : (2 : ℚ) ^ (1024 : ℤ) = 2 ^ (54 : ℤ) * 2 ^ (970 : ℤ) := by
    rw [← zpow_add₀ two_ne_zero]
    rfl
  have twice : 2 * (2 : ℚ) ^ (970 : ℤ) = 2 ^ k * 2 ^ e := by
    rw [← zpow_one_add₀ two_ne_zero, ← zpow_natCast, ← zpow_add₀ two_ne_zero]
    congr 1
    omega
  have cast : 2 * m < (2 ^ 54 - 1) * 2 ^ k ↔ (2 * m : ℚ) < (2 ^ 54 - 1) * 2 ^ k := by
    have : ((2 ^ 54 - 1 : ℕ) : ℚ) = 2 ^ 54 - 1 := by norm_num
    rw [← this]
    exact_mod_cast Iff.rfl
  have scaled : (2 * m : ℚ) < (2 ^ 54 - 1) * 2 ^ k ↔
      2 * (m * 2 ^ e) < (2 ^ 54 - 1) * (2 * (2 : ℚ) ^ (970 : ℤ)) := by
    rw [twice, ← mul_assoc, ← mul_assoc, mul_lt_mul_iff_left₀ unit]
  rw [cast, scaled, edge]
  generalize (m : ℚ) * 2 ^ e = a
  generalize (2 : ℚ) ^ (970 : ℤ) = b
  constructor
  · intro h
    linarith
  · intro h
    linarith

/-- The power of two before the next is not above that middle. -/
theorem le_middle : (2 : ℚ) ^ (1023 : ℤ) ≤ 2 ^ (1024 : ℤ) - 2 ^ (970 : ℤ) := by
  have half : (2 : ℚ) ^ (1024 : ℤ) = 2 ^ (1023 : ℤ) + 2 ^ (1023 : ℤ) := by
    rw [← two_mul, ← zpow_one_add₀ two_ne_zero]
    rfl
  have apart : (2 : ℚ) ^ (970 : ℤ) ≤ 2 ^ (1023 : ℤ) := zpow_le_zpow_right₀ one_le_two (by decide)
  rw [half, le_sub_iff_add_le]
  exact add_le_add_right apart _

/-- A magnitude lies between the two multiples of a larger unit around it. -/
theorem quotient_mem {k : ℕ} {t : ℤ} (ht : e + k = t) :
    ((m / 2 ^ k : ℕ) : ℚ) * 2 ^ t ≤ m * 2 ^ e ∧
      (m : ℚ) * 2 ^ e < ((m / 2 ^ k + 1 : ℕ) : ℚ) * 2 ^ t := by
  have unit : (0 : ℚ) < 2 ^ e := zpow_pos two_pos e
  have shifted : (2 : ℚ) ^ t = 2 ^ k * 2 ^ e := by
    rw [← ht, zpow_add₀ two_ne_zero, zpow_natCast, mul_comm]
  have below : m / 2 ^ k * 2 ^ k ≤ m := Nat.div_mul_le_self m (2 ^ k)
  have above : m < (m / 2 ^ k + 1) * 2 ^ k :=
    Nat.lt_mul_of_div_lt (Nat.lt_succ_self _) (Nat.two_pow_pos k)
  rw [shifted, ← mul_assoc, ← mul_assoc]
  exact ⟨mul_le_mul_of_nonneg_right (by exact_mod_cast below) unit.le,
    mul_lt_mul_of_pos_right (by exact_mod_cast above) unit⟩

/-- A magnitude is rounded to one of the format just if it is below that middle. -/
theorem rounded_lt_iff (hm : m ≠ 0) (ht : e ≤ target m e) :
    ((ExtendedMantissa.ofMantissaAndAccuracy m .exact >>>
        (target m e - e).toNat).roundedMantissa : ℚ) * 2 ^ target m e < 2 ^ (1024 : ℤ) ↔
      (m : ℚ) * 2 ^ e < 2 ^ (1024 : ℤ) - 2 ^ (970 : ℤ) := by
  obtain ⟨short, full⟩ := quotient_bits (fun h => absurd h hm) ht
  have hr := roundedMantissa_eq_or
    (ExtendedMantissa.ofMantissaAndAccuracy m .exact >>> (target m e - e).toNat)
  have last := roundedMantissa_lt_iff short
  rw [mantissa_shiftRight, mantissa_ofMantissaAndAccuracy] at hr
  obtain ⟨k, hk⟩ : ∃ k, (target m e - e).toNat = k := ⟨_, rfl⟩
  obtain ⟨t, htarget⟩ : ∃ t, target m e = t := ⟨_, rfl⟩
  have here : e + k = t := by omega
  rw [hk] at short full hr last ⊢
  rw [htarget] at full ⊢
  generalize (ExtendedMantissa.ofMantissaAndAccuracy m .exact >>> k).roundedMantissa = r at *
  obtain ⟨floor, ceil⟩ := quotient_mem (m := m) here
  rcases lt_trichotomy t 971 with hsmall | rfl | hlarge
  · -- both are far below
    have rounded := mul_two_pow_le (show r ≤ 2 ^ 53 by omega) (show (53 : ℕ) + t ≤ 1023 by omega)
    have above := mul_two_pow_le (show m / 2 ^ k + 1 ≤ 2 ^ 53 by omega)
      (show (53 : ℕ) + t ≤ 1023 by omega)
    exact iff_of_true (rounded.trans_lt (zpow_lt_zpow_right₀ one_lt_two (by decide)))
      ((ceil.trans_le above).trans_le le_middle)
  · -- the place of the largest magnitude
    rw [lt_middle_iff here, ← last]
    constructor
    · intro hlt
      by_contra hall
      exact hlt.not_ge (le_mul_two_pow (not_lt.1 hall) (by decide))
    · exact fun hlt => mul_two_pow_lt hlt (by decide)
  · -- both are beyond
    have large := full (by omega)
    have rounded := le_mul_two_pow (show 2 ^ 52 ≤ r by omega) (show 1024 ≤ (52 : ℕ) + t by omega)
    have below := le_mul_two_pow large (show 1024 ≤ (52 : ℕ) + t by omega)
    have beneath := sub_lt_self ((2 : ℚ) ^ (1024 : ℤ)) (zpow_pos two_pos (970 : ℤ))
    exact iff_of_false rounded.not_gt (beneath.le.trans (below.trans floor)).not_gt

end Rounded

/-! ## Products -/

theorem isFinite_stored_mul_iff {f g : UnpackedFloat} (hf : Rounded f) (hg : Rounded g)
    (hf' : IsFinite f) (hg' : IsFinite g) :
    IsFinite (stored (UnpackedFloat.mul Format.binary64 f g)) ↔
      |toRat f * toRat g| < 2 ^ (1024 : ℤ) - 2 ^ (970 : ℤ) := by
  have edge : (0 : ℚ) < 2 ^ (1024 : ℤ) := zpow_pos two_pos _
  have middle : (0 : ℚ) < 2 ^ (1024 : ℤ) - 2 ^ (970 : ℤ) := (zpow_pos two_pos _).trans_le le_middle
  obtain ⟨rounded, number, -⟩ := mul_spec hf hg hf' hg'
  rw [isFinite_stored_iff rounded number]
  cases f with
  | notANumber => exact hf'.elim
  | infinity s => exact hf'.elim
  | zero s =>
    rw [toRat_zero, zero_mul, abs_zero]
    cases g with
    | notANumber => exact hg'.elim
    | infinity s' => exact hg'.elim
    | zero s' | finite s' m' e' pos' =>
      refine iff_of_true ?_ middle
      exact (abs_eq_zero.2 (toRat_zero _)).trans_lt edge
  | finite s m e pos =>
    cases g with
    | notANumber => exact hg'.elim
    | infinity s' => exact hg'.elim
    | zero s' =>
      rw [toRat_zero, mul_zero, abs_zero]
      refine iff_of_true ?_ middle
      exact (abs_eq_zero.2 (toRat_zero _)).trans_lt edge
    | finite s' m' e' pos' =>
      have nonzero : m * m' ≠ 0 := (Nat.mul_pos pos pos').ne'
      have enough := le_target_mul hf hg pos pos'
      obtain ⟨-, -, value⟩ := roundWithAccuracy_value (s * s') .exact
        (fun h => absurd h nonzero) enough
      have here : toRat (UnpackedFloat.mul Format.binary64 (.finite s m e pos)
          (.finite s' m' e' pos')) = _ := value
      rw [here, toRat_finite hf.low, toRat_finite hg.low, signed_mul_two_pow,
        abs_signed_mul_two_pow, abs_signed_mul_two_pow]
      exact rounded_lt_iff nonzero enough

theorem isFinite_mul_iff {x y : Float} (hx : IsFinite (valueOf x)) (hy : IsFinite (valueOf y)) :
    IsFinite (valueOf (x * y)) ↔ |value x * value y| < 2 ^ 1024 - 2 ^ 970 := by
  have power (n : ℕ) : (2 : ℚ) ^ (n : ℤ) = 2 ^ n := zpow_natCast 2 n
  rw [← power, ← power]
  exact isFinite_stored_mul_iff (inFormat_valueOf x).rounded (inFormat_valueOf y).rounded hx hy

/-! ## Products with a positive factor -/

section Positive

variable {x y : Float}

/-- A finite float times an infinity: zero gives no number, and any other an infinity. -/
theorem mul_infinity (hx : IsFinite (valueOf x)) {s : Sign} (hy : valueOf y = .infinity s) :
    valueOf (x * y) = .notANumber ∧ value x = 0 ∨
      (∃ s', valueOf (x * y) = .infinity s') ∧ value x ≠ 0 := by
  rw [valueOf_mul, hy, value, ne_eq, toRat_eq_zero_iff]
  cases hf : valueOf x with
  | notANumber => exact (hf ▸ hx).elim
  | infinity s' => exact (hf ▸ hx).elim
  | zero s' => exact .inl ⟨stored_eq_settled trivial, rfl⟩
  | finite s' m e pos =>
    refine .inr ⟨⟨s' * s, stored_eq_settled trivial⟩, ?_⟩
    cases s' with
    | negative => exact (units_finite_neg pos).ne
    | positive => exact (units_finite_pos pos).ne'

/-- What is positive and not finite is infinite. -/
theorem exists_eq_infinity_of_pos (hy : (0.0 : Float) < y) (h : ¬ IsFinite (valueOf y)) :
    ∃ s, valueOf y = .infinity s :=
  ((lt_iff _ _).1 hy).2.1.exists_eq_infinity h

theorem isNumber_mul_pos_iff (hx : IsFinite (valueOf x)) (hy : (0.0 : Float) < y) :
    IsNumber (valueOf (x * y)) ↔ IsFinite (valueOf y) ∨ value x ≠ 0 := by
  by_cases hfinite : IsFinite (valueOf y)
  · obtain ⟨-, number, -⟩ := mul_spec (inFormat_valueOf x).rounded (inFormat_valueOf y).rounded
      hx hfinite
    rw [valueOf_mul, isNumber_stored_iff]
    exact iff_of_true number (.inl hfinite)
  · obtain ⟨s, infinite⟩ := exists_eq_infinity_of_pos hy hfinite
    rw [or_iff_right hfinite]
    rcases mul_infinity hx infinite with ⟨none, zero⟩ | ⟨⟨s', product⟩, nonzero⟩
    · exact iff_of_false (not_not_intro none) (not_not_intro zero)
    · rw [product]
      exact iff_of_true UnpackedFloat.noConfusion nonzero

theorem isFinite_mul_pos_iff (hx : IsFinite (valueOf x)) (hy : (0.0 : Float) < y) :
    IsFinite (valueOf (x * y)) ↔
      IsFinite (valueOf y) ∧ |value x * value y| < 2 ^ 1024 - 2 ^ 970 := by
  by_cases hfinite : IsFinite (valueOf y)
  · rw [and_iff_right hfinite, isFinite_mul_iff hx hfinite]
  · obtain ⟨s, infinite⟩ := exists_eq_infinity_of_pos hy hfinite
    refine iff_of_false ?_ fun h => hfinite h.1
    rcases mul_infinity hx infinite with ⟨product, -⟩ | ⟨⟨s', product⟩, -⟩
    · rw [product]
      exact id
    · rw [product]
      exact id

end Positive

end ControlBlocks.Binary64
