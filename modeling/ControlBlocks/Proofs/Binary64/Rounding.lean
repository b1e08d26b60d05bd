import ControlBlocks.Proofs.Binary64.Order
import Mathlib

/-!
# Rounding in binary floating point

Results of arithmetic are rounded without crossing any value of the format.

* `Binary64.toRat` — a finite value as a rational;
* `Binary64.Describes` — a significand with the two bits that say what was lost of a number;
* `Binary64.RoundsTo` — one number comes from another, and no value of the format is crossed;
* `Binary64.stepsTo_of_floor` — a number rounded in its last place, in the two ways it may be;
* `Binary64.roundWithAccuracy_spec`, `normalize_spec` — rounding, and with a sign;
* `Binary64.add_spec`, `sub_spec`, `mul_spec`, `div_spec` — the operations.
-/

set_option autoImplicit false

namespace ControlBlocks.Binary64

open Float.Model (Format UnpackedFloat totalExponent)
open Float.Model.UnpackedFloat (Sign ExtendedMantissa Accuracy)

/-! ## Values as rationals -/

/-- A number with a sign. -/
def signed (s : Sign) (a : ℚ) : ℚ :=
  match s with
  | .negative => -a
  | .positive => a

theorem signed_zero (s : Sign) : signed s 0 = 0 := by
  cases s with
  | negative => exact neg_zero
  | positive => rfl

theorem signed_mul_right (s : Sign) (a b : ℚ) : signed s a * b = signed s (a * b) := by
  cases s with
  | negative => exact neg_mul a b
  | positive => rfl

theorem signed_mul (s s' : Sign) (a b : ℚ) :
    signed s a * signed s' b = signed (s * s') (a * b) := by
  cases s with
  | negative =>
    cases s' with
    | negative => exact neg_mul_neg a b
    | positive => exact neg_mul a b
  | positive =>
    cases s' with
    | negative => exact mul_neg a b
    | positive => rfl

theorem signed_div (s s' : Sign) (a b : ℚ) :
    signed s a / signed s' b = signed (s / s') (a / b) := by
  cases s with
  | negative =>
    cases s' with
    | negative => exact neg_div_neg_eq a b
    | positive => exact neg_div b a
  | positive =>
    cases s' with
    | negative => exact div_neg a
    | positive => rfl

theorem cast_apply (s : Sign) (n : ℤ) : ((s.apply n : ℤ) : ℚ) = signed s n := by
  cases s with
  | negative => exact Int.cast_neg n
  | positive => rfl

/-- One, in units of the smallest positive value. -/
def unitsOfOne : ℚ := 2 ^ (1074 : ℤ)

theorem unitsOfOne_pos : 0 < unitsOfOne := zpow_pos two_pos _

/-- A finite value as a rational. -/
def toRat (f : UnpackedFloat) : ℚ := units f / unitsOfOne

theorem toRat_le_iff {f g : UnpackedFloat} : toRat f ≤ toRat g ↔ units f ≤ units g := by
  rw [toRat, toRat, div_le_div_iff_of_pos_right unitsOfOne_pos, Int.cast_le]

theorem toRat_nonneg_iff {f : UnpackedFloat} : 0 ≤ toRat f ↔ 0 ≤ units f := by
  rw [toRat, le_div_iff₀ unitsOfOne_pos, zero_mul, Int.cast_nonneg_iff]

theorem toRat_nonpos_iff {f : UnpackedFloat} : toRat f ≤ 0 ↔ units f ≤ 0 := by
  rw [toRat, div_le_iff₀ unitsOfOne_pos, zero_mul, Int.cast_nonpos]

theorem toRat_eq_zero_iff {f : UnpackedFloat} : toRat f = 0 ↔ units f = 0 := by
  rw [toRat, div_eq_zero_iff, or_iff_left unitsOfOne_pos.ne', Int.cast_eq_zero]

theorem toRat_zero (s : Sign) : toRat (.zero s) = 0 := by
  rw [toRat, show units (.zero s) = 0 from rfl, Int.cast_zero, zero_div]

theorem toRat_finite {s : Sign} {m : ℕ} {e : ℤ} {pos : 0 < m} (he : -1074 ≤ e) :
    toRat (.finite s m e pos) = signed s (m * 2 ^ e) := by
  have exponent : ((e + 1074).toNat : ℤ) = e + 1074 := Int.toNat_of_nonneg (by omega)
  have magnitude : ((steps m e : ℕ) : ℚ) = m * 2 ^ e * unitsOfOne := by
    rw [steps, unitsOfOne, mul_assoc, ← zpow_add₀ two_ne_zero, ← exponent, zpow_natCast]
    push_cast
    rfl
  rw [toRat, units, cast_apply, Int.cast_natCast, magnitude, div_eq_mul_inv, signed_mul_right,
    mul_inv_cancel_right₀ unitsOfOne_pos.ne']

/-! ## Significands that lost bits -/

section Described

variable {em : ExtendedMantissa} {x : ℚ} {m : ℕ} {accuracy : Accuracy}

theorem roundedMantissa_eq_or (em : ExtendedMantissa) :
    em.roundedMantissa = em.mantissa ∨ em.roundedMantissa = em.mantissa + 1 := by
  unfold ExtendedMantissa.roundedMantissa
  cases em.accuracy with
  | exact => exact .inl rfl
  | inexact half =>
    cases half with
    | lt => exact .inl rfl
    | eq =>
      show em.mantissa + em.mantissa % 2 = _ ∨ em.mantissa + em.mantissa % 2 = _
      omega
    | gt => exact .inr rfl

/-- The significand is the integer part of a number, and of an integer nothing is left. -/
structure Describes (em : ExtendedMantissa) (x : ℚ) : Prop where
  le : em.mantissa ≤ x
  lt : x < em.mantissa + 1
  bits : x = em.mantissa → em.roundBit = false ∧ em.stickyBit = false

/-- The number that a significand and its accuracy stand for; of an inexact one only the integer
part is known. -/
def HasAccuracy (m : ℕ) (accuracy : Accuracy) (x : ℚ) : Prop :=
  match accuracy with
  | .exact => x = m
  | .inexact _ => m < x ∧ x < m + 1

theorem HasAccuracy.describes (h : HasAccuracy m accuracy x) :
    Describes (ExtendedMantissa.ofMantissaAndAccuracy m accuracy) x := by
  cases accuracy with
  | exact =>
    obtain rfl : x = m := h
    exact ⟨le_rfl, lt_add_one _, fun _ => ⟨rfl, rfl⟩⟩
  | inexact half =>
    obtain ⟨above, below⟩ := h
    cases half <;> exact ⟨above.le, below, fun hx => absurd hx above.ne'⟩

theorem Describes.half (h : Describes em x) : Describes em.shiftRightOne (x / 2) := by
  obtain ⟨q, r, hq, hr⟩ : ∃ q r, em.mantissa = 2 * q + r ∧ r < 2 :=
    ⟨_, _, (Nat.div_add_mod em.mantissa 2).symm, Nat.mod_lt _ two_pos⟩
  have quotient : em.shiftRightOne.mantissa = q := by
    show em.mantissa / 2 = q
    omega
  have value : (em.mantissa : ℚ) = 2 * q + r := by
    rw [hq]
    push_cast
    rfl
  have last : (0 : ℚ) ≤ r ∧ (r : ℚ) ≤ 1 :=
    ⟨Nat.cast_nonneg r, by exact_mod_cast Nat.lt_succ_iff.1 hr⟩
  obtain ⟨le, lt, bits⟩ := h
  rw [value] at le lt
  refine ⟨?_, ?_, fun hx => ?_⟩
  · rw [quotient]
    linarith
  · rw [quotient]
    linarith
  · -- an even integer: its last bit is zero, and it had none beyond
    rw [quotient] at hx
    have even : r = 0 := by
      have : (r : ℚ) ≤ 0 := by linarith
      exact_mod_cast le_antisymm this last.1
    obtain ⟨hround, hsticky⟩ := bits (by rw [value, even]; push_cast; linarith)
    simp [ExtendedMantissa.shiftRightOne, hq, even, hround, hsticky]

theorem Describes.shiftRight (h : Describes em x) (k : ℕ) : Describes (em >>> k) (x / 2 ^ k) := by
  induction k with
  | zero => simpa [HShiftRight.hShiftRight, Nat.repeat] using h
  | succ k ih =>
    rw [pow_succ, ← div_div]
    exact ih.half

/-- The integer part is rounded down or up, and down where there is nothing else. -/
theorem Describes.roundedMantissa (h : Describes em x) :
    em.roundedMantissa = em.mantissa ∨
      em.roundedMantissa = em.mantissa + 1 ∧ (em.mantissa : ℚ) < x := by
  rcases h.le.eq_or_lt with hx | above
  · left
    obtain ⟨hround, hsticky⟩ := h.bits hx.symm
    obtain ⟨q, round, sticky⟩ := em
    subst hround hsticky
    rfl
  · apply (roundedMantissa_eq_or em).imp_right
    intro hup
    exact ⟨hup, above⟩

end Described

/-! ## Crossing no value -/

/-- On the way from one number to another, no magnitude of the format is crossed. -/
def StepsTo (a b : ℚ) : Prop :=
  ∀ m e, Canonical m e → (m * 2 ^ e ≤ a → m * 2 ^ e ≤ b) ∧ (a ≤ m * 2 ^ e → b ≤ m * 2 ^ e)

/-- A number, rounded in its last place, crosses no magnitude of the format if its integer part has
all the bits, or counts the smallest units. -/
theorem stepsTo_of_floor {x : ℚ} {q r : ℕ} {t : ℤ} (hq : (q : ℚ) ≤ x) (hq' : x < q + 1)
    (hr : r = q ∨ r = q + 1 ∧ (q : ℚ) < x) (hfull : -1074 < t → 2 ^ 52 ≤ q) :
    StepsTo (x * 2 ^ t) (r * 2 ^ t) := by
  intro m e canonical
  have unit : (0 : ℚ) < 2 ^ t := zpow_pos two_pos _
  have rounded : (q : ℚ) ≤ r := by exact_mod_cast (show q ≤ r by omega)
  rcases lt_or_ge e t with hfine | hcoarse
  · -- the integer part has all the bits, so it is larger than any magnitude of a smaller exponent
    have small : (m : ℚ) * 2 ^ e < q * 2 ^ t := by
      have short : (m : ℚ) < 2 ^ (53 : ℤ) := by exact_mod_cast canonical.short
      have full : (2 : ℚ) ^ (52 : ℤ) ≤ q := by
        exact_mod_cast hfull (canonical.low.trans_lt hfine)
      calc (m : ℚ) * 2 ^ e < 2 ^ (53 : ℤ) * 2 ^ e :=
            mul_lt_mul_of_pos_right short (zpow_pos two_pos _)
        _ = 2 ^ (53 + e) := (zpow_add₀ two_ne_zero _ _).symm
        _ ≤ 2 ^ (52 + t) := zpow_le_zpow_right₀ one_le_two (by omega)
        _ = 2 ^ (52 : ℤ) * 2 ^ t := zpow_add₀ two_ne_zero _ _
        _ ≤ q * 2 ^ t := mul_le_mul_of_nonneg_right full unit.le
    have below : q * 2 ^ t ≤ x * 2 ^ t := mul_le_mul_of_nonneg_right hq unit.le
    have above : (q : ℚ) * 2 ^ t ≤ r * 2 ^ t := mul_le_mul_of_nonneg_right rounded unit.le
    exact ⟨fun _ => small.le.trans above, fun hle => absurd hle (small.trans_le below).not_ge⟩
  · -- both are multiples of the unit of the integer part
    obtain ⟨d, rfl⟩ := Int.le.dest hcoarse
    have multiple : (m : ℚ) * 2 ^ (t + d) = (m * 2 ^ d : ℕ) * 2 ^ t := by
      rw [zpow_add₀ two_ne_zero, zpow_natCast]
      push_cast
      ring
    rw [multiple, mul_le_mul_iff_left₀ unit, mul_le_mul_iff_left₀ unit, mul_le_mul_iff_left₀ unit,
      mul_le_mul_iff_left₀ unit]
    generalize m * 2 ^ d = n
    constructor
    · intro hle
      have : n < q + 1 := by exact_mod_cast hle.trans_lt hq'
      exact_mod_cast (show n ≤ r by omega)
    · intro hle
      rcases hr with rfl | ⟨rfl, above⟩
      · exact hq.trans hle
      · have : q < n := by exact_mod_cast above.trans_le hle
        exact_mod_cast this

/-! ## Rounding a magnitude -/

section Round

variable {m r : ℕ} {e t : ℤ} {x : ℚ} {accuracy : Accuracy}

/-- The exponent that a magnitude gets. -/
def target (m : ℕ) (e : ℤ) : ℤ := max ((m.log2 : ℤ) + 1 + e - 53) (-1074)

theorem targetExponent_eq (m : ℕ) (e : ℤ) :
    Format.binary64.targetExponent (totalExponent m e) = target m e := rfl

/-- A significand, shifted to the exponent that it gets. -/
theorem shiftToTargetExponent_eq (m : ℕ) (e : ℤ) (accuracy : Accuracy) :
    UnpackedFloat.shiftToTargetExponent Format.binary64 m e accuracy =
      (ExtendedMantissa.ofMantissaAndAccuracy m accuracy >>> (target m e - e).toNat,
        e + (target m e - e).toNat) := rfl

theorem mantissa_shiftRight (em : ExtendedMantissa) (k : ℕ) :
    (em >>> k).mantissa = em.mantissa / 2 ^ k := by
  induction k with
  | zero => simp [HShiftRight.hShiftRight, Nat.repeat]
  | succ k ih =>
    rw [pow_succ, ← Nat.div_div_eq_div_mul, ← ih]
    rfl

@[simp] theorem mantissa_ofMantissaAndAccuracy (m : ℕ) (accuracy : Accuracy) :
    (ExtendedMantissa.ofMantissaAndAccuracy m accuracy).mantissa = m := by
  cases accuracy with
  | exact => rfl
  | inexact half => cases half <;> rfl

/-- After rounding, the significand may have a bit too many; then it is a power of two. -/
theorem shift_again (hr : r ≤ 2 ^ 53) (ht : -1074 ≤ t) (hfull : -1074 < t → 2 ^ 52 ≤ r) :
    let again := UnpackedFloat.shiftToTargetExponent Format.binary64 r t .exact
    Canonical again.1.mantissa again.2 ∧
      (again.1.mantissa : ℚ) * 2 ^ again.2 = r * 2 ^ t := by
  simp only [shiftToTargetExponent_eq, mantissa_shiftRight, mantissa_ofMantissaAndAccuracy]
  rcases hr.lt_or_eq with hlt | rfl
  · have stays : (target r t - t).toNat = 0 := by
      have bits : r.log2 ≤ 52 := by
        by_cases hr0 : r = 0
        · rw [hr0]
          decide
        · exact Nat.le_of_lt_succ ((Nat.log2_lt hr0).2 hlt)
      unfold target
      omega
    rw [stays, pow_zero, Nat.div_one, Nat.cast_zero, add_zero]
    exact ⟨⟨hlt, ht, hfull⟩, rfl⟩
  · have up : (target (2 ^ 53) t - t).toNat = 1 := by
      unfold target
      rw [Nat.log2_two_pow]
      omega
    rw [up]
    refine ⟨⟨by decide, by push_cast; omega, fun _ => by decide⟩, ?_⟩
    rw [zpow_add₀ two_ne_zero]
    norm_num
    ring

theorem zeroOrFinite_spec (s : Sign) (h : Canonical m e) :
    let f := if h : m = 0 then UnpackedFloat.zero s else .finite s m e (Nat.pos_of_ne_zero h)
    Rounded f ∧ IsNumber f ∧ toRat f = signed s (m * 2 ^ e) := by
  by_cases hm : m = 0
  · subst hm
    rw [dif_pos rfl]
    refine ⟨trivial, UnpackedFloat.noConfusion, ?_⟩
    rw [toRat_zero, Nat.cast_zero, zero_mul, signed_zero]
  · rw [dif_neg hm]
    exact ⟨h, UnpackedFloat.noConfusion, toRat_finite h.low⟩

/-- What is kept of a significand has at most 53 bits, and all of them unless the exponent is the
least one. -/
theorem quotient_bits (hm : m = 0 → target m e = -1074) (ht : e ≤ target m e) :
    m / 2 ^ (target m e - e).toNat < 2 ^ 53 ∧
      (-1074 < target m e → 2 ^ 52 ≤ m / 2 ^ (target m e - e).toNat) := by
  obtain ⟨k, hk⟩ : ∃ k, (target m e - e).toNat = k := ⟨_, rfl⟩
  have here : e + (k : ℤ) = target m e := by omega
  rw [hk]
  constructor
  · have bits : m < 2 ^ (53 + k) := by
      apply Nat.lt_log2_self.trans_le
      apply Nat.pow_le_pow_right (by omega)
      have := le_max_left ((m.log2 : ℤ) + 1 + e - 53) (-1074)
      unfold target at here
      omega
    rw [Nat.div_lt_iff_lt_mul (Nat.two_pow_pos k), ← pow_add]
    exact bits
  · intro hlow
    have nonzero : m ≠ 0 := fun h => hlow.ne' (hm h)
    rw [Nat.le_div_iff_mul_le (Nat.two_pow_pos k), ← pow_add]
    apply le_trans (Nat.pow_le_pow_right (by omega) _) (Nat.log2_self_le nonzero)
    unfold target at here hlow
    omega

/-- A significand that is rounded, at the exponent that it gets. -/
theorem roundWithAccuracy_value (s : Sign) (accuracy : Accuracy)
    (hm : m = 0 → target m e = -1074) (ht : e ≤ target m e) :
    let r := (ExtendedMantissa.ofMantissaAndAccuracy m accuracy >>>
      (target m e - e).toNat).roundedMantissa
    let f := UnpackedFloat.roundWithAccuracy Format.binary64 s m e accuracy
    Rounded f ∧ IsNumber f ∧ toRat f = signed s (r * 2 ^ target m e) := by
  intro r
  have here : e + ((target m e - e).toNat : ℤ) = target m e := by omega
  obtain ⟨short, full⟩ := quotient_bits hm ht
  have hr : r = m / 2 ^ (target m e - e).toNat ∨ r = m / 2 ^ (target m e - e).toNat + 1 := by
    have := roundedMantissa_eq_or
      (ExtendedMantissa.ofMantissaAndAccuracy m accuracy >>> (target m e - e).toNat)
    rwa [mantissa_shiftRight, mantissa_ofMantissaAndAccuracy] at this
  have low : -1074 ≤ target m e := le_max_right _ _
  obtain ⟨canonical, same⟩ := shift_again (show r ≤ 2 ^ 53 by omega) low
    fun hlow => (full hlow).trans (by omega)
  unfold UnpackedFloat.roundWithAccuracy
  rw [shiftToTargetExponent_eq]
  simp only [here]
  obtain ⟨rounded, number, value⟩ := zeroOrFinite_spec s canonical
  exact ⟨rounded, number, value.trans (by rw [same])⟩

/-- The bits that do not fit are rounded away. -/
theorem roundWithAccuracy_spec (s : Sign) (hx : HasAccuracy m accuracy x)
    (hm : m = 0 → target m e = -1074) (ht : e ≤ target m e) :
    let f := UnpackedFloat.roundWithAccuracy Format.binary64 s m e accuracy
    Rounded f ∧ IsNumber f ∧ ∃ b, 0 ≤ b ∧ toRat f = signed s b ∧ StepsTo (x * 2 ^ e) b := by
  obtain ⟨k, hk⟩ : ∃ k, (target m e - e).toNat = k := ⟨_, rfl⟩
  have here : e + (k : ℤ) = target m e := by omega
  obtain ⟨rounded, number, value⟩ := roundWithAccuracy_value s accuracy hm ht
  obtain ⟨-, full⟩ := quotient_bits hm ht
  have described := hx.describes.shiftRight k
  have hr := described.roundedMantissa
  obtain ⟨le, lt, -⟩ := described
  rw [hk] at value full
  rw [mantissa_shiftRight, mantissa_ofMantissaAndAccuracy] at hr le lt
  have shifted : x * 2 ^ e = x / 2 ^ k * (2 : ℚ) ^ target m e := by
    rw [← here, zpow_add₀ two_ne_zero, zpow_natCast]
    field_simp
  refine ⟨rounded, number, _, mul_nonneg (Nat.cast_nonneg _) (zpow_pos two_pos _).le, value, ?_⟩
  rw [shifted]
  exact stepsTo_of_floor le lt hr full

theorem decreaseExponent_eq (m : ℕ) (e t : ℤ) :
    UnpackedFloat.decreaseExponent m e t = (m * 2 ^ (e - t).toNat, min e t) := by
  simp only [UnpackedFloat.decreaseExponent, Nat.shiftLeft_eq]
  exact congrArg (Prod.mk _) (by omega)

theorem log2_mul_two_pow (hm : m ≠ 0) (d : ℕ) : (m * 2 ^ d).log2 = m.log2 + d := by
  have positive : 0 < 2 ^ d := Nat.two_pow_pos d
  rw [Nat.log2_eq_iff (Nat.mul_ne_zero hm positive.ne')]
  constructor
  · rw [pow_add]
    exact Nat.mul_le_mul_right _ (Nat.log2_self_le hm)
  · rw [add_right_comm, pow_add]
    exact Nat.mul_lt_mul_of_pos_right Nat.lt_log2_self positive

/-- With a smaller exponent, the magnitude is the same. -/
theorem mul_two_pow_decreaseExponent (m : ℕ) (e t : ℤ) :
    ((m * 2 ^ (e - t).toNat : ℕ) : ℚ) * 2 ^ min e t = m * 2 ^ e := by
  have exponent : ((e - t).toNat : ℤ) + min e t = e := by omega
  push_cast
  rw [mul_assoc, ← zpow_natCast, ← zpow_add₀ two_ne_zero, exponent]

theorem round_spec (s : Sign) (hm : m ≠ 0) (e : ℤ) :
    let f := UnpackedFloat.round Format.binary64 s m e
    Rounded f ∧ IsNumber f ∧ ∃ b, 0 ≤ b ∧ toRat f = signed s b ∧ StepsTo (m * 2 ^ e) b := by
  have same : target (m * 2 ^ (e - target m e).toNat) (min e (target m e)) = target m e := by
    obtain ⟨t, ht⟩ : ∃ t, target m e = t := ⟨_, rfl⟩
    rw [ht, target, log2_mul_two_pow hm]
    unfold target at ht
    push_cast
    omega
  have nonzero : m * 2 ^ (e - target m e).toNat ≠ 0 :=
    Nat.mul_ne_zero hm (Nat.two_pow_pos _).ne'
  have exact : HasAccuracy (m * 2 ^ (e - target m e).toNat) .exact
      (m * 2 ^ (e - target m e).toNat : ℕ) := rfl
  simp only [UnpackedFloat.round, targetExponent_eq, decreaseExponent_eq]
  rw [← mul_two_pow_decreaseExponent m e (target m e)]
  apply roundWithAccuracy_spec s exact fun h => absurd h nonzero
  rw [same]
  exact min_le_right _ _

end Round

/-! ## Rounding with a sign -/

/-- A value of the format. -/
def OnGrid (v : ℚ) : Prop := ∃ (s : Sign) (m : ℕ) (e : ℤ), Canonical m e ∧ v = signed s (m * 2 ^ e)

theorem onGrid_toRat {f : UnpackedFloat} (hf : Rounded f) (hf' : IsFinite f) :
    OnGrid (toRat f) := by
  cases f with
  | notANumber => exact hf'.elim
  | infinity s => exact hf'.elim
  | zero s =>
    refine ⟨s, 0, -1074, ⟨by decide, le_rfl, fun h => absurd h (lt_irrefl _)⟩, ?_⟩
    rw [toRat_zero, Nat.cast_zero, zero_mul, signed_zero]
  | finite s m e pos => exact ⟨s, m, e, hf, toRat_finite hf.low⟩

/-- On the way from one number to another, no value of the format is crossed. -/
def RoundsTo (a b : ℚ) : Prop := ∀ v, OnGrid v → (v ≤ a → v ≤ b) ∧ (a ≤ v → b ≤ v)

theorem RoundsTo.refl (a : ℚ) : RoundsTo a a := fun _ _ => ⟨id, id⟩

theorem StepsTo.signed {a b : ℚ} (h : StepsTo a b) (ha : 0 ≤ a) (hb : 0 ≤ b) (s : Sign) :
    RoundsTo (signed s a) (signed s b) := by
  rintro _ ⟨s', m, e, canonical, rfl⟩
  obtain ⟨below, above⟩ := h m e canonical
  have nonneg : (0 : ℚ) ≤ m * 2 ^ e := mul_nonneg (Nat.cast_nonneg m) (zpow_pos two_pos _).le
  generalize (m : ℚ) * 2 ^ e = v at below above nonneg
  cases s with
  | negative =>
    cases s' with
    | negative =>
      exact ⟨fun hle => neg_le_neg (above (neg_le_neg_iff.1 hle)),
        fun hle => neg_le_neg (below (neg_le_neg_iff.1 hle))⟩
    | positive =>
      show (v ≤ -a → v ≤ -b) ∧ (-a ≤ v → -b ≤ v)
      refine ⟨fun hle => ?_, fun _ => by linarith⟩
      have := above (by linarith)
      linarith
  | positive =>
    cases s' with
    | negative =>
      show (-v ≤ a → -v ≤ b) ∧ (a ≤ -v → b ≤ -v)
      refine ⟨fun _ => by linarith, fun hle => ?_⟩
      have := above (by linarith)
      linarith
    | positive => exact ⟨below, above⟩

section Operations

variable {x y : UnpackedFloat}

/-- A signed significand is rounded to a value of the format, and crosses none. -/
theorem normalize_spec (z e : ℤ) (s : Sign) :
    let f := UnpackedFloat.normalize Format.binary64 z e s
    Rounded f ∧ IsNumber f ∧ RoundsTo (z * 2 ^ e) (toRat f) := by
  have unit : (0 : ℚ) ≤ 2 ^ e := (zpow_pos two_pos _).le
  unfold UnpackedFloat.normalize
  rcases lt_trichotomy z 0 with hneg | rfl | hpos
  · rw [compare_lt_iff_lt.2 hneg]
    obtain ⟨rounded, number, b, hb, value, crosses⟩ :=
      round_spec .negative (show (-z).toNat ≠ 0 by omega) e
    have magnitude : (z : ℚ) = -((-z).toNat : ℕ) := by
      have : ((-z).toNat : ℤ) = -z := Int.toNat_of_nonneg (by omega)
      rw [eq_neg_iff_add_eq_zero, ← Int.cast_natCast, this, Int.cast_neg, add_neg_cancel]
    refine ⟨rounded, number, ?_⟩
    rw [value, magnitude, neg_mul]
    exact crosses.signed (mul_nonneg (Nat.cast_nonneg _) unit) hb .negative
  · rw [compare_eq_iff_eq.2 rfl]
    refine ⟨trivial, UnpackedFloat.noConfusion, ?_⟩
    rw [Int.cast_zero, zero_mul, toRat_zero]
    exact RoundsTo.refl 0
  · rw [compare_gt_iff_gt.2 hpos]
    obtain ⟨rounded, number, b, hb, value, crosses⟩ :=
      round_spec .positive (show z.toNat ≠ 0 by omega) e
    have magnitude : (z : ℚ) = (z.toNat : ℕ) := by
      exact_mod_cast (Int.toNat_of_nonneg hpos.le).symm
    refine ⟨rounded, number, ?_⟩
    rw [value, magnitude]
    exact crosses.signed (mul_nonneg (Nat.cast_nonneg _) unit) hb .positive

/-! ## Rounding a sum -/

/-- A sum is rounded to a value of the format, and crosses none. -/
theorem add_spec (hx : Rounded x) (hy : Rounded y) (hx' : IsFinite x) (hy' : IsFinite y) :
    let f := UnpackedFloat.add Format.binary64 x y
    Rounded f ∧ IsNumber f ∧ RoundsTo (toRat x + toRat y) (toRat f) := by
  cases x with
  | notANumber => exact hx'.elim
  | infinity s => exact hx'.elim
  | zero s =>
    cases y with
    | notANumber => exact hy'.elim
    | infinity s' => exact hy'.elim
    | zero s' =>
      rw [toRat_zero, toRat_zero, zero_add]
      cases s <;> cases s' <;>
        exact ⟨trivial, UnpackedFloat.noConfusion, (toRat_zero _).symm ▸ .refl 0⟩
    | finite s' m' e' pos' =>
      rw [toRat_zero, zero_add]
      exact ⟨hy, UnpackedFloat.noConfusion, .refl _⟩
  | finite s m e pos =>
    cases y with
    | notANumber => exact hy'.elim
    | infinity s' => exact hy'.elim
    | zero s' =>
      rw [toRat_zero, add_zero]
      exact ⟨hx, UnpackedFloat.noConfusion, .refl _⟩
    | finite s' m' e' pos' =>
      have left := mul_two_pow_decreaseExponent m e (min e e')
      have right := mul_two_pow_decreaseExponent m' e' (min e e')
      rw [min_eq_right (min_le_left e e')] at left
      rw [min_eq_right (min_le_right e e')] at right
      have sum : signed s (m * 2 ^ e) + signed s' (m' * 2 ^ e') =
          ((s.apply ((m * 2 ^ (e - min e e').toNat : ℕ) : ℤ) +
            s'.apply ((m' * 2 ^ (e' - min e e').toNat : ℕ) : ℤ) : ℤ) : ℚ) * 2 ^ min e e' := by
        rw [← left, ← right, Int.cast_add, cast_apply, cast_apply, add_mul, signed_mul_right,
          signed_mul_right, Int.cast_natCast, Int.cast_natCast]
      simp only [UnpackedFloat.add, decreaseExponent_eq]
      rw [toRat_finite hx.low, toRat_finite hy.low, sum]
      exact normalize_spec _ _ .positive

/-! ## Rounding a difference -/

theorem apply_neg (s : Sign) (a : ℤ) : (-s).apply a = -s.apply a := by
  cases s with
  | negative => exact (neg_neg a).symm
  | positive => rfl

theorem sub_eq_add (x y : UnpackedFloat) :
    UnpackedFloat.sub Format.binary64 x y = UnpackedFloat.add Format.binary64 x y.neg := by
  cases x with
  | notANumber => rfl
  | infinity s => cases y <;> rfl
  | zero s => cases y <;> rfl
  | finite s m e pos =>
    cases y with
    | notANumber => rfl
    | infinity s' => rfl
    | zero s' => rfl
    | finite s' m' e' pos' =>
      simp only [UnpackedFloat.sub, UnpackedFloat.add, UnpackedFloat.neg, apply_neg, sub_eq_add_neg]

theorem inFormat_neg {f : UnpackedFloat} (hf : InFormat f) : InFormat f.neg := by
  cases f with
  | notANumber => trivial
  | infinity s => trivial
  | zero s => trivial
  | finite s m e pos => exact hf

theorem IsNumber.neg {f : UnpackedFloat} (hf : IsNumber f) : IsNumber f.neg := by
  cases f with
  | notANumber => exact absurd rfl hf
  | infinity s => exact UnpackedFloat.noConfusion
  | zero s => exact UnpackedFloat.noConfusion
  | finite s m e pos => exact UnpackedFloat.noConfusion

theorem units_neg (f : UnpackedFloat) : units f.neg = -units f := by
  cases f with
  | notANumber => rfl
  | infinity s => exact apply_neg s beyond
  | zero s => rfl
  | finite s m e pos => exact apply_neg s (steps m e)

theorem Rounded.neg {f : UnpackedFloat} (hf : Rounded f) : Rounded f.neg := by
  cases f with
  | notANumber => trivial
  | infinity s => trivial
  | zero s => trivial
  | finite s m e pos => exact hf

theorem IsFinite.neg {f : UnpackedFloat} (hf : IsFinite f) : IsFinite f.neg := by
  cases f with
  | notANumber => exact hf
  | infinity s => exact hf
  | zero s => trivial
  | finite s m e pos => trivial

theorem toRat_neg (f : UnpackedFloat) : toRat f.neg = -toRat f := by
  rw [toRat, units_neg, Int.cast_neg, neg_div, toRat]

/-- A difference is rounded to a value of the format, and crosses none. -/
theorem sub_spec (hx : Rounded x) (hy : Rounded y) (hx' : IsFinite x) (hy' : IsFinite y) :
    let f := UnpackedFloat.sub Format.binary64 x y
    Rounded f ∧ IsNumber f ∧ RoundsTo (toRat x - toRat y) (toRat f) := by
  rw [sub_eq_add_neg, ← toRat_neg, sub_eq_add]
  exact add_spec hx hy.neg hx' hy'.neg

/-! ## Rounding a product -/

/-- Unless both exponents are the least one, a product has all the bits. -/
theorem le_target_mul {m m' : ℕ} {e e' : ℤ} (h : Canonical m e) (h' : Canonical m' e')
    (pos : 0 < m) (pos' : 0 < m') : e + e' ≤ target (m * m') (e + e') := by
  unfold target
  by_cases hlow : e + e' ≤ -1074
  · exact hlow.trans (le_max_right _ _)
  · have large : 2 ^ 52 ≤ m * m' := by
      have low := h.low
      by_cases hlow' : -1074 < e
      · exact (h.full hlow').trans (Nat.le_mul_of_pos_right m pos')
      · exact (h'.full (by omega)).trans (Nat.le_mul_of_pos_left m' pos)
    have bits : 52 ≤ (m * m').log2 := (Nat.le_log2 (Nat.mul_pos pos pos').ne').2 large
    omega

theorem signed_mul_two_pow (s s' : Sign) (m m' : ℕ) (e e' : ℤ) :
    signed s (m * 2 ^ e) * signed s' (m' * 2 ^ e') =
      signed (s * s') ((m * m' : ℕ) * 2 ^ (e + e')) := by
  rw [signed_mul, zpow_add₀ two_ne_zero]
  push_cast
  congr 1
  ring

/-- A product is rounded to a value of the format, and crosses none. -/
theorem mul_spec (hx : Rounded x) (hy : Rounded y) (hx' : IsFinite x) (hy' : IsFinite y) :
    let f := UnpackedFloat.mul Format.binary64 x y
    Rounded f ∧ IsNumber f ∧ RoundsTo (toRat x * toRat y) (toRat f) := by
  cases x with
  | notANumber => exact hx'.elim
  | infinity s => exact hx'.elim
  | zero s =>
    rw [toRat_zero, zero_mul]
    cases y with
    | notANumber => exact hy'.elim
    | infinity s' => exact hy'.elim
    | zero s' | finite s' m' e' pos' =>
      exact ⟨trivial, UnpackedFloat.noConfusion, (toRat_zero _).symm ▸ .refl 0⟩
  | finite s m e pos =>
    cases y with
    | notANumber => exact hy'.elim
    | infinity s' => exact hy'.elim
    | zero s' =>
      rw [toRat_zero, mul_zero]
      exact ⟨trivial, UnpackedFloat.noConfusion, (toRat_zero _).symm ▸ .refl 0⟩
    | finite s' m' e' pos' =>
      have positive : 0 < m * m' := Nat.mul_pos pos pos'
      have enough := le_target_mul hx hy pos pos'
      have exact : HasAccuracy (m * m') .exact (m * m' : ℕ) := rfl
      obtain ⟨rounded, number, b, hb, value, crosses⟩ := roundWithAccuracy_spec (s * s') exact
        (fun hzero => absurd hzero positive.ne') enough
      rw [toRat_finite hx.low, toRat_finite hy.low, signed_mul_two_pow]
      refine ⟨rounded, number, ?_⟩
      show RoundsTo _ (toRat (UnpackedFloat.roundWithAccuracy _ _ _ _ _))
      rw [value]
      exact crosses.signed (mul_nonneg (Nat.cast_nonneg _) (zpow_pos two_pos _).le) hb _

/-! ## Rounding a quotient -/

theorem hasAccuracy_div {n d : ℕ} (hd : 0 < d) :
    HasAccuracy (n / d) (UnpackedFloat.accuracyOfFraction (n % d) d) (n / d : ℚ) := by
  have positive : (0 : ℚ) < d := by exact_mod_cast hd
  have split : (n : ℚ) = d * (n / d : ℕ) + (n % d : ℕ) := by
    exact_mod_cast (Nat.div_add_mod n d).symm
  have short : ((n % d : ℕ) : ℚ) < d := by exact_mod_cast Nat.mod_lt n hd
  unfold UnpackedFloat.accuracyOfFraction
  split_ifs with hzero
  · show (n : ℚ) / d = (n / d : ℕ)
    rw [hzero, Nat.cast_zero, add_zero] at split
    rw [div_eq_iff positive.ne', split, mul_comm]
  · have some : (0 : ℚ) < (n % d : ℕ) := by exact_mod_cast Nat.pos_of_ne_zero hzero
    constructor
    · rw [lt_div_iff₀ positive]
      linarith
    · rw [div_lt_iff₀ positive]
      linarith

/-- A quotient is computed at an exponent that leaves enough bits. -/
theorem exists_divCore_eq (m m' : ℕ) (e e' : ℤ) : ∃ (k : ℕ) (t : ℤ), (k : ℤ) = e - e' - t ∧
    t = min (e - e') (max (((m.log2 : ℤ) + 1 + e) - ((m'.log2 : ℤ) + 1 + e') - 53) (-1074)) ∧
    UnpackedFloat.divCore Format.binary64 m e m' e' =
      (m * 2 ^ k / m', t, UnpackedFloat.accuracyOfFraction (m * 2 ^ k % m') m') := by
  obtain ⟨t, ht⟩ : ∃ t, min (e - e') (max (((m.log2 : ℤ) + 1 + e) - ((m'.log2 : ℤ) + 1 + e') - 53)
    (-1074)) = t := ⟨_, rfl⟩
  obtain ⟨k, hk⟩ : ∃ k : ℕ, (e - e' - t).toNat = k := ⟨_, rfl⟩
  refine ⟨k, t, by omega, ht.symm, ?_⟩
  rw [← Nat.shiftLeft_eq, ← hk, ← ht]
  rfl

/-- The quotient that is computed has all the bits, unless its exponent is too small for that. -/
theorem divCore_spec {m m' : ℕ} (e e' : ℤ) (pos : 0 < m) (pos' : 0 < m') :
    let c := UnpackedFloat.divCore Format.binary64 m e m' e'
    HasAccuracy c.1 c.2.2 (m * 2 ^ (e - e' - c.2.1) / m') ∧
      (c.1 = 0 → target c.1 c.2.1 = -1074) ∧ c.2.1 ≤ target c.1 c.2.1 := by
  obtain ⟨k, t, shift, ht, core⟩ := exists_divCore_eq m m' e e'
  simp only [core, ← shift]
  refine ⟨?_, ?_⟩
  · have := hasAccuracy_div (n := m * 2 ^ k) pos'
    rw [zpow_natCast]
    push_cast at this
    exact this
  · by_cases hlow : t ≤ -1074
    · refine ⟨fun hzero => ?_, hlow.trans (le_max_right _ _)⟩
      rw [hzero, target, Nat.log2_zero]
      omega
    · have large : 2 ^ 52 ≤ m * 2 ^ k / m' := by
        rw [Nat.le_div_iff_mul_le pos']
        calc 2 ^ 52 * m' ≤ 2 ^ 52 * 2 ^ (m'.log2 + 1) :=
              Nat.mul_le_mul_left _ Nat.lt_log2_self.le
          _ = 2 ^ (m'.log2 + 53) := by rw [← pow_add]; congr 1; omega
          _ ≤ 2 ^ (m.log2 + k) := Nat.pow_le_pow_right two_pos (by omega)
          _ = 2 ^ m.log2 * 2 ^ k := by rw [pow_add]
          _ ≤ m * 2 ^ k := Nat.mul_le_mul_right _ (Nat.log2_self_le pos.ne')
      have nonzero : m * 2 ^ k / m' ≠ 0 := by omega
      have bits : 52 ≤ (m * 2 ^ k / m').log2 := (Nat.le_log2 nonzero).2 large
      refine ⟨fun hzero => absurd hzero nonzero, ?_⟩
      unfold target
      omega

/-- A quotient is rounded to a value of the format, and crosses none. -/
theorem div_spec (hx : Rounded x) (hy : Rounded y) (hx' : IsFinite x) (hy' : IsFinite y)
    (hy'' : toRat y ≠ 0) :
    let f := UnpackedFloat.div Format.binary64 x y
    Rounded f ∧ IsNumber f ∧ RoundsTo (toRat x / toRat y) (toRat f) := by
  cases y with
  | notANumber => exact hy'.elim
  | infinity s' => exact hy'.elim
  | zero s' => exact absurd (toRat_zero s') hy''
  | finite s' m' e' pos' =>
    cases x with
    | notANumber => exact hx'.elim
    | infinity s => exact hx'.elim
    | zero s =>
      rw [toRat_zero, zero_div]
      exact ⟨trivial, UnpackedFloat.noConfusion, (toRat_zero _).symm ▸ .refl 0⟩
    | finite s m e pos =>
      obtain ⟨c, hc⟩ : ∃ c, UnpackedFloat.divCore Format.binary64 m e m' e' = c := ⟨_, rfl⟩
      obtain ⟨accuracy, hzero, enough⟩ := hc ▸ divCore_spec e e' pos pos'
      obtain ⟨rounded, number, b, hb, value, crosses⟩ :=
        roundWithAccuracy_spec (s / s') accuracy hzero enough
      have quotient : signed s (m * 2 ^ e) / signed s' (m' * 2 ^ e') =
          signed (s / s') (m * 2 ^ (e - e' - c.2.1) / m' * 2 ^ c.2.1) := by
        have exponent : (2 : ℚ) ^ (e - e' - c.2.1) * 2 ^ c.2.1 = 2 ^ e / 2 ^ e' := by
          rw [← zpow_add₀ two_ne_zero, ← zpow_sub₀ two_ne_zero]
          congr 1
          ring
        rw [signed_div, div_mul_eq_mul_div, mul_assoc, exponent, mul_div_mul_comm]
        congr 1
        ring
      have result : UnpackedFloat.div Format.binary64 (.finite s m e pos)
          (.finite s' m' e' pos') =
          UnpackedFloat.roundWithAccuracy Format.binary64 (s / s') c.1 c.2.1 c.2.2 := by
        simp only [UnpackedFloat.div, hc]
      rw [result, toRat_finite hx.low, toRat_finite hy.low, quotient]
      refine ⟨rounded, number, ?_⟩
      rw [value]
      refine crosses.signed ?_ hb _
      exact mul_nonneg (div_nonneg (mul_nonneg (Nat.cast_nonneg _) (zpow_pos two_pos _).le)
        (Nat.cast_nonneg _)) (zpow_pos two_pos _).le

end Operations

end ControlBlocks.Binary64
