import ControlBlocks.Proofs.Binary64.Arithmetic
import Mathlib

/-!
# Integer parts of floats

What clearing fraction bits does to the value.

* `Binary64.value_of_decode` — the value that the bits of a float stand for;
* `Binary64.value_towardZero` — the integer part, toward zero;
* `Binary64.value_floor` — the greatest integer not above;
* `Binary64.wholePart?_eq_some`, `wholePart?_floor_eq_none` — floats as integers;
* `Binary64.value_nearest` — the nearest integer.
-/

set_option autoImplicit false

namespace ControlBlocks.Binary64

open Float.Model (Format UnpackedFloat)
open Float.Model.UnpackedFloat (Sign)

/-! ## The bits of a float -/

section Bits

theorem toNat_unpackMantissa (b : BitVec Format.binary64.numBits) :
    (UnpackedFloat.unpackMantissa b).toNat = b.toNat % 2 ^ 52 := by
  rw [UnpackedFloat.unpackMantissa_def, BitVec.extractLsb'_toNat, Nat.shiftRight_zero]

theorem toNat_unpackExponent (b : BitVec Format.binary64.numBits) :
    (UnpackedFloat.unpackExponent b).toNat = b.toNat / 2 ^ 52 % 2 ^ 11 := by
  rw [UnpackedFloat.unpackExponent_def, BitVec.extractLsb'_toNat, Nat.shiftRight_eq_div_pow]

theorem toNat_unpackSign (b : BitVec Format.binary64.numBits) :
    (UnpackedFloat.unpackSign b).toNat = b.toNat / 2 ^ 63 := by
  have small : b.toNat < 2 ^ 64 := b.isLt
  rw [UnpackedFloat.unpackSign_def, BitVec.extractLsb'_toNat, Nat.shiftRight_eq_div_pow]
  show b.toNat / 2 ^ 63 % 2 ^ 1 = b.toNat / 2 ^ 63
  omega

variable {x : Float} {m : Magnitude}

/-- The bits of a float. -/
def bitsOf (x : Float) : BitVec Format.binary64.numBits := x.toBits.toBitVec

theorem valueOf_eq_unpack (x : Float) :
    valueOf x = UnpackedFloat.unpack Format.binary64 (bitsOf x) := rfl

/-- The sign of a float. -/
def signOf (x : Float) : Sign := if isNegative x then .negative else .positive

theorem ofBitVec_unpackSign (x : Float) :
    Sign.ofBitVec (UnpackedFloat.unpackSign (bitsOf x)) = signOf x := by
  have high := toNat_unpackSign (bitsOf x)
  have here : isNegative x = decide (2 ^ 63 ≤ (bitsOf x).toNat) := rfl
  unfold signOf Sign.ofBitVec
  by_cases hsign : UnpackedFloat.unpackSign (bitsOf x) = 0#1
  · have nonneg : (bitsOf x).toNat / 2 ^ 63 = 0 := by rw [← high, hsign]; rfl
    rw [if_pos hsign, here, if_neg (by rw [decide_eq_true_iff]; omega)]
  · have negative : (bitsOf x).toNat / 2 ^ 63 ≠ 0 := by
      rw [← high]
      exact fun hzero => hsign (BitVec.eq_of_toNat_eq hzero)
    rw [if_neg hsign, here, if_pos (by rw [decide_eq_true_iff]; omega)]

theorem unpackExponent_eq_iff {e : BitVec Format.binary64.exponentBits} :
    UnpackedFloat.unpackExponent (bitsOf x) = e ↔ exponentBits x = e.toNat := by
  rw [← BitVec.toNat_inj, toNat_unpackExponent]
  rfl

theorem unpackMantissa_eq_iff {f : BitVec Format.binary64.mantissaBitsWithoutImplicit} :
    UnpackedFloat.unpackMantissa (bitsOf x) = f ↔ fractionBits x = f.toNat := by
  rw [← BitVec.toNat_inj, toNat_unpackMantissa]
  rfl

/-- The value that the bits of a float stand for. -/
theorem value_of_decode (h : decode x = some m) :
    IsFinite (valueOf x) ∧ value x = signed (signOf x) (m.significand * 2 ^ m.exponent) := by
  rw [value, valueOf_eq_unpack]
  unfold UnpackedFloat.unpack
  extract_lets mantissa exponent unbiased signBit sign
  have infinite : exponent = -1#_ ↔ exponentBits x = 2047 := unpackExponent_eq_iff
  have least : exponent = 0#_ ↔ exponentBits x = 0 := unpackExponent_eq_iff
  have nothing : mantissa = 0#_ ↔ fractionBits x = 0 := unpackMantissa_eq_iff
  have fraction : mantissa.toNat = fractionBits x := toNat_unpackMantissa _
  have sign_eq : sign = signOf x := ofBitVec_unpackSign x
  have unit : unbiased = exponentBits x - 1075 := by
    have places : exponent.toNat = exponentBits x := toNat_unpackExponent _
    have bias : (Format.binary64.exponentBias : ℤ) +
      Format.binary64.mantissaBitsWithoutImplicit = 1075 := by decide
    show (exponent.toNat : ℤ) - _ = _
    rw [bias, places]
  simp only [decode] at h
  split_ifs at h with hinfinite hzero
  -- with the least exponent, there is no leading one
  · cases h
    rw [if_neg (mt infinite.1 hinfinite), if_pos (least.2 hzero)]
    by_cases hfraction : fractionBits x = 0
    · rw [dif_pos (nothing.2 hfraction), toRat_zero, hfraction, Nat.cast_zero, zero_mul,
        signed_zero]
      exact ⟨trivial, rfl⟩
    · have lowest : unbiased + 1 = -1074 := by omega
      rw [dif_neg (mt nothing.1 hfraction), toRat_finite (by omega)]
      refine ⟨trivial, ?_⟩
      rw [lowest, fraction, sign_eq]
  · cases h
    have magnitude : (1#1 ++ mantissa).toNat = fractionBits x + 0x10000000000000 := by
      rw [toNat_one_append, fraction, add_comm]
      rfl
    rw [if_neg (mt infinite.1 hinfinite), if_neg (mt least.1 hzero), toRat_finite (by omega)]
    refine ⟨trivial, ?_⟩
    rw [unit, magnitude, sign_eq]

theorem decode_eq_none_iff : decode x = none ↔ exponentBits x = 2047 := by
  simp only [decode]
  split_ifs <;> simp_all

theorem not_isFinite_of_decode (h : decode x = none) : ¬ IsFinite (valueOf x) := by
  rw [valueOf_eq_unpack]
  unfold UnpackedFloat.unpack
  rw [if_pos (unpackExponent_eq_iff.2 (decode_eq_none_iff.1 h))]
  split
  · exact not_false
  · exact not_false

/-- Bits that are those of a number, finite or infinite, are kept. -/
theorem toBits_ofBits {u : UInt64}
    (hu : u.toNat / 2 ^ 52 % 2 ^ 11 = 2047 → u.toNat % 2 ^ 52 = 0) :
    (Float.ofBits u).toBits = u := by
  have valid : Format.binary64.Valid u.toBitVec := by
    refine ⟨fun hall hfraction => absurd ?_ hfraction⟩
    have exponent : u.toNat / 2 ^ 52 % 2 ^ 11 = 2047 :=
      (toNat_unpackExponent u.toBitVec).symm.trans (congrArg BitVec.toNat hall)
    exact BitVec.toNat_inj.1 ((toNat_unpackMantissa u.toBitVec).trans (hu exponent))
  exact UInt64.toBitVec_inj.1 (UnpackedFloat.pack_unpack_of_valid valid)

end Bits

/-! ## Clearing fraction bits -/

section Clear

variable {n p : ℕ}

/-- Clearing low bits of the fraction keeps all others. -/
theorem div_clear (hp : p ≤ 52) : n / 2 ^ p * 2 ^ p / 2 ^ 52 = n / 2 ^ 52 := by
  have split : 2 ^ 52 = 2 ^ (52 - p) * 2 ^ p := by rw [← pow_add, Nat.sub_add_cancel hp]
  rw [split, Nat.mul_div_mul_right _ _ (Nat.two_pow_pos p), Nat.div_div_eq_div_mul, mul_comm]

theorem mod_clear (hp : p ≤ 52) :
    n / 2 ^ p * 2 ^ p % 2 ^ 52 = n % 2 ^ 52 / 2 ^ p * 2 ^ p := by
  have split : 2 ^ 52 = 2 ^ p * 2 ^ (52 - p) := by rw [← pow_add, Nat.add_sub_cancel' hp]
  rw [split, Nat.mod_mul_right_div_self, mul_comm (2 ^ p) (2 ^ (52 - p)), Nat.mul_mod_mul_right]

theorem toNat_clear {u places : UInt64} (hp : places.toNat = p) (hp' : p ≤ 52) :
    ((u >>> places) <<< places).toNat = u.toNat / 2 ^ p * 2 ^ p := by
  have small : u.toNat / 2 ^ p * 2 ^ p < 2 ^ 64 :=
    (Nat.div_mul_le_self _ _).trans_lt u.toBitVec.isLt
  have amount : p % 64 = p := Nat.mod_eq_of_lt (by omega)
  rw [UInt64.toNat_shiftLeft, UInt64.toNat_shiftRight, hp, amount, Nat.shiftLeft_eq,
    Nat.shiftRight_eq_div_pow, Nat.mod_eq_of_lt small]

end Clear

section TowardZero

variable {x : Float} {m : Magnitude}

/-- The fields of a float that is made of bits. -/
theorem decode_ofBits {u : UInt64} {e f : ℕ} (he : u.toNat / 2 ^ 52 % 2 ^ 11 = e)
    (hf : u.toNat % 2 ^ 52 = f) (hfinite : e ≠ 2047) :
    decode (Float.ofBits u) =
      some (if e = 0 then ⟨f, -1074⟩ else ⟨f + 0x10000000000000, (e : ℤ) - 1075⟩) := by
  have bits : (Float.ofBits u).toBits = u := toBits_ofBits fun h => absurd h (he ▸ hfinite)
  have exponent : exponentBits (Float.ofBits u) = e := by
    rw [exponentBits, bits]
    exact he
  have fraction : fractionBits (Float.ofBits u) = f := by
    rw [fractionBits, bits]
    exact hf
  simp only [decode, exponent, fraction, if_neg hfinite]
  split_ifs <;> rfl

/-- Below one, only the sign is left. -/
theorem value_towardZero_of_small (he : exponentBits x < 1023) :
    IsFinite (valueOf (towardZero x)) ∧ value (towardZero x) = 0 := by
  have cleared : (x.toBits &&& 0x8000000000000000).toNat =
      (x.toBits.toNat.testBit 63).toNat * 2 ^ 63 := by
    rw [UInt64.toNat_and]
    exact Nat.and_two_pow _ 63
  have zero : decode (Float.ofBits (x.toBits &&& 0x8000000000000000)) = some ⟨0, -1074⟩ := by
    apply decode_ofBits (e := 0) (f := 0)
    · rw [cleared]
      cases x.toBits.toNat.testBit 63 <;> rfl
    · rw [cleared]
      cases x.toBits.toNat.testBit 63 <;> rfl
    · decide
  have here : towardZero x = Float.ofBits (x.toBits &&& 0x8000000000000000) := by
    simp only [towardZero, if_pos he]
  obtain ⟨finite, value⟩ := value_of_decode zero
  rw [here]
  refine ⟨finite, value.trans ?_⟩
  rw [Nat.cast_zero, zero_mul, signed_zero]

/-- The magnitude of a float with another exponent than the least one. -/
theorem eq_of_decode (h : decode x = some m) (he : exponentBits x ≠ 0) :
    m = ⟨fractionBits x + 0x10000000000000, (exponentBits x : ℤ) - 1075⟩ := by
  simp only [decode] at h
  split_ifs at h
  cases h
  rfl

/-- A magnitude below one has no integer part. -/
theorem whole_eq_zero (h : decode x = some m) (he : exponentBits x < 1023) : m.whole = 0 := by
  have short : fractionBits x < 2 ^ 52 := Nat.mod_lt _ (Nat.two_pow_pos 52)
  have small : m.significand < 2 ^ 53 ∧ m.exponent ≤ -53 := by
    simp only [decode] at h
    split_ifs at h
    · cases h
      exact ⟨by show fractionBits x < _; omega, by show (-1074 : ℤ) ≤ -53; decide⟩
    · cases h
      exact ⟨by show fractionBits x + _ < _; omega, by show (exponentBits x : ℤ) - 1075 ≤ _; omega⟩
  rw [Magnitude.whole, if_neg (by omega)]
  apply Nat.div_eq_of_lt
  calc m.significand < 2 ^ 53 := small.1
    _ ≤ 2 ^ (-m.exponent).toNat := Nat.pow_le_pow_right two_pos (by omega)

/-- The fraction bits below the point are cleared. -/
theorem decode_towardZero (hlow : 1023 ≤ exponentBits x) (hhigh : exponentBits x < 1075) :
    signOf (towardZero x) = signOf x ∧
      ∃ p, exponentBits x + p = 1075 ∧ decode (towardZero x) =
        some ⟨fractionBits x / 2 ^ p * 2 ^ p + 0x10000000000000, (exponentBits x : ℤ) - 1075⟩ := by
  obtain ⟨p, hp⟩ := Nat.exists_eq_add_of_le hhigh.le
  have here : towardZero x =
      Float.ofBits ((x.toBits >>> p.toUInt64) <<< p.toUInt64) := by
    have places : 1075 - exponentBits x = p := by omega
    simp only [towardZero, if_neg (not_lt.2 hlow), if_neg (not_le.2 hhigh), places]
  have amount : p.toUInt64.toNat = p := by
    show (UInt64.ofNat p).toNat = p
    rw [UInt64.toNat_ofNat', Nat.mod_eq_of_lt (by omega)]
  obtain ⟨u, hu⟩ : ∃ u, (x.toBits >>> p.toUInt64) <<< p.toUInt64 = u := ⟨_, rfl⟩
  have cleared : u.toNat = x.toBits.toNat / 2 ^ p * 2 ^ p := hu ▸ toNat_clear amount (by omega)
  have high : u.toNat / 2 ^ 52 = x.toBits.toNat / 2 ^ 52 := by rw [cleared, div_clear (by omega)]
  have low : u.toNat % 2 ^ 52 = fractionBits x / 2 ^ p * 2 ^ p := by
    rw [cleared, mod_clear (by omega)]
    rfl
  have exponent : u.toNat / 2 ^ 52 % 2 ^ 11 = exponentBits x := by
    rw [high]
    rfl
  rw [here, hu]
  refine ⟨?_, p, hp.symm, ?_⟩
  · have bits : (Float.ofBits u).toBits = u := toBits_ofBits fun h => by omega
    have same : isNegative (Float.ofBits u) = isNegative x := by
      rw [isNegative, isNegative, bits, decide_eq_decide]
      omega
    rw [signOf, same, signOf]
  · rw [decode_ofBits exponent low (by omega), if_neg (by omega)]

theorem towardZero_of_large (he : 1075 ≤ exponentBits x) : towardZero x = x := by
  have high : ¬ exponentBits x < 1023 := by omega
  simp only [towardZero, if_neg high, if_pos he]

/-- Clearing the fraction bits below the point leaves the integer part. -/
theorem value_towardZero (h : decode x = some m) :
    IsFinite (valueOf (towardZero x)) ∧ value (towardZero x) = signed (signOf x) m.whole := by
  by_cases hsmall : exponentBits x < 1023
  · obtain ⟨finite, nothing⟩ := value_towardZero_of_small hsmall
    rw [whole_eq_zero h hsmall, Nat.cast_zero, signed_zero]
    exact ⟨finite, nothing⟩
  · obtain rfl := eq_of_decode h (by omega)
    by_cases hlarge : 1075 ≤ exponentBits x
    · obtain ⟨k, hk⟩ := Nat.exists_eq_add_of_le hlarge
      have here : towardZero x = x := towardZero_of_large hlarge
      have exponent : (exponentBits x : ℤ) - 1075 = k := by omega
      obtain ⟨finite, value⟩ := value_of_decode h
      rw [here]
      refine ⟨finite, value.trans ?_⟩
      simp only [Magnitude.whole, exponent, Nat.cast_nonneg, if_true, Int.toNat_natCast,
        zpow_natCast, Nat.pow_eq]
      push_cast
      rfl
    · obtain ⟨sign, p, hp, decoded⟩ := decode_towardZero (not_lt.1 hsmall) (not_le.1 hlarge)
      obtain ⟨finite, value⟩ := value_of_decode decoded
      have exponent : (exponentBits x : ℤ) - 1075 = -(p : ℤ) := by omega
      have split : 0x10000000000000 = 2 ^ (52 - p) * 2 ^ p := by
        rw [← pow_add, Nat.sub_add_cancel (by omega)]
        rfl
      refine ⟨finite, value.trans ?_⟩
      rw [sign]
      congr 1
      simp only [Magnitude.whole, exponent]
      rw [if_neg (by omega), neg_neg, Int.toNat_natCast, Nat.pow_eq, split,
        Nat.add_mul_div_right _ _ (Nat.two_pow_pos p), zpow_neg, zpow_natCast]
      push_cast
      field_simp

end TowardZero

/-! ## Floats as integers -/

section Whole

variable {x : Float} {m : Magnitude} {n : ℤ}

/-- The integer part of a magnitude is the greatest integer not above it. -/
theorem whole_eq_floor (m : Magnitude) :
    (m.whole : ℤ) = ⌊(m.significand : ℚ) * 2 ^ m.exponent⌋ := by
  unfold Magnitude.whole
  split_ifs with hexponent
  · obtain ⟨k, hk⟩ := Int.eq_ofNat_of_zero_le hexponent
    have integer : (m.significand : ℚ) * 2 ^ m.exponent = ((m.significand * 2 ^ k : ℕ) : ℤ) := by
      rw [hk, zpow_natCast]
      push_cast
      rfl
    rw [integer, Int.floor_intCast, hk, Int.toNat_natCast, Nat.pow_eq]
  · obtain ⟨k, hk⟩ := Int.eq_ofNat_of_zero_le (show 0 ≤ -m.exponent by omega)
    have exponent : m.exponent = -(k : ℤ) := by omega
    have quotient : (m.significand : ℚ) * 2 ^ m.exponent =
        (m.significand : ℚ) / ((2 ^ k : ℕ) : ℚ) := by
      rw [exponent, zpow_neg, zpow_natCast, div_eq_mul_inv]
      push_cast
      rfl
    rw [quotient, exponent, neg_neg, Int.toNat_natCast, Nat.pow_eq, Rat.floor_natCast_div_natCast]
    exact Int.natCast_div _ _

/-- Only a magnitude below `2 ^ 52` has a fraction. -/
theorem whole_lt (hm : m.significand < 2 ^ 53)
    (h : (m.whole : ℚ) ≠ m.significand * 2 ^ m.exponent) : m.whole < 2 ^ 52 := by
  unfold Magnitude.whole at h ⊢
  split_ifs with hexponent
  · obtain ⟨k, hk⟩ := Int.eq_ofNat_of_zero_le hexponent
    rw [if_pos hexponent, hk, Int.toNat_natCast, zpow_natCast, Nat.pow_eq] at h
    push_cast at h
    exact absurd rfl h
  · have half : 2 ≤ 2 ^ (-m.exponent).toNat := Nat.le_self_pow (by omega) 2
    calc m.significand / 2 ^ (-m.exponent).toNat ≤ m.significand / 2 :=
          Nat.div_le_div_left half two_pos
      _ < 2 ^ 52 := by omega

theorem significand_lt (h : decode x = some m) : m.significand < 2 ^ 53 := by
  have short : fractionBits x < 2 ^ 52 := Nat.mod_lt _ (Nat.two_pow_pos 52)
  simp only [decode] at h
  split_ifs at h <;> cases h
  · show fractionBits x < 2 ^ 53
    omega
  · show fractionBits x + 0x10000000000000 < 2 ^ 53
    omega

theorem exists_decode (hx : IsFinite (valueOf x)) : ∃ m, decode x = some m := by
  cases h : decode x with
  | none => exact absurd hx (not_isFinite_of_decode h)
  | some m => exact ⟨m, rfl⟩

theorem isFinite_one : IsFinite (valueOf 1.0) := trivial

/-- An integer that is not too large, less one. -/
theorem value_sub_one (hx : IsFinite (valueOf x)) (hn : value x = n) (hn' : |n - 1| ≤ 2 ^ 53) :
    IsFinite (valueOf (x - 1.0)) ∧ value (x - 1.0) = (n - 1 : ℤ) := by
  have integer : value x - value 1.0 = (n - 1 : ℤ) := by
    rw [hn, value_one, Int.cast_sub, Int.cast_one]
  have rounding := isRounding_sub hx isFinite_one (integer ▸ abs_intCast_le hn')
  rw [integer] at rounding
  exact ⟨rounding.finite, rounding.eq_of_onGrid (onGrid_intCast hn')⟩

/-- An integer that is not too large, and one. -/
theorem value_add_one (hx : IsFinite (valueOf x)) (hn : value x = n) (hn' : |n + 1| ≤ 2 ^ 53) :
    IsFinite (valueOf (x + 1.0)) ∧ value (x + 1.0) = (n + 1 : ℤ) := by
  have integer : value x + value 1.0 = (n + 1 : ℤ) := by
    rw [hn, value_one, Int.cast_add, Int.cast_one]
  have rounding := isRounding_add hx isFinite_one (integer ▸ abs_intCast_le hn')
  rw [integer] at rounding
  exact ⟨rounding.finite, rounding.eq_of_onGrid (onGrid_intCast hn')⟩

/-- Of a float that is not negative, the integer part toward zero is the one below. -/
theorem value_floor_of_positive (h : decode x = some m) (hsign : signOf x = .positive) :
    IsFinite (valueOf (floor x)) ∧ value (floor x) = ⌊value x⌋ := by
  obtain ⟨hx, magnitude⟩ := value_of_decode h
  obtain ⟨finite, cleared⟩ := value_towardZero h
  rw [hsign] at magnitude cleared
  have whole : value (towardZero x) = ⌊value x⌋ := by
    rw [cleared, magnitude]
    show (m.whole : ℚ) = ⌊(m.significand : ℚ) * 2 ^ m.exponent⌋
    rw [← whole_eq_floor, Int.cast_natCast]
  have notBelow : ¬ x < towardZero x := by
    rw [lt_iff_value_lt hx finite, whole]
    exact not_lt.2 (Int.floor_le _)
  simp only [floor, if_neg notBelow]
  exact ⟨finite, whole⟩

/-- Of a negative float, it is the one above, unless the float is an integer. -/
theorem value_floor_of_negative (h : decode x = some m) (hsign : signOf x = .negative) :
    IsFinite (valueOf (floor x)) ∧ value (floor x) = ⌊value x⌋ := by
  obtain ⟨hx, magnitude⟩ := value_of_decode h
  obtain ⟨finite, cleared⟩ := value_towardZero h
  rw [hsign] at magnitude cleared
  have part := whole_eq_floor m
  have bound := whole_lt (significand_lt h)
  obtain ⟨a, ha⟩ : ∃ a, (m.significand : ℚ) * 2 ^ m.exponent = a := ⟨_, rfl⟩
  rw [ha] at magnitude part bound
  obtain ⟨below, above⟩ := Int.floor_eq_iff.1 part.symm
  have truncated : value (towardZero x) = (-m.whole : ℤ) := by
    rw [cleared]
    push_cast
    rfl
  have negated : value x = -a := magnitude
  by_cases hwhole : (m.whole : ℚ) = a
  · have integer : value x = (-m.whole : ℤ) := by
      rw [negated, ← hwhole]
      push_cast
      rfl
    have notBelow : ¬ x < towardZero x := by
      rw [lt_iff_value_lt hx finite, truncated, integer]
      exact lt_irrefl _
    simp only [floor, if_neg notBelow]
    rw [integer, Int.floor_intCast]
    exact ⟨finite, truncated⟩
  · have strict : (m.whole : ℚ) < a := lt_of_le_of_ne (by exact_mod_cast below) hwhole
    have less : x < towardZero x := by
      rw [lt_iff_value_lt hx finite, truncated, negated]
      push_cast
      exact neg_lt_neg strict
    have short := bound hwhole
    have rounded : ⌊value x⌋ = -m.whole - 1 := by
      rw [negated, Int.floor_eq_iff]
      push_cast at above ⊢
      constructor <;> linarith
    simp only [floor, if_pos less]
    rw [rounded]
    exact value_sub_one finite truncated (abs_le.2 ⟨by omega, by omega⟩)

/-- The greatest integer not above a float. -/
theorem value_floor (hx : IsFinite (valueOf x)) :
    IsFinite (valueOf (floor x)) ∧ value (floor x) = ⌊value x⌋ := by
  obtain ⟨m, h⟩ := exists_decode hx
  cases hsign : signOf x with
  | positive => exact value_floor_of_positive h hsign
  | negative => exact value_floor_of_negative h hsign

/-- Infinities, and what is no number, have no integer part. -/
theorem wholePart?_floor_eq_none (hx : ¬ IsFinite (valueOf x)) : wholePart? (floor x) = none := by
  have undecoded : decode x = none := by
    cases h : decode x with
    | none => rfl
    | some m => exact absurd (value_of_decode h).1 hx
  have kept : floor x = x := by
    unfold floor
    rw [towardZero_of_large (by rw [decode_eq_none_iff.1 undecoded]; decide)]
    exact if_neg fun hlt => absurd ((lt_iff _ _).1 hlt).2.2 (lt_irrefl _)
  rw [kept, wholePart?, undecoded]
  rfl

/-- A float that is an integer. -/
theorem wholePart?_eq_some (hx : IsFinite (valueOf x)) (hn : value x = n) :
    wholePart? x = some n := by
  obtain ⟨m, h⟩ := exists_decode hx
  obtain ⟨-, magnitude⟩ := value_of_decode h
  have part := whole_eq_floor m
  rw [hn] at magnitude
  have here : wholePart? x = some ((signOf x).apply m.whole) := by
    rw [wholePart?, h, Option.map_some, signOf]
    cases isNegative x <;> rfl
  rw [here, Option.some.injEq]
  cases hsign : signOf x with
  | positive =>
    rw [hsign] at magnitude
    have integer : (m.significand : ℚ) * 2 ^ m.exponent = n := magnitude.symm
    rw [integer, Int.floor_intCast] at part
    exact part
  | negative =>
    rw [hsign] at magnitude
    have integer : (m.significand : ℚ) * 2 ^ m.exponent = (-n : ℤ) := by
      have : (n : ℚ) = -(m.significand * 2 ^ m.exponent) := magnitude
      rw [Int.cast_neg, this, neg_neg]
    rw [integer, Int.floor_intCast] at part
    show -(m.whole : ℤ) = n
    omega

/-- What is left of a float without its integer part is a value of the format, unless the float is
negative. -/
theorem onGrid_fract (hx : IsFinite (valueOf x)) (h : 0 ≤ value x) :
    OnGrid (Int.fract (value x)) := by
  obtain ⟨s, m, e, canonical, signed_eq⟩ := onGrid_value hx
  have nonneg : (0 : ℚ) ≤ m * 2 ^ e := mul_nonneg (Nat.cast_nonneg m) (zpow_pos two_pos e).le
  have magnitude : value x = m * 2 ^ e := by
    cases s with
    | positive => exact signed_eq
    | negative =>
      have negated : value x = -(m * 2 ^ e) := signed_eq
      linarith
  rcases le_or_gt 0 e with hexponent | hexponent
  · obtain ⟨k, rfl⟩ := Int.eq_ofNat_of_zero_le hexponent
    have integer : (m : ℚ) * 2 ^ (k : ℤ) = ((m * 2 ^ k : ℕ) : ℤ) := by
      rw [zpow_natCast]
      push_cast
      rfl
    rw [magnitude, integer, Int.fract_intCast]
    exact_mod_cast onGrid_intCast (p := 0) (by decide)
  · obtain ⟨k, hk⟩ := Int.eq_ofNat_of_zero_le (show 0 ≤ -e by omega)
    obtain rfl : e = -(k : ℤ) := by omega
    have quotient (n : ℕ) : (n : ℚ) * 2 ^ (-(k : ℤ)) = n / (2 ^ k : ℕ) := by
      rw [zpow_neg, zpow_natCast, div_eq_mul_inv]
      push_cast
      rfl
    rw [magnitude, quotient, Int.fract_div_natCast_eq_div_natCast_mod, ← quotient]
    exact onGrid_natCast_mul ((Nat.mod_le _ _).trans_lt canonical.short) canonical.low

theorem value_half : value 0.5 = 1 / 2 := by
  have half : valueOf 0.5 = .finite .positive (2 ^ 52) (-53) (by decide) := by rfl
  rw [(value_of_positive half).2]
  norm_num

theorem value_zero : value 0.0 = 0 := toRat_zero .positive

/-- What is left of a float that is not negative without its integer part is exact. -/
theorem value_sub_floor (hx : IsFinite (valueOf x)) (h : 0 ≤ value x) :
    IsFinite (valueOf (x - floor x)) ∧ value (x - floor x) = Int.fract (value x) := by
  obtain ⟨finite, whole⟩ := value_floor hx
  have difference : IsRounding (Int.fract (value x)) (x - floor x) := by
    have := isRounding_sub hx finite
    rw [whole, Int.self_sub_floor, abs_of_nonneg (Int.fract_nonneg _)] at this
    exact this ((Int.fract_lt_one _).le.trans (by norm_num))
  exact ⟨difference.finite, difference.eq_of_onGrid (onGrid_fract hx h)⟩

/-- The nearest integer, where there is one of less than 53 bits; a half goes up. -/
theorem value_nearest (hx : IsFinite (valueOf x)) (h : 0 ≤ value x) (h' : value x ≤ 2 ^ 52) :
    IsFinite (valueOf (Scalar.nearest x)) ∧ value (Scalar.nearest x) = round (value x) := by
  obtain ⟨finite, whole⟩ := value_floor hx
  obtain ⟨finite', fraction⟩ := value_sub_floor hx h
  have half : IsFinite (valueOf 0.5) := trivial
  have split := Int.fract_add_floor (value x)
  have small := Int.fract_lt_one (value x)
  have nonneg := Int.fract_nonneg (value x)
  have notBelow : ¬ x < 0.0 := by
    rw [lt_iff_value_lt hx (show IsFinite (valueOf 0.0) from trivial), value_zero]
    exact not_lt.2 h
  have here : Scalar.nearest x = if 0.5 ≤ x - floor x then floor x + 1.0 else floor x := by
    have truncated : Scalar.truncate x = floor x := if_neg notBelow
    show (if x < 0.0 then _ else if 0.5 ≤ x - Scalar.truncate x then Scalar.truncate x + 1.0 else
      Scalar.truncate x) = _
    rw [if_neg notBelow, truncated]
  rw [here]
  simp only [le_iff_value_le half finite', value_half, fraction, round_eq]
  split_ifs with hhalf
  · have low : 0 ≤ ⌊value x⌋ := Int.floor_nonneg.2 h
    have high : ⌊value x⌋ ≤ 2 ^ 52 := by exact_mod_cast (Int.floor_le _).trans h'
    have rounded : ⌊value x + 1 / 2⌋ = ⌊value x⌋ + 1 := by
      rw [Int.floor_eq_iff]
      push_cast
      constructor <;> linarith
    rw [rounded]
    exact value_add_one finite whole (abs_le.2 ⟨by omega, by omega⟩)
  · have rounded : ⌊value x + 1 / 2⌋ = ⌊value x⌋ := by
      rw [Int.floor_eq_iff]
      constructor <;> linarith
    rw [rounded]
    exact ⟨finite, whole⟩

end Whole

end ControlBlocks.Binary64
