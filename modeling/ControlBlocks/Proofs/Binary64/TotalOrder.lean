import ControlBlocks.Proofs.Binary64.Whole

/-!
# The total order of all values

Read as integers, the bits of floats are in the order of the numbers that they stand for.

* `Binary64.place` — the bits of a magnitude; `Canonical.place_lt_iff` — they ascend with it;
* `Binary64.exists_place` — every number has a magnitude, the infinite ones too;
* `Binary64.Encoding.orderKey_injective` — each encoding has a place of its own;
* `Binary64.totalLE_iff_number` — the total order of floats: numbers ascend, the negative zero
  stands before the positive one, and what is no number stands last;
* `Binary64.eq_of_units_eq` — equal numbers are the same float, unless they are the two zeros;
* `Binary64.Encoding.totalLE_iff_rank` — the total order of all encodings: what is no number stands
  before all numbers with a sign, and after all numbers without one.
-/

set_option autoImplicit false

namespace ControlBlocks.Binary64

open Encoding (ofFloat)
open Float.Model (Format UnpackedFloat)
open Float.Model.UnpackedFloat (Sign)
open TotalOrder (totalLE)

/-! ## Encodings -/

namespace Encoding

variable {p q : Encoding}

/-- Encodings are in the order of their places. -/
theorem totalLE_iff (p q : Encoding) : totalLE p q = true ↔ p.orderKey ≤ q.orderKey :=
  decide_eq_true_iff

/-- Each encoding has a place of its own. -/
theorem orderKey_injective (h : p.orderKey = q.orderKey) : p = q := by
  have small : p.bits.toNat < 2 ^ 64 := p.bits.toBitVec.isLt
  have small' : q.bits.toNat < 2 ^ 64 := q.bits.toBitVec.isLt
  have bits : p.bits.toNat = q.bits.toNat := by
    simp only [orderKey, isNegative, decide_eq_true_eq] at h
    split_ifs at h <;> omega
  obtain ⟨pbits⟩ := p
  obtain ⟨qbits⟩ := q
  obtain rfl : pbits = qbits := UInt64.toNat_inj.1 bits
  rfl

theorem ofFloat_injective {x y : Float} (h : ofFloat x = ofFloat y) : x = y := by
  obtain ⟨⟨xbits, _⟩⟩ := x
  obtain ⟨⟨ybits, _⟩⟩ := y
  obtain rfl : xbits = ybits := congrArg bits h
  rfl

end Encoding

/-! ## Magnitudes and their bits -/

section Places

variable {m m' : ℕ} {e e' : ℤ}

/-- The bits of a magnitude: the exponent, and then the significand without its leading one. -/
def place (m : ℕ) (e : ℤ) : ℤ := (e + 1074) * 2 ^ 52 + m

theorem Canonical.place_nonneg (h : Canonical m e) : 0 ≤ place m e := by
  have := h.low
  unfold place
  omega

theorem Canonical.place_lt_of_lt (h : Canonical m e) (h' : Canonical m' e') (he : e < e') :
    place m e < place m' e' := by
  have short := h.short
  have low := h.low
  have full : 2 ^ 52 ≤ m' := h'.full (by omega)
  unfold place
  omega

/-- Larger magnitudes have larger bits. -/
theorem Canonical.place_lt_iff (h : Canonical m e) (h' : Canonical m' e') :
    place m e < place m' e' ↔ steps m e < steps m' e' := by
  rcases lt_trichotomy e e' with hlt | rfl | hgt
  · exact iff_of_true (h.place_lt_of_lt h' hlt) (h.steps_lt_of_lt h' hlt)
  · have positive : 0 < 2 ^ (e + 1074).toNat := Nat.two_pow_pos _
    rw [steps, steps, Nat.mul_lt_mul_right positive]
    unfold place
    omega
  · exact iff_of_false (h'.place_lt_of_lt h hgt).not_gt (h'.steps_lt_of_lt h hgt).not_gt

end Places

/-! ## Floats and their bits -/

section Bits

variable {x y : Float}

/-- The bits of a float without the one for the sign. -/
def unsignedBits (x : Float) : ℕ := x.toBits.toNat % 2 ^ 63

theorem unsignedBits_eq (x : Float) :
    unsignedBits x = exponentBits x * 2 ^ 52 + fractionBits x := by
  have small : x.toBits.toNat < 2 ^ 64 := x.toBits.toBitVec.isLt
  unfold unsignedBits exponentBits fractionBits
  omega

/-- Floats with a sign come before all others, and those without one in the order of their bits. -/
theorem orderKey_ofFloat (x : Float) :
    (ofFloat x).orderKey = if isNegative x then -1 - (unsignedBits x : ℤ) else unsignedBits x := by
  have small : x.toBits.toNat < 2 ^ 64 := x.toBits.toBitVec.isLt
  have sign : (ofFloat x).isNegative = isNegative x := rfl
  have bits : (ofFloat x).bits = x.toBits := rfl
  rw [Encoding.orderKey, sign, bits]
  by_cases h : isNegative x = true
  · have high : 2 ^ 63 ≤ x.toBits.toNat := of_decide_eq_true h
    rw [if_pos h, if_pos h, unsignedBits]
    omega
  · have low : ¬ 2 ^ 63 ≤ x.toBits.toNat := fun high => h (decide_eq_true high)
    rw [if_neg h, if_neg h, unsignedBits]
    omega

/-- The magnitude of a finite float is one of the format, and has its bits. -/
theorem place_of_decode {m : Magnitude} (h : decode x = some m) :
    Canonical m.significand m.exponent ∧
      (unsignedBits x : ℤ) = place m.significand m.exponent := by
  have short : fractionBits x < 2 ^ 52 := Nat.mod_lt _ (Nat.two_pow_pos 52)
  have bits := unsignedBits_eq x
  simp only [decode] at h
  split_ifs at h with hinfinite hleast
  · cases h
    refine ⟨⟨?_, le_rfl, fun h => absurd h (lt_irrefl _)⟩, ?_⟩
    · show fractionBits x < 2 ^ 53
      omega
    · show (unsignedBits x : ℤ) = (-1074 + 1074) * 2 ^ 52 + (fractionBits x : ℕ)
      omega
  · cases h
    refine ⟨⟨?_, ?_, fun _ => ?_⟩, ?_⟩
    · show fractionBits x + 0x10000000000000 < 2 ^ 53
      omega
    · show -1074 ≤ (exponentBits x : ℤ) - 1075
      omega
    · show 2 ^ 52 ≤ fractionBits x + 0x10000000000000
      omega
    · show (unsignedBits x : ℤ) =
        ((exponentBits x : ℤ) - 1075 + 1074) * 2 ^ 52 + (fractionBits x + 0x10000000000000 : ℕ)
      omega

theorem units_of_decode {m : Magnitude} (h : decode x = some m) :
    units (valueOf x) = (signOf x).apply (steps m.significand m.exponent) := by
  obtain ⟨⟨-, low, -⟩, -⟩ := place_of_decode h
  have value := (value_of_decode h).2
  rcases Nat.eq_zero_or_pos m.significand with hzero | pos
  · rw [hzero, Nat.cast_zero, zero_mul, signed_zero] at value
    rw [toRat_eq_zero_iff.1 value, hzero, steps, Nat.zero_mul]
    cases signOf x <;> rfl
  · rw [← @toRat_finite _ _ _ pos low] at value
    exact le_antisymm (toRat_le_iff.1 value.le) (toRat_le_iff.1 value.ge)

/-- A number that is not finite has the bits that follow those of all finite ones. -/
theorem infinity_of_decode (h : decode x = none) (hx : IsNumber (valueOf x)) :
    (unsignedBits x : ℤ) = place (2 ^ 52) 972 ∧ units (valueOf x) = (signOf x).apply beyond := by
  have bits := unsignedBits_eq x
  have exponent := decode_eq_none_iff.1 h
  rw [valueOf_eq_unpack] at hx ⊢
  unfold UnpackedFloat.unpack at hx ⊢
  rw [if_pos (unpackExponent_eq_iff.2 exponent)] at hx ⊢
  by_cases hfraction : fractionBits x = 0
  · rw [if_pos (unpackMantissa_eq_iff.2 hfraction), ofBitVec_unpackSign]
    refine ⟨?_, rfl⟩
    unfold place
    omega
  · rw [if_neg (mt unpackMantissa_eq_iff.1 hfraction)] at hx
    exact absurd rfl hx

/-- A number has a magnitude, which may be the infinite one; with its sign, that is the number, and
with its sign the bits are the place in the total order. -/
theorem exists_place (hx : IsNumber (valueOf x)) :
    ∃ m e, Canonical m e ∧
      (isNegative x = true ∧ units (valueOf x) = -(steps m e : ℤ) ∧
          (ofFloat x).orderKey = -1 - place m e ∨
        isNegative x = false ∧ units (valueOf x) = steps m e ∧
          (ofFloat x).orderKey = place m e) := by
  obtain ⟨m, e, canonical, bits, units⟩ : ∃ m e, Canonical m e ∧
      (unsignedBits x : ℤ) = place m e ∧ units (valueOf x) = (signOf x).apply (steps m e) := by
    cases h : decode x with
    | none => exact ⟨2 ^ 52, 972, canonical_beyond, infinity_of_decode h hx⟩
    | some m =>
      obtain ⟨canonical, bits⟩ := place_of_decode h
      exact ⟨m.significand, m.exponent, canonical, bits, units_of_decode h⟩
  refine ⟨m, e, canonical, ?_⟩
  rw [orderKey_ofFloat, bits, units, signOf]
  cases isNegative x with
  | false => exact .inr ⟨rfl, rfl, rfl⟩
  | true => exact .inl ⟨rfl, rfl, rfl⟩

/-- There is only one float that is no number. -/
theorem eq_of_not_isNumber (hx : ¬ IsNumber (valueOf x)) : x = 0.0 / 0.0 := by
  have none : valueOf x = .notANumber := not_not.1 hx
  rw [valueOf_eq_unpack] at none
  unfold UnpackedFloat.unpack at none
  extract_lets mantissa exponent at none
  have infinite : exponent = -1#_ := by
    by_contra hfinite
    rw [if_neg hfinite] at none
    split_ifs at none
  have fraction : mantissa ≠ 0#_ := by
    intro hzero
    rw [if_pos infinite, if_pos hzero] at none
    cases none
  have bits : bitsOf x = UnpackedFloat.packedNaN Format.binary64 :=
    x.toModel.valid.eq_packedNaN infinite fraction
  exact Encoding.ofFloat_injective (congrArg Encoding.mk (UInt64.toBitVec_inj.1 bits))

/-! ## The order -/

/-- What is no number comes after all numbers. -/
theorem lt_orderKey_of_not_isNumber (hx : IsNumber (valueOf x)) (hy : ¬ IsNumber (valueOf y)) :
    (ofFloat x).orderKey < (ofFloat y).orderKey := by
  obtain ⟨m, e, canonical, signs⟩ := exists_place hx
  have key : (ofFloat (0.0 / 0.0)).orderKey = place (2 ^ 52) 972 + 2 ^ 51 := by decide
  have within := units_mem_beyond (inFormat_valueOf x) hx
  have last : place m e ≤ place (2 ^ 52) 972 := by
    rw [← not_lt, canonical_beyond.place_lt_iff canonical, not_lt]
    show steps m e ≤ beyond
    omega
  have nonneg := canonical.place_nonneg
  rw [eq_of_not_isNumber hy, key]
  omega

/-- **The total order of floats.**  Numbers ascend; of equal numbers, which are the same float or
the two zeros, the negative one stands before the positive one; what is no number stands last. -/
theorem totalLE_iff_number (x y : Float) :
    totalLE x y = true ↔ ¬ IsNumber (valueOf y) ∨ x < y ∨
      (x == y) = true ∧ (isNegative y = true → isNegative x = true) := by
  have encoded : totalLE x y = totalLE (ofFloat x) (ofFloat y) := rfl
  rw [encoded, Encoding.totalLE_iff, lt_iff, beq_iff]
  by_cases hy : IsNumber (valueOf y)
  · by_cases hx : IsNumber (valueOf x)
    · obtain ⟨m, e, canonical, signs⟩ := exists_place hx
      obtain ⟨m', e', canonical', signs'⟩ := exists_place hy
      have less := canonical.place_lt_iff canonical'
      have greater := canonical'.place_lt_iff canonical
      have nonneg := canonical.place_nonneg
      have nonneg' := canonical'.place_nonneg
      simp only [hx, hy, true_and, not_true_eq_false, false_or]
      rcases signs with ⟨sign, units, key⟩ | ⟨sign, units, key⟩
      · rcases signs' with ⟨sign', units', key'⟩ | ⟨sign', units', key'⟩
        · simp only [sign, units, units', key, key', implies_true, and_true]
          omega
        · simp only [sign, units, units', key, key', implies_true, and_true]
          omega
      · rcases signs' with ⟨sign', units', key'⟩ | ⟨sign', units', key'⟩
        · simp only [sign, sign', units, units', key, key', Bool.false_eq_true, imp_false,
            not_true_eq_false, and_false, or_false]
          omega
        · simp only [sign', units, units', key, key', Bool.false_eq_true, false_implies, and_true]
          omega
    · have last := lt_orderKey_of_not_isNumber hy hx
      exact iff_of_false (not_le.2 last) (by simp [hx, hy])
  · refine iff_of_true ?_ (.inl hy)
    by_cases hx : IsNumber (valueOf x)
    · exact (lt_orderKey_of_not_isNumber hx hy).le
    · rw [eq_of_not_isNumber hx, eq_of_not_isNumber hy]

/-- Equal numbers are the same float, unless one has a sign and the other has none. -/
theorem eq_of_units_eq (hx : IsNumber (valueOf x)) (hy : IsNumber (valueOf y))
    (hunits : units (valueOf x) = units (valueOf y)) (hsign : isNegative x = isNegative y) :
    x = y := by
  have equal : (x == y) = true := (beq_iff x y).2 ⟨hx, hy, hunits⟩
  have equal' : (y == x) = true := (beq_iff y x).2 ⟨hy, hx, hunits.symm⟩
  have below := (totalLE_iff_number x y).2 (.inr (.inr ⟨equal, fun h => hsign ▸ h⟩))
  have above := (totalLE_iff_number y x).2 (.inr (.inr ⟨equal', fun h => hsign ▸ h⟩))
  exact Encoding.ofFloat_injective (Encoding.orderKey_injective
    (le_antisymm (of_decide_eq_true below) (of_decide_eq_true above)))

end Bits

/-! ## The order of all encodings -/

namespace Encoding

variable {p q : Encoding}

/-- The float of an encoding; of the values that are no numbers, it is the one that there is. -/
def toFloat (p : Encoding) : Float := Float.ofBits p.bits

/-- The encoding stands for a number, finite or infinite. -/
def IsNumber (p : Encoding) : Prop := p.bits.toNat % 2 ^ 63 ≤ 0x7ff0000000000000

instance (p : Encoding) : Decidable p.IsNumber := by
  unfold IsNumber
  infer_instance

/-- Numbers are the encodings of floats. -/
theorem ofFloat_toFloat (h : p.IsNumber) : ofFloat p.toFloat = p := by
  unfold IsNumber at h
  exact congrArg mk (toBits_ofBits fun hexponent => by omega)

/-- Where an encoding stands: before all numbers, among them, or after them. -/
def rank (p : Encoding) : ℕ := if p.IsNumber then 1 else if p.isNegative then 0 else 2

/-- First come the encodings with a sign that are no numbers, and last those without a sign. -/
theorem rank_cases (p : Encoding) :
    p.rank = 0 ∧ p.isNegative = true ∧ p.orderKey < -1 - 0x7ff0000000000000 ∨
      p.rank = 1 ∧ p.IsNumber ∧ -1 - 0x7ff0000000000000 ≤ p.orderKey ∧
        p.orderKey ≤ 0x7ff0000000000000 ∨
      p.rank = 2 ∧ p.isNegative = false ∧ 0x7ff0000000000000 < p.orderKey := by
  have small : p.bits.toNat < 2 ^ 64 := p.bits.toBitVec.isLt
  unfold rank orderKey
  by_cases hnumber : p.IsNumber
  · have within : p.bits.toNat % 2 ^ 63 ≤ 0x7ff0000000000000 := hnumber
    rw [if_pos hnumber]
    refine .inr (.inl ⟨rfl, hnumber, ?_⟩)
    cases hsign : p.isNegative with
    | true =>
      have high : 2 ^ 63 ≤ p.bits.toNat := of_decide_eq_true hsign
      rw [if_pos rfl]
      omega
    | false =>
      have low : ¬ 2 ^ 63 ≤ p.bits.toNat := of_decide_eq_false hsign
      rw [if_neg Bool.false_ne_true]
      omega
  · have beyond : ¬ p.bits.toNat % 2 ^ 63 ≤ 0x7ff0000000000000 := hnumber
    rw [if_neg hnumber]
    cases hsign : p.isNegative with
    | true =>
      have high : 2 ^ 63 ≤ p.bits.toNat := of_decide_eq_true hsign
      rw [if_pos rfl, if_pos rfl]
      exact .inl ⟨rfl, rfl, by omega⟩
    | false =>
      have low : ¬ 2 ^ 63 ≤ p.bits.toNat := of_decide_eq_false hsign
      rw [if_neg Bool.false_ne_true, if_neg Bool.false_ne_true]
      exact .inr (.inr ⟨rfl, rfl, by omega⟩)

theorem orderKey_lt_of_rank_lt (h : p.rank < q.rank) : p.orderKey < q.orderKey := by
  have first := rank_cases p
  have second := rank_cases q
  omega

/-- **The total order of all values.**  What is no number stands before all numbers with a sign, the
largest bits first, and after all numbers without one, the largest bits last; between them, numbers
are in the order of floats. -/
theorem totalLE_iff_rank (p q : Encoding) :
    totalLE p q = true ↔ p.rank < q.rank ∨
      p.rank = 0 ∧ q.rank = 0 ∧ q.bits ≤ p.bits ∨
      p.rank = 1 ∧ q.rank = 1 ∧ totalLE p.toFloat q.toFloat = true ∨
      p.rank = 2 ∧ q.rank = 2 ∧ p.bits ≤ q.bits := by
  rw [totalLE_iff]
  rcases lt_trichotomy p.rank q.rank with hlt | heq | hgt
  case inl => exact iff_of_true (orderKey_lt_of_rank_lt hlt).le (.inl hlt)
  case inr.inr =>
    refine iff_of_false (orderKey_lt_of_rank_lt hgt).not_ge ?_
    rintro (h | ⟨h, h', -⟩ | ⟨h, h', -⟩ | ⟨h, h', -⟩) <;> omega
  case inr.inl =>
    rcases rank_cases p with ⟨hp, sign, -⟩ | ⟨hp, number, -⟩ | ⟨hp, sign, -⟩
    · rcases rank_cases q with ⟨hq, sign', -⟩ | ⟨hq, -⟩ | ⟨hq, -⟩
      · have backwards : p.orderKey ≤ q.orderKey ↔ q.bits ≤ p.bits := by
          rw [orderKey, orderKey, if_pos sign, if_pos sign', UInt64.le_iff_toNat_le]
          omega
        simp [hp, hq, backwards]
      · omega
      · omega
    · rcases rank_cases q with ⟨hq, -⟩ | ⟨hq, number', -⟩ | ⟨hq, -⟩
      · omega
      · have floats : totalLE p.toFloat q.toFloat = true ↔ p.orderKey ≤ q.orderKey := by
          rw [← totalLE_iff]
          exact iff_of_eq (congrArg (· = true)
            (congrArg₂ totalLE (ofFloat_toFloat number) (ofFloat_toFloat number')))
        simp [hp, hq, floats]
      · omega
    · rcases rank_cases q with ⟨hq, -⟩ | ⟨hq, -⟩ | ⟨hq, sign', -⟩
      · omega
      · omega
      · have forwards : p.orderKey ≤ q.orderKey ↔ p.bits ≤ q.bits := by
          rw [orderKey, orderKey, if_neg (Bool.eq_false_iff.1 sign),
            if_neg (Bool.eq_false_iff.1 sign'), UInt64.le_iff_toNat_le]
          omega
        simp [hp, hq, forwards]

end Encoding

end ControlBlocks.Binary64
