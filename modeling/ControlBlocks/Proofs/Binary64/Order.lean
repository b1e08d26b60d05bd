import ControlBlocks.Numeric.Binary64
import Mathlib.Algebra.Order.Ring.Int
import Mathlib.Algebra.Order.Ring.Nat
import Mathlib.Order.Compare

/-!
# The order of binary floating point

Comparing two values is comparing two integers.

* `Binary64.Canonical` — the significands and exponents of the format; the exponent may be too
  large for it;
* `Binary64.units` — a value as an integer, in units of the smallest positive one;
* `Binary64.inFormat_valueOf` — the value of a float is one of the format;
* `Binary64.lt_iff`, `le_iff`, `beq_iff` — the order, and which values have one;
* `Binary64.not_infinity_lt`, `not_lt_neg_infinity` — its ends.
-/

set_option autoImplicit false

namespace ControlBlocks.Binary64

open Float.Model (Format UnpackedFloat)
open Float.Model.UnpackedFloat (Sign)

/-! ## Significands and exponents -/

/-- A significand of 53 bits, and of all of them unless the exponent is the least one. -/
structure Canonical (m : ℕ) (e : ℤ) : Prop where
  short : m < 2 ^ 53
  low : -1074 ≤ e
  full : -1074 < e → 2 ^ 52 ≤ m

/-- A magnitude `m * 2 ^ e` in units of `2 ^ (-1074)`. -/
def steps (m : ℕ) (e : ℤ) : ℕ := m * 2 ^ (e + 1074).toNat

/-- Where the infinities are in the order: at the first magnitude that is too large. -/
def beyond : ℕ := steps (2 ^ 52) 972

section Canonical

variable {m m' : ℕ} {e e' : ℤ}

theorem steps_pos (hm : 0 < m) : 0 < steps m e := Nat.mul_pos hm (Nat.two_pow_pos _)

theorem steps_lt (hm : m < 2 ^ 53) : steps m e < 2 ^ (53 + (e + 1074).toNat) := by
  rw [pow_add]
  exact Nat.mul_lt_mul_of_pos_right hm (Nat.two_pow_pos _)

/-- A larger exponent makes a larger magnitude. -/
theorem Canonical.steps_lt_of_lt (h : Canonical m e) (h' : Canonical m' e') (he : e < e') :
    steps m e < steps m' e' := by
  have low := h.low
  have full : 2 ^ 52 ≤ m' := h'.full (by omega)
  calc steps m e < 2 ^ (53 + (e + 1074).toNat) := steps_lt h.short
    _ ≤ 2 ^ (52 + (e' + 1074).toNat) := Nat.pow_le_pow_right (by omega) (by omega)
    _ = 2 ^ 52 * 2 ^ (e' + 1074).toNat := by rw [pow_add]
    _ ≤ steps m' e' := Nat.mul_le_mul_right _ full

theorem canonical_beyond : Canonical (2 ^ 52) 972 where
  short := by decide
  low := by decide
  full := fun _ => le_rfl

theorem Canonical.steps_lt_beyond (h : Canonical m e) (he : e ≤ 971) : steps m e < beyond :=
  h.steps_lt_of_lt canonical_beyond (by omega)

theorem Canonical.beyond_le_steps (h : Canonical m e) (he : 971 < e) : beyond ≤ steps m e := by
  rcases (show 972 ≤ e by omega).lt_or_eq with hlt | rfl
  · exact (canonical_beyond.steps_lt_of_lt h hlt).le
  · exact Nat.mul_le_mul_right _ (h.full (by decide))

/-- Magnitudes are compared by their exponents, and then by their significands. -/
theorem Canonical.compare_steps (h : Canonical m e) (h' : Canonical m' e') :
    compare (steps m e) (steps m' e') = (compare e e').then (compare m m') := by
  rcases lt_trichotomy e e' with hlt | rfl | hgt
  · rw [compare_lt_iff_lt.2 hlt, compare_lt_iff_lt.2 (h.steps_lt_of_lt h' hlt)]
    rfl
  · have same : compare (steps m e) (steps m' e) = compare m m' := by
      have positive : 0 < 2 ^ (e + 1074).toNat := Nat.two_pow_pos _
      rcases lt_trichotomy m m' with hlt | rfl | hgt
      · rw [compare_lt_iff_lt.2 hlt]
        exact compare_lt_iff_lt.2 (Nat.mul_lt_mul_of_pos_right hlt positive)
      · rw [compare_eq_iff_eq.2 rfl, compare_eq_iff_eq.2 rfl]
      · rw [compare_gt_iff_gt.2 hgt]
        exact compare_gt_iff_gt.2 (Nat.mul_lt_mul_of_pos_right hgt positive)
    rw [same, compare_eq_iff_eq.2 rfl]
    rfl
  · rw [compare_gt_iff_gt.2 hgt, compare_gt_iff_gt.2 (h'.steps_lt_of_lt h hgt)]
    rfl

end Canonical

/-! ## Values -/

/-- A value that is a number, infinite ones among them. -/
def IsNumber (f : UnpackedFloat) : Prop := f ≠ .notANumber

/-- A number that is not infinite. -/
def IsFinite : UnpackedFloat → Prop
  | .zero _ => True
  | .finite .. => True
  | _ => False

/-- The value in units of the smallest positive one; an infinity stands beyond all others. -/
def units : UnpackedFloat → ℤ
  | .infinity s => s.apply beyond
  | .notANumber => 0
  | .zero _ => 0
  | .finite s m e _ => s.apply (steps m e)

/-- The significand and the exponent are those of the format, but the exponent may be too large. -/
def Rounded : UnpackedFloat → Prop
  | .finite _ m e _ => Canonical m e
  | _ => True

/-- A value of the format. -/
def InFormat : UnpackedFloat → Prop
  | .finite _ m e _ => Canonical m e ∧ e ≤ 971
  | _ => True

section Values

variable {f g : UnpackedFloat}

theorem InFormat.rounded (hf : InFormat f) : Rounded f := by
  cases f with
  | notANumber => trivial
  | infinity s => trivial
  | zero s => trivial
  | finite s m e pos => exact hf.1

theorem IsFinite.isNumber (hf : IsFinite f) : IsNumber f := by
  rintro rfl
  exact hf

/-- A number that is not finite is infinite. -/
theorem IsNumber.exists_eq_infinity (hf : IsNumber f) (h : ¬ IsFinite f) :
    ∃ s, f = .infinity s := by
  cases f with
  | notANumber => exact absurd rfl hf
  | infinity s => exact ⟨s, rfl⟩
  | zero s => exact absurd trivial h
  | finite s m e pos => exact absurd trivial h

theorem beyond_pos : 0 < beyond := steps_pos (Nat.two_pow_pos 52)

theorem units_infinity_neg : units (.infinity .negative) < 0 :=
  neg_lt_zero.2 (Int.natCast_pos.2 beyond_pos)

theorem units_infinity_pos : 0 < units (.infinity .positive) := Int.natCast_pos.2 beyond_pos

theorem units_finite_neg {m : ℕ} {e : ℤ} (pos : 0 < m) : units (.finite .negative m e pos) < 0 :=
  neg_lt_zero.2 (Int.natCast_pos.2 (steps_pos pos))

theorem units_finite_pos {m : ℕ} {e : ℤ} (pos : 0 < m) : 0 < units (.finite .positive m e pos) :=
  Int.natCast_pos.2 (steps_pos pos)

/-- The finite values of the format lie between the infinities. -/
theorem units_mem (hf : InFormat f) (hf' : IsFinite f) :
    -(beyond : ℤ) < units f ∧ units f < beyond := by
  have far := beyond_pos
  cases f with
  | notANumber => exact hf'.elim
  | infinity s => exact hf'.elim
  | zero s =>
    show -(beyond : ℤ) < 0 ∧ (0 : ℤ) < beyond
    omega
  | finite s m e pos =>
    have inside : steps m e < beyond := hf.1.steps_lt_beyond hf.2
    cases s with
    | negative =>
      show -(beyond : ℤ) < -(steps m e : ℤ) ∧ -(steps m e : ℤ) < beyond
      omega
    | positive =>
      show -(beyond : ℤ) < steps m e ∧ (steps m e : ℤ) < beyond
      omega

/-- The units of all values of the format. -/
theorem units_mem_beyond (hf : InFormat f) (hf' : IsNumber f) :
    -(beyond : ℤ) ≤ units f ∧ units f ≤ beyond := by
  by_cases hfinite : IsFinite f
  · exact (units_mem hf hfinite).imp le_of_lt le_of_lt
  · have far := beyond_pos
    obtain ⟨s, rfl⟩ := hf'.exists_eq_infinity hfinite
    cases s with
    | negative =>
      show -(beyond : ℤ) ≤ -beyond ∧ -(beyond : ℤ) ≤ beyond
      omega
    | positive =>
      show -(beyond : ℤ) ≤ beyond ∧ (beyond : ℤ) ≤ beyond
      omega

theorem eq_some_compare_of_lt {o : Option Ordering} {a b : ℤ} (ho : o = some .lt) (hab : a < b) :
    o = some (compare a b) := by
  rw [ho, compare_lt_iff_lt.2 hab]

theorem eq_some_compare_of_gt {o : Option Ordering} {a b : ℤ} (ho : o = some .gt) (hab : b < a) :
    o = some (compare a b) := by
  rw [ho, compare_gt_iff_gt.2 hab]

theorem eq_some_compare_self {o : Option Ordering} (a : ℤ) (ho : o = some .eq) :
    o = some (compare a a) := by
  rw [ho, compare_eq_iff_eq.2 rfl]

theorem compare_natCast (a b : ℕ) : compare (a : ℤ) b = compare a b := by
  rcases lt_trichotomy a b with hlt | rfl | hgt
  · rw [compare_lt_iff_lt.2 hlt, compare_lt_iff_lt.2 (Int.ofNat_lt.2 hlt)]
  · rw [compare_eq_iff_eq.2 rfl, compare_eq_iff_eq.2 rfl]
  · rw [compare_gt_iff_gt.2 hgt, compare_gt_iff_gt.2 (Int.ofNat_lt.2 hgt)]

theorem compare_neg_natCast (a b : ℕ) : compare (-a : ℤ) (-b) = (compare a b).swap := by
  rcases lt_trichotomy a b with hlt | rfl | hgt
  · rw [compare_lt_iff_lt.2 hlt, compare_gt_iff_gt.2 (neg_lt_neg (Int.ofNat_lt.2 hlt))]
    rfl
  · rw [compare_eq_iff_eq.2 rfl, compare_eq_iff_eq.2 rfl]
    rfl
  · rw [compare_gt_iff_gt.2 hgt, compare_lt_iff_lt.2 (neg_lt_neg (Int.ofNat_lt.2 hgt))]
    rfl

theorem compare_finite {s s' : Sign} {m m' : ℕ} {e e' : ℤ} {pos : 0 < m} {pos' : 0 < m'}
    (h : Canonical m e) (h' : Canonical m' e') :
    (UnpackedFloat.finite s m e pos).compare (.finite s' m' e' pos') =
      some (compare (units (.finite s m e pos)) (units (.finite s' m' e' pos'))) := by
  cases s with
  | negative =>
    cases s' with
    | negative =>
      show some ((compare e e').then (compare m m')).swap =
        some (compare (-steps m e : ℤ) (-steps m' e'))
      rw [compare_neg_natCast, h.compare_steps h']
    | positive =>
      exact eq_some_compare_of_lt rfl ((units_finite_neg pos).trans (units_finite_pos pos'))
  | positive =>
    cases s' with
    | negative =>
      exact eq_some_compare_of_gt rfl ((units_finite_neg pos').trans (units_finite_pos pos))
    | positive =>
      show some ((compare e e').then (compare m m')) =
        some (compare (steps m e : ℤ) (steps m' e'))
      rw [compare_natCast, h.compare_steps h']

/-- What is no number has no place in the order. -/
theorem compare_eq_none (h : ¬ (IsNumber f ∧ IsNumber g)) : f.compare g = none := by
  by_cases hf : f = .notANumber
  · rw [hf]
    rfl
  · have hg : g = .notANumber := by
      by_contra hg
      exact h ⟨hf, hg⟩
    rw [hg]
    cases f <;> rfl

/-- Numbers of the format are in the order of their units. -/
theorem compare_eq (hf : InFormat f) (hg : InFormat g) (hf' : IsNumber f) (hg' : IsNumber g) :
    f.compare g = some (compare (units f) (units g)) := by
  cases f with
  | notANumber => exact absurd rfl hf'
  | infinity s =>
    cases g with
    | notANumber => exact absurd rfl hg'
    | infinity s' =>
      cases s with
      | negative =>
        cases s' with
        | negative => exact eq_some_compare_self _ rfl
        | positive =>
          exact eq_some_compare_of_lt rfl (units_infinity_neg.trans units_infinity_pos)
      | positive =>
        cases s' with
        | negative =>
          exact eq_some_compare_of_gt rfl (units_infinity_neg.trans units_infinity_pos)
        | positive => exact eq_some_compare_self _ rfl
    | zero s' =>
      obtain ⟨above, below⟩ := units_mem hg trivial
      cases s with
      | negative => exact eq_some_compare_of_lt rfl above
      | positive => exact eq_some_compare_of_gt rfl below
    | finite s' m' e' pos' =>
      obtain ⟨above, below⟩ := units_mem hg trivial
      cases s with
      | negative => exact eq_some_compare_of_lt rfl above
      | positive => exact eq_some_compare_of_gt rfl below
  | zero s =>
    cases g with
    | notANumber => exact absurd rfl hg'
    | infinity s' =>
      obtain ⟨above, below⟩ := units_mem hf trivial
      cases s' with
      | negative => exact eq_some_compare_of_gt rfl above
      | positive => exact eq_some_compare_of_lt rfl below
    | zero s' => exact eq_some_compare_self 0 rfl
    | finite s' m' e' pos' =>
      cases s' with
      | negative => exact eq_some_compare_of_gt rfl (units_finite_neg pos')
      | positive => exact eq_some_compare_of_lt rfl (units_finite_pos pos')
  | finite s m e pos =>
    cases g with
    | notANumber => exact absurd rfl hg'
    | infinity s' =>
      obtain ⟨above, below⟩ := units_mem hf trivial
      cases s' with
      | negative => exact eq_some_compare_of_gt (by cases s <;> rfl) above
      | positive => exact eq_some_compare_of_lt (by cases s <;> rfl) below
    | zero s' =>
      cases s with
      | negative => exact eq_some_compare_of_lt rfl (units_finite_neg pos)
      | positive => exact eq_some_compare_of_gt rfl (units_finite_pos pos)
    | finite s' m' e' pos' => exact compare_finite hf.1 hg.1

end Values

/-! ## Floats -/

/-- The leading bit of a significand is not stored. -/
theorem toNat_one_append {w : ℕ} (v : BitVec w) : (1#1 ++ v).toNat = 2 ^ w + v.toNat := by
  rw [BitVec.toNat_append, ← Nat.shiftLeft_add_eq_or_of_lt v.isLt, Nat.shiftLeft_eq]
  simp

theorem inFormat_unpack (b : BitVec Format.binary64.numBits) :
    InFormat (UnpackedFloat.unpack Format.binary64 b) := by
  unfold UnpackedFloat.unpack
  extract_lets mantissa exponent unbiased signBit sign
  have short : mantissa.toNat < 2 ^ 52 := BitVec.isLt _
  have eleven : exponent.toNat < 2 ^ 11 := BitVec.isLt _
  have bias : (Format.binary64.exponentBias : ℤ) + Format.binary64.mantissaBitsWithoutImplicit =
    1075 := by decide
  have unit : unbiased = exponent.toNat - 1075 := congrArg ((exponent.toNat : ℤ) - ·) bias
  by_cases hfinite : exponent = -1#_
  · rw [if_pos hfinite]
    by_cases hzero : mantissa = 0#_
    · rw [if_pos hzero]
      trivial
    · rw [if_neg hzero]
      trivial
  · rw [if_neg hfinite]
    by_cases hnormal : exponent = 0#_
    · rw [if_pos hnormal]
      by_cases hzero : mantissa = 0#_
      · rw [dif_pos hzero]
        trivial
      · rw [dif_neg hzero]
        have least : exponent.toNat = 0 := congrArg BitVec.toNat hnormal
        exact ⟨⟨by omega, by omega, by omega⟩, by omega⟩
    · rw [if_neg hnormal]
      have positive : exponent.toNat ≠ 0 := fun h => hnormal (BitVec.eq_of_toNat_eq h)
      have small : exponent.toNat ≠ 2047 := fun h => hfinite (BitVec.eq_of_toNat_eq h)
      have whole : (1#1 ++ mantissa).toNat = 2 ^ 52 + mantissa.toNat := toNat_one_append _
      exact ⟨⟨by omega, by omega, by omega⟩, by omega⟩

/-- The value of a float. -/
def valueOf (x : Float) : UnpackedFloat := x.toModel.unpack

theorem inFormat_valueOf (x : Float) : InFormat (valueOf x) := inFormat_unpack _

/-- A float is less than another just if both are numbers and it has fewer units. -/
theorem lt_iff (x y : Float) :
    x < y ↔ IsNumber (valueOf x) ∧ IsNumber (valueOf y) ∧
      units (valueOf x) < units (valueOf y) := by
  have here : x < y ↔ (valueOf x).compare (valueOf y) = some .lt := by
    have model : x < y ↔ decide (x.toModel < y.toModel) = true := Iff.rfl
    rw [model, decide_eq_true_iff]
    exact beq_iff_eq
  rw [here, ← and_assoc]
  by_cases h : IsNumber (valueOf x) ∧ IsNumber (valueOf y)
  · rw [compare_eq (inFormat_valueOf x) (inFormat_valueOf y) h.1 h.2, Option.some.injEq,
      compare_lt_iff_lt, and_iff_right h]
  · rw [compare_eq_none h]
    exact iff_of_false (by simp) fun hlt => h hlt.1

theorem le_iff (x y : Float) :
    x ≤ y ↔ IsNumber (valueOf x) ∧ IsNumber (valueOf y) ∧
      units (valueOf x) ≤ units (valueOf y) := by
  have here : x ≤ y ↔ ((valueOf x).compare (valueOf y)).any (·.isLE) = true := by
    have model : x ≤ y ↔ decide (x.toModel ≤ y.toModel) = true := Iff.rfl
    rw [model, decide_eq_true_iff]
    exact Iff.rfl
  rw [here, ← and_assoc]
  by_cases h : IsNumber (valueOf x) ∧ IsNumber (valueOf y)
  · rw [compare_eq (inFormat_valueOf x) (inFormat_valueOf y) h.1 h.2, Option.any_some,
      Ordering.isLE_iff_ne_gt, compare_gt_iff_gt, not_lt, and_iff_right h]
  · rw [compare_eq_none h]
    exact iff_of_false (by simp) fun hle => h hle.1

theorem beq_iff (x y : Float) :
    (x == y) = true ↔ IsNumber (valueOf x) ∧ IsNumber (valueOf y) ∧
      units (valueOf x) = units (valueOf y) := by
  have here : (x == y) = true ↔ (valueOf x).compare (valueOf y) = some .eq := by
    have model : (x == y) = true ↔ ((valueOf x).compare (valueOf y) == some .eq) = true := Iff.rfl
    rw [model]
    exact beq_iff_eq
  rw [here, ← and_assoc]
  by_cases h : IsNumber (valueOf x) ∧ IsNumber (valueOf y)
  · rw [compare_eq (inFormat_valueOf x) (inFormat_valueOf y) h.1 h.2, Option.some.injEq,
      compare_eq_iff_eq, and_iff_right h]
  · rw [compare_eq_none h]
    exact iff_of_false (by simp) fun heq => h heq.1

/-- The numbers are the values that are at most themselves. -/
theorem le_self_iff (x : Float) : x ≤ x ↔ IsNumber (valueOf x) := by
  rw [le_iff]
  exact ⟨fun h => h.1, fun h => ⟨h, h, le_rfl⟩⟩

theorem lt_infinity_of_lt {x y : Float} (h : x < y) : x < (1.0 / 0.0 : Float) := by
  obtain ⟨hx, hy, hlt⟩ := (lt_iff _ _).1 h
  have infinite : valueOf (1.0 / 0.0) = .infinity .positive := by rfl
  refine (lt_iff _ _).2 ⟨hx, ?_, ?_⟩
  · rw [infinite]
    exact UnpackedFloat.noConfusion
  · rw [infinite]
    exact hlt.trans_le (units_mem_beyond (inFormat_valueOf y) hy).2

/-- No value is above the positive infinity. -/
theorem not_infinity_lt (x : Float) : ¬ (1.0 / 0.0 : Float) < x := by
  intro h
  obtain ⟨-, number, hlt⟩ := (lt_iff _ _).1 h
  have infinite : valueOf (1.0 / 0.0) = .infinity .positive := by rfl
  rw [infinite] at hlt
  exact absurd hlt (not_lt.2 (units_mem_beyond (inFormat_valueOf x) number).2)

/-- No value is below the negative one. -/
theorem not_lt_neg_infinity (x : Float) : ¬ x < -(1.0 / 0.0 : Float) := by
  intro h
  obtain ⟨number, -, hlt⟩ := (lt_iff _ _).1 h
  have infinite : valueOf (-(1.0 / 0.0)) = .infinity .negative := by rfl
  rw [infinite] at hlt
  exact absurd hlt (not_lt.2 (units_mem_beyond (inFormat_valueOf x) number).1)

/-- Limits that are infinite keep every value as it is, one that is no number included. -/
theorem clamp_infinite (x : Float) : Scalar.clamp (-(1.0 / 0.0)) (1.0 / 0.0) x = x := by
  rw [Scalar.clamp, if_neg (not_lt_neg_infinity x), if_neg (not_infinity_lt x)]

end ControlBlocks.Binary64
