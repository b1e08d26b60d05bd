import ControlBlocks.Proofs.Binary64.Rounding
import ControlBlocks.Proofs.Binary64.Storage
import Mathlib

/-!
# Arithmetic of floats

How far the result of an operation is from the exact one.

* `Binary64.value` — a finite float as a rational;
* `Binary64.IsRounding` — a float comes from a number by rounding;
* `isRounding_add`, `isRounding_sub`, `isRounding_mul`, `isRounding_div` — the results of
  operations, where they are not too large;
* `isFinite_stored_iff` — what is rounded is kept unless it is too large;
* `IsRounding.abs_sub_le`, `IsRounding.eq_of_onGrid` — how far they are off, and where they are
  exact;
* `value_ofInt` — integers as floats.
-/

set_option autoImplicit false

namespace ControlBlocks.Binary64

open Float.Model (Format UnpackedFloat)
open Float.Model.UnpackedFloat (Sign)

/-! ## Multiples of a power of two -/

/-- A multiple of a power of two is a value of the format if the factor has 53 bits. -/
theorem onGrid_natCast_mul {n : ℕ} {j : ℤ} (hn : n < 2 ^ 53) (hj : -1074 ≤ j) :
    OnGrid (n * 2 ^ j) := by
  by_cases hzero : n = 0
  · subst hzero
    rw [Nat.cast_zero, zero_mul, ← toRat_zero .positive]
    exact onGrid_toRat trivial trivial
  · have bits : n.log2 ≤ 52 := Nat.lt_succ_iff.1 ((Nat.log2_lt hzero).2 hn)
    -- the factor is shifted to the left as far as it goes
    obtain ⟨d, hd⟩ : ∃ d, min (52 - n.log2) (j + 1074).toNat = d := ⟨_, rfl⟩
    refine ⟨.positive, n * 2 ^ d, j - d, ⟨?_, ?_, ?_⟩, ?_⟩
    · calc n * 2 ^ d < 2 ^ (n.log2 + 1) * 2 ^ d :=
            Nat.mul_lt_mul_of_pos_right Nat.lt_log2_self (Nat.two_pow_pos d)
        _ = 2 ^ (n.log2 + 1 + d) := (pow_add _ _ _).symm
        _ ≤ 2 ^ 53 := Nat.pow_le_pow_right two_pos (by omega)
    · omega
    · intro hlow
      calc 2 ^ 52 = 2 ^ (n.log2 + d) := by congr 1; omega
        _ = 2 ^ n.log2 * 2 ^ d := pow_add _ _ _
        _ ≤ n * 2 ^ d := Nat.mul_le_mul_right _ (Nat.log2_self_le hzero)
    · show (n : ℚ) * 2 ^ j = (n * 2 ^ d : ℕ) * 2 ^ (j - d)
      rw [zpow_sub₀ two_ne_zero, zpow_natCast]
      push_cast
      field_simp

theorem onGrid_neg {v : ℚ} (h : OnGrid v) : OnGrid (-v) := by
  obtain ⟨s, m, e, canonical, rfl⟩ := h
  cases s with
  | negative => exact ⟨.positive, m, e, canonical, neg_neg _⟩
  | positive => exact ⟨.negative, m, e, canonical, rfl⟩

theorem onGrid_intCast_mul {p : ℤ} {j : ℤ} (hp : |p| ≤ 2 ^ 53) (hj : -1074 ≤ j) :
    OnGrid (p * 2 ^ j) := by
  obtain ⟨n, hn⟩ : ∃ n : ℕ, p.natAbs = n := ⟨_, rfl⟩
  obtain ⟨above, below⟩ := abs_le.1 hp
  have natural : OnGrid (n * 2 ^ j) := by
    rcases (show n ≤ 2 ^ 53 by omega).lt_or_eq with hlt | rfl
    · exact onGrid_natCast_mul hlt hj
    · have half : ((2 ^ 53 : ℕ) : ℚ) * 2 ^ j = (2 ^ 52 : ℕ) * 2 ^ (j + 1) := by
        rw [zpow_add₀ two_ne_zero]
        push_cast
        ring
      rw [half]
      exact onGrid_natCast_mul (by decide) (by omega)
  rcases Int.natAbs_eq p with hpos | hneg
  · rw [hpos, hn]
    exact natural
  · rw [hneg, hn, Int.cast_neg, neg_mul]
    exact onGrid_neg natural

theorem onGrid_intCast {p : ℤ} (hp : |p| ≤ 2 ^ 53) : OnGrid p := by
  have := onGrid_intCast_mul hp (show -1074 ≤ (0 : ℤ) by decide)
  rwa [zpow_zero, mul_one] at this

theorem abs_intCast_le {p : ℤ} (hp : |p| ≤ 2 ^ 53) : |(p : ℚ)| ≤ 2 ^ 100 := by
  exact_mod_cast hp.trans (pow_le_pow_right₀ one_le_two (by decide) : (2 : ℤ) ^ 53 ≤ 2 ^ 100)

/-! ## What floats come from -/

/-- A finite float as a rational. -/
def value (x : Float) : ℚ := toRat (valueOf x)

/-- The float is finite and comes from a number by rounding. -/
structure IsRounding (a : ℚ) (x : Float) : Prop where
  finite : IsFinite (valueOf x)
  crosses : RoundsTo a (value x)

section Values

variable {a v : ℚ} {x y : Float}

theorem onGrid_value (hx : IsFinite (valueOf x)) : OnGrid (value x) :=
  onGrid_toRat (inFormat_valueOf x).rounded hx

/-- A float that is unpacked to a positive value. -/
theorem value_of_positive {m : ℕ} {e : ℤ} {pos : 0 < m}
    (h : valueOf x = .finite .positive m e pos) : IsFinite (valueOf x) ∧ value x = m * 2 ^ e := by
  have canonical : Canonical m e := (h ▸ inFormat_valueOf x : InFormat (.finite _ m e pos)).1
  rw [value, h, toRat_finite canonical.low]
  exact ⟨trivial, rfl⟩

theorem lt_iff_value_lt (hx : IsFinite (valueOf x)) (hy : IsFinite (valueOf y)) :
    x < y ↔ value x < value y := by
  rw [lt_iff, and_iff_right hx.isNumber, and_iff_right hy.isNumber, value, value, ← not_le,
    ← not_le, toRat_le_iff]

theorem le_iff_value_le (hx : IsFinite (valueOf x)) (hy : IsFinite (valueOf y)) :
    x ≤ y ↔ value x ≤ value y := by
  rw [le_iff, and_iff_right hx.isNumber, and_iff_right hy.isNumber, value, value, toRat_le_iff]

theorem valueOf_neg (x : Float) : valueOf (-x) = (valueOf x).neg := by
  have canonical := inFormat_valueOf x
  have written : valueOf (-x) = stored (valueOf x).neg := rfl
  rw [written, stored_eq_settled canonical.rounded.neg]
  cases hf : valueOf x with
  | finite s m e pos =>
    rw [hf] at canonical
    exact if_pos canonical.2
  | _ => rfl

theorem value_neg (hx : IsFinite (valueOf x)) :
    IsFinite (valueOf (-x)) ∧ value (-x) = -value x := by
  rw [value, valueOf_neg, toRat_neg]
  exact ⟨hx.neg, rfl⟩

/-- What lies on the grid is its own rounding. -/
theorem IsRounding.eq_of_onGrid (h : IsRounding a x) (ha : OnGrid a) : value x = a := by
  obtain ⟨below, above⟩ := h.crosses a ha
  exact le_antisymm (above le_rfl) (below le_rfl)

/-- A rounding does not cross an integer of 53 bits. -/
theorem IsRounding.le_value {p : ℤ} (h : IsRounding a x) (hp : |p| ≤ 2 ^ 53) (ha : p ≤ a) :
    p ≤ value x :=
  (h.crosses p (onGrid_intCast hp)).1 ha

theorem IsRounding.value_le {p : ℤ} (h : IsRounding a x) (hp : |p| ≤ 2 ^ 53) (ha : a ≤ p) :
    value x ≤ p :=
  (h.crosses p (onGrid_intCast hp)).2 ha

/-- A rounding is off by at most the unit of the place at which the number has 53 bits. -/
theorem IsRounding.abs_sub_le (h : IsRounding a x) {j : ℤ} (hj : -1074 ≤ j)
    (ha : |a| ≤ 2 ^ 53 * 2 ^ j) : |value x - a| ≤ 2 ^ j := by
  have unit : (0 : ℚ) < 2 ^ j := zpow_pos two_pos j
  obtain ⟨low, high⟩ := abs_le.1 ha
  rw [← neg_mul, ← le_div_iff₀ unit] at low
  rw [← div_le_iff₀ unit] at high
  -- the two multiples of the unit around the number lie on the grid
  have short (p : ℤ) (hlow : -2 ^ 53 ≤ p) (hhigh : p ≤ 2 ^ 53) : OnGrid (p * 2 ^ j) :=
    onGrid_intCast_mul (abs_le.2 ⟨hlow, hhigh⟩) hj
  have floor : OnGrid (⌊a / 2 ^ j⌋ * 2 ^ j) := by
    apply short
    · exact Int.le_floor.2 (by exact_mod_cast low)
    · exact_mod_cast (Int.floor_le _).trans high
  have ceil : OnGrid (⌈a / 2 ^ j⌉ * 2 ^ j) := by
    apply short
    · exact_mod_cast low.trans (Int.le_ceil _)
    · exact Int.ceil_le.2 (by exact_mod_cast high)
  have below : ⌊a / 2 ^ j⌋ * 2 ^ j ≤ a := (le_div_iff₀ unit).1 (Int.floor_le _)
  have above : a ≤ ⌈a / 2 ^ j⌉ * 2 ^ j := (div_le_iff₀ unit).1 (Int.le_ceil _)
  have near : (⌈a / 2 ^ j⌉ : ℚ) * 2 ^ j ≤ ⌊a / 2 ^ j⌋ * 2 ^ j + 2 ^ j := by
    rw [← add_one_mul]
    exact mul_le_mul_of_nonneg_right (by exact_mod_cast Int.ceil_le_floor_add_one _) unit.le
  have fromBelow := (h.crosses _ floor).1 below
  have fromAbove := (h.crosses _ ceil).2 above
  rw [abs_le]
  constructor <;> linarith

end Values

/-! ## Operations -/

section Operations

variable {a : ℚ} {x y : Float}

section Magnitudes

variable {n p : ℕ} {t j : ℤ}

theorem abs_signed_mul_two_pow (s : Sign) (n : ℕ) (t : ℤ) : |signed s (n * 2 ^ t)| = n * 2 ^ t := by
  have nonneg : (0 : ℚ) ≤ n * 2 ^ t := mul_nonneg (Nat.cast_nonneg n) (zpow_pos two_pos t).le
  cases s with
  | negative => exact (abs_neg _).trans (abs_of_nonneg nonneg)
  | positive => exact abs_of_nonneg nonneg

theorem mul_two_pow_le (hn : n ≤ 2 ^ p) (hj : p + t ≤ j) : (n : ℚ) * 2 ^ t ≤ 2 ^ j :=
  calc (n : ℚ) * 2 ^ t ≤ 2 ^ (p : ℤ) * 2 ^ t :=
        mul_le_mul_of_nonneg_right (by exact_mod_cast hn) (zpow_pos two_pos t).le
    _ = 2 ^ (p + t) := (zpow_add₀ two_ne_zero _ _).symm
    _ ≤ 2 ^ j := zpow_le_zpow_right₀ one_le_two hj

theorem mul_two_pow_lt (hn : n < 2 ^ p) (hj : p + t ≤ j) : (n : ℚ) * 2 ^ t < 2 ^ j :=
  calc (n : ℚ) * 2 ^ t < 2 ^ (p : ℤ) * 2 ^ t :=
        mul_lt_mul_of_pos_right (by exact_mod_cast hn) (zpow_pos two_pos t)
    _ = 2 ^ (p + t) := (zpow_add₀ two_ne_zero _ _).symm
    _ ≤ 2 ^ j := zpow_le_zpow_right₀ one_le_two hj

theorem le_mul_two_pow (hn : 2 ^ p ≤ n) (hj : j ≤ p + t) : (2 : ℚ) ^ j ≤ n * 2 ^ t :=
  calc (2 : ℚ) ^ j ≤ 2 ^ (p + t) := zpow_le_zpow_right₀ one_le_two hj
    _ = 2 ^ (p : ℤ) * 2 ^ t := zpow_add₀ two_ne_zero _ _
    _ ≤ n * 2 ^ t := mul_le_mul_of_nonneg_right (by exact_mod_cast hn) (zpow_pos two_pos t).le

end Magnitudes

/-- The exponents of the format are those of the magnitudes below the next power of two. -/
theorem Canonical.mul_two_pow_lt_iff {m : ℕ} {e : ℤ} (h : Canonical m e) :
    (m : ℚ) * 2 ^ e < 2 ^ (1024 : ℤ) ↔ e ≤ 971 := by
  constructor
  · intro hlt
    by_contra hlarge
    exact hlt.not_ge (le_mul_two_pow (h.full (by omega)) (by push_cast; omega))
  · exact fun he => mul_two_pow_lt h.short (by push_cast; omega)

/-- A rounded value is kept unless it is too large; then it becomes infinite. -/
theorem isFinite_stored_iff {f : UnpackedFloat} (hf : Rounded f) (hf' : IsNumber f) :
    IsFinite (stored f) ↔ |toRat f| < 2 ^ (1024 : ℤ) := by
  rw [stored_eq_settled hf]
  cases f with
  | notANumber => exact absurd rfl hf'
  | infinity s =>
    have first : toRat (.infinity s) = toRat (.finite s (2 ^ 52) 972 (Nat.two_pow_pos 52)) := rfl
    rw [first, toRat_finite (by decide), abs_signed_mul_two_pow,
      canonical_beyond.mul_two_pow_lt_iff]
    exact iff_of_false id (by decide)
  | zero s =>
    rw [toRat_zero, abs_zero]
    exact iff_of_true trivial (zpow_pos two_pos _)
  | finite s m e pos =>
    rw [toRat_finite hf.low, abs_signed_mul_two_pow, hf.mul_two_pow_lt_iff, settled]
    split
    · rename_i he
      exact iff_of_true trivial he
    · rename_i he
      exact iff_of_false id he

/-- A rounded value that comes from a number is kept by a float that is finite. -/
theorem isRounding_of_isFinite {f : UnpackedFloat} (hx : valueOf x = stored f) (hf : Rounded f)
    (crosses : RoundsTo a (toRat f)) (finite : IsFinite (valueOf x)) : IsRounding a x := by
  have here : valueOf x = f := by
    rw [hx, stored_eq_settled hf] at finite ⊢
    cases f with
    | finite s m e pos =>
      by_contra h
      rw [settled, if_neg fun he => h (if_pos he)] at finite
      exact finite
    | _ => rfl
  refine ⟨finite, ?_⟩
  rw [value, here]
  exact crosses

/-- A rounded value that comes from a number that is not too large is kept by a float. -/
theorem isRounding_of_stored {f : UnpackedFloat} (hx : valueOf x = stored f) (hf : Rounded f)
    (hf' : IsNumber f) (crosses : RoundsTo a (toRat f)) (ha : |a| ≤ 2 ^ 100) : IsRounding a x := by
  -- the value is no larger than the bound, which lies on the grid
  have bound : OnGrid (2 ^ 100) := by
    have := onGrid_natCast_mul (n := 1) (j := 100) (by decide) (by decide)
    rwa [Nat.cast_one, one_mul] at this
  obtain ⟨low, high⟩ := abs_le.1 ha
  have small : |toRat f| ≤ 2 ^ 100 :=
    abs_le.2 ⟨(crosses _ (onGrid_neg bound)).1 low, (crosses _ bound).2 high⟩
  refine isRounding_of_isFinite hx hf crosses ?_
  rw [hx, isFinite_stored_iff hf hf']
  calc |toRat f| ≤ 2 ^ 100 := small
    _ = 2 ^ (100 : ℤ) := (zpow_natCast 2 100).symm
    _ < 2 ^ (1024 : ℤ) := zpow_lt_zpow_right₀ one_lt_two (by decide)

variable (hx : IsFinite (valueOf x)) (hy : IsFinite (valueOf y))

include hx hy

theorem isRounding_add (h : |value x + value y| ≤ 2 ^ 100) :
    IsRounding (value x + value y) (x + y) := by
  obtain ⟨rounded, number, crosses⟩ :=
    add_spec (inFormat_valueOf x).rounded (inFormat_valueOf y).rounded hx hy
  exact isRounding_of_stored (valueOf_add x y) rounded number crosses h

/-- A sum that is finite, whatever its size. -/
theorem isRounding_add_of_isFinite (h : IsFinite (valueOf (x + y))) :
    IsRounding (value x + value y) (x + y) := by
  obtain ⟨rounded, -, crosses⟩ :=
    add_spec (inFormat_valueOf x).rounded (inFormat_valueOf y).rounded hx hy
  exact isRounding_of_isFinite (valueOf_add x y) rounded crosses h

theorem isRounding_sub (h : |value x - value y| ≤ 2 ^ 100) :
    IsRounding (value x - value y) (x - y) := by
  obtain ⟨rounded, number, crosses⟩ :=
    sub_spec (inFormat_valueOf x).rounded (inFormat_valueOf y).rounded hx hy
  exact isRounding_of_stored (valueOf_sub x y) rounded number crosses h

theorem isRounding_mul (h : |value x * value y| ≤ 2 ^ 100) :
    IsRounding (value x * value y) (x * y) := by
  obtain ⟨rounded, number, crosses⟩ :=
    mul_spec (inFormat_valueOf x).rounded (inFormat_valueOf y).rounded hx hy
  exact isRounding_of_stored (valueOf_mul x y) rounded number crosses h

theorem isRounding_div (hzero : value y ≠ 0) (h : |value x / value y| ≤ 2 ^ 100) :
    IsRounding (value x / value y) (x / y) := by
  obtain ⟨rounded, number, crosses⟩ :=
    div_spec (inFormat_valueOf x).rounded (inFormat_valueOf y).rounded hx hy hzero
  exact isRounding_of_stored (valueOf_div x y) rounded number crosses h

end Operations

/-- A float is finite just if its difference from itself is zero. -/
theorem isFinite_iff (x : Float) : Scalar.isFinite x = true ↔ IsFinite (valueOf x) := by
  have here : Scalar.isFinite x = (x - x == 0.0) := rfl
  rw [here, beq_iff]
  constructor
  · rintro ⟨number, -, -⟩
    by_contra h
    obtain ⟨s, runaway⟩ := exists_runaway h
    exact runaway.sub_self runaway number
  · intro h
    have difference : IsRounding 0 (x - x) := by
      have := isRounding_sub h h
      rw [sub_self, abs_zero] at this
      exact this (by positivity)
    have none : value (x - x) = 0 := by
      exact_mod_cast difference.eq_of_onGrid (by exact_mod_cast onGrid_intCast (p := 0) (by decide))
    exact ⟨difference.finite.isNumber, nofun, toRat_eq_zero_iff.1 none⟩

/-! ## Integers -/

theorem value_one : value 1.0 = 1 := by
  have one : valueOf 1.0 = .finite .positive (2 ^ 52) (-52) (by decide) := by rfl
  rw [(value_of_positive one).2]
  norm_num

theorem ofInt_natCast {n : ℕ} (hn : n < 2 ^ 53) : Float.ofInt n = n.toUInt64.toFloat * 1.0 := by
  show Float.ofScientific n false 0 = _
  unfold Float.ofScientific
  rw [dif_pos ⟨hn, Nat.zero_le 22⟩]
  rfl

/-- A natural number of 53 bits is converted exactly. -/
theorem value_toFloat {n : ℕ} (hn : n < 2 ^ 53) :
    IsFinite (valueOf n.toUInt64.toFloat) ∧ value n.toUInt64.toFloat = n := by
  have short : |(n : ℤ)| ≤ 2 ^ 53 := abs_le.2 ⟨by omega, by omega⟩
  have converted : IsRounding (n : ℤ) n.toUInt64.toFloat := by
    obtain ⟨rounded, number, crosses⟩ := normalize_spec n 0 .positive
    rw [zpow_zero, mul_one] at crosses
    refine isRounding_of_stored ?_ rounded number crosses (abs_intCast_le short)
    have same : (n : ℤ) = n.toUInt64.toNat := by
      show (n : ℤ) = (UInt64.ofNat n).toNat
      rw [UInt64.toNat_ofNat']
      omega
    rw [same]
    rfl
  exact ⟨converted.finite, converted.eq_of_onGrid (onGrid_intCast short)⟩

/-- A natural number of 53 bits is a float. -/
theorem value_ofInt {p : ℤ} (h : 0 ≤ p) (hp : p < 2 ^ 53) :
    IsFinite (valueOf (Float.ofInt p)) ∧ value (Float.ofInt p) = p := by
  obtain ⟨n, rfl⟩ := Int.eq_ofNat_of_zero_le h
  have short : |(n : ℤ)| ≤ 2 ^ 53 := abs_le.2 ⟨by omega, hp.le⟩
  obtain ⟨finite, exact⟩ := value_toFloat (n := n) (by exact_mod_cast hp)
  have product : IsRounding (n : ℤ) (n.toUInt64.toFloat * 1.0) := by
    have one : IsFinite (valueOf 1.0) := trivial
    have := isRounding_mul finite one
    rw [exact, value_one, mul_one] at this
    exact this (abs_intCast_le short)
  rw [ofInt_natCast (by exact_mod_cast hp)]
  exact ⟨product.finite, product.eq_of_onGrid (onGrid_intCast short)⟩

end ControlBlocks.Binary64
