import ControlBlocks.Memoryless.RealMath
import ControlBlocks.Proofs.Exact.Scalar
import Mathlib.Tactic.Linarith

/-!
# The remainder of a division

What a remainder is for divisors of either sign, in exact arithmetic.

* `IsRemainder` — a number between zero and the divisor that differs from the dividend by a whole
  multiple of the divisor;
* `IsRemainder.unique` — there is no other;
* `isRemainder_floorMod` — the one that is computed is one;
* `canonical_remainder` — that is what the block gives, and what follows from it.
-/

set_option autoImplicit false

namespace ControlBlocks.RealMath

open Scalar (floorMod)

variable {a b r r' : Rat}

/-- `r` differs from `a` by a whole multiple of `b`, and lies on the side of zero where `b` is, less
far away from it. -/
structure IsRemainder (a b r : Rat) : Prop where
  multiple : ∃ m : ℤ, a - r = m * b
  of_pos : 0 < b → 0 ≤ r ∧ r < b
  of_neg : b < 0 → b < r ∧ r ≤ 0

/-- On the other side of zero everything is the same. -/
theorem IsRemainder.neg (h : IsRemainder a b r) : IsRemainder (-a) (-b) (-r) where
  multiple := by
    obtain ⟨m, hm⟩ := h.multiple
    exact ⟨m, by rw [mul_neg, ← hm]; ring⟩
  of_pos hb := by
    obtain ⟨hlow, hhigh⟩ := h.of_neg (neg_pos.1 hb)
    exact ⟨neg_nonneg.2 hhigh, neg_lt_neg hlow⟩
  of_neg hb := by
    obtain ⟨hlow, hhigh⟩ := h.of_pos (neg_lt_zero.1 hb)
    exact ⟨neg_lt_neg hhigh, neg_nonpos.2 hlow⟩

/-- Two remainders are less than the divisor apart, so that no whole multiple of it lies between
them. -/
theorem IsRemainder.unique_of_pos (hb : 0 < b) (h : IsRemainder a b r) (h' : IsRemainder a b r') :
    r = r' := by
  obtain ⟨m, hm⟩ := h.multiple
  obtain ⟨m', hm'⟩ := h'.multiple
  obtain ⟨hlow, hhigh⟩ := h.of_pos hb
  obtain ⟨hlow', hhigh'⟩ := h'.of_pos hb
  have apart : r - r' = (m' - m : ℤ) * b := by
    push_cast
    linarith
  have above : ((m' - m : ℤ) : Rat) < 1 := by
    rw [← mul_lt_iff_lt_one_left hb, ← apart]
    linarith
  have below : (-1 : Rat) < (m' - m : ℤ) := by
    rw [← mul_lt_mul_iff_left₀ hb, ← apart]
    linarith
  have none : m' - m = 0 := by
    have above : m' - m < 1 := by exact_mod_cast above
    have below : -1 < m' - m := by exact_mod_cast below
    omega
  rw [none, Int.cast_zero, zero_mul] at apart
  exact sub_eq_zero.1 apart

theorem IsRemainder.unique (hb : b ≠ 0) (h : IsRemainder a b r) (h' : IsRemainder a b r') :
    r = r' := by
  rcases hb.lt_or_gt with hneg | hpos
  · exact neg_injective (h.neg.unique_of_pos (neg_pos.2 hneg) h'.neg)
  · exact h.unique_of_pos hpos h'

theorem isRemainder_floorMod_of_pos (hb : 0 < b) (a : Rat) : IsRemainder a b (floorMod a b) where
  multiple := by
    obtain ⟨m, hm⟩ := Scalar.exists_add_floorMod a b
    exact ⟨m, sub_eq_of_eq_add hm⟩
  of_pos _ := ⟨Scalar.floorMod_nonneg hb a, Scalar.floorMod_lt hb a⟩
  of_neg hneg := absurd hneg hb.asymm

theorem isRemainder_floorMod (hb : b ≠ 0) (a : Rat) : IsRemainder a b (floorMod a b) := by
  rcases hb.lt_or_gt with hneg | hpos
  · have opposite := (isRemainder_floorMod_of_pos (neg_pos.2 hneg) (-a)).neg
    have same := Scalar.floorMod_mul_mul (neg_ne_zero.2 one_ne_zero) a b
    rw [neg_one_mul, neg_one_mul, neg_one_mul] at same
    rwa [same, neg_neg, neg_neg, neg_neg] at opposite
  · exact isRemainder_floorMod_of_pos hpos a

/-- **The remainder.**  By every divisor but zero there is exactly one remainder, and it is what the
block gives.  So a whole multiple of the divisor makes no difference to it, and it is measured in
the unit of its operands. -/
theorem canonical_remainder (hb : b ≠ 0) (a : Rat) :
    (∃! r, IsRemainder a b r) ∧
    IsRemainder a b (floorMod a b) ∧
    (∀ now, modulo.step now () (a, b) = .ok (floorMod a b, ())) ∧
    (∀ m : ℤ, floorMod (a + m * b) b = floorMod a b) ∧
    ∀ c, 0 < c → floorMod (c * a) (c * b) = c * floorMod a b := by
  have computed := isRemainder_floorMod hb a
  refine ⟨⟨_, computed, fun r hr => hr.unique hb computed⟩, computed, ?_, ?_, ?_⟩
  · intro now
    simp [modulo, Block.memoryless, hb, Except.map]
  · exact Scalar.floorMod_add_mul hb a
  · exact fun c hc => Scalar.floorMod_mul_mul hc.ne' a b

/-- By a negative divisor the remainder is negative, or zero. -/
theorem canonical_remainder_negative :
    (-3 : Rat) ≠ 0 ∧ floorMod (7 : Rat) (-3) = -2 ∧ IsRemainder 7 (-3) (-2) ∧
      floorMod (7 + (5 : ℤ) * (-3) : Rat) (-3) = -2 := by
  obtain ⟨-, computed, -, shifted, -⟩ := canonical_remainder (b := -3) (by decide) 7
  have value : floorMod (7 : Rat) (-3) = -2 := by decide +kernel
  exact ⟨by decide, value, value ▸ computed, (shifted 5).trans value⟩

end ControlBlocks.RealMath
