import ControlBlocks.Proofs.Binary64.Numbers
import Mathlib

/-!
# Values written as bits

What a float keeps of a value.

* `Binary64.settled` — the value itself, or an infinity where its exponent is too large;
* `Binary64.stored_eq_settled` — that is what is read from the bits of a rounded value.
-/

set_option autoImplicit false

namespace ControlBlocks.Binary64

open Float.Model (Format UnpackedFloat)
open Float.Model.UnpackedFloat (Sign)

/-- What is left of a value that is written as bits: too large an exponent makes it infinite. -/
def settled : UnpackedFloat → UnpackedFloat
  | .finite s m e pos => if e ≤ 971 then .finite s m e pos else .infinity s
  | f => f

/-- A significand with all its bits is stored without the leading one. -/
theorem toNat_one_append_ofNat {m : ℕ} (h : 2 ^ 52 ≤ m) (h' : m < 2 ^ 53) :
    (1#1 ++ BitVec.ofNat 52 m).toNat = m := by
  rw [toNat_one_append, BitVec.toNat_ofNat]
  omega

theorem finite_congr {s : Sign} {m m' : ℕ} {e e' : ℤ} {pos : 0 < m} {pos' : 0 < m'} (hm : m = m')
    (he : e = e') : UnpackedFloat.finite s m e pos = .finite s m' e' pos' := by
  subst hm he
  rfl

section Finite

variable {s : Sign} {m : ℕ} {e : ℤ} {pos : 0 < m}

theorem biased_eq (e : ℤ) :
    e + Format.binary64.exponentBias + (52 : ℕ) = e + 1075 := by
  show e + (1023 : ℕ) + (52 : ℕ) = e + 1075
  omega

theorem stored_normal (hm : 2 ^ 52 ≤ m) (hm' : m < 2 ^ 53) (he : -1074 ≤ e) (he' : e ≤ 971) :
    stored (.finite s m e pos) = .finite s m e pos := by
  have log : m.log2 = 52 := (Nat.log2_eq_iff pos.ne').2 ⟨hm, hm'⟩
  have bits : Format.binary64.mantissaBits = 53 := by decide
  have kept : (BitVec.ofNat 11 (e + 1075).toNat).toNat = (e + 1075).toNat := by
    rw [BitVec.toNat_ofNat]
    omega
  have small : BitVec.ofNat 11 (e + 1075).toNat ≠ -1#11 := by
    intro h
    have : (e + 1075).toNat = 2047 := kept.symm.trans (congrArg BitVec.toNat h)
    omega
  have positive : BitVec.ofNat 11 (e + 1075).toNat ≠ 0#11 := by
    intro h
    have : (e + 1075).toNat = 0 := kept.symm.trans (congrArg BitVec.toNat h)
    omega
  unfold stored UnpackedFloat.pack
  simp only [biased_eq, bits, log]
  rw [if_neg (by omega), if_pos (by trivial)]
  unfold UnpackedFloat.unpack
  simp only [UnpackedFloat.unpackMantissa_packComponents,
    UnpackedFloat.unpackExponent_packComponents, UnpackedFloat.unpackSign_packComponents,
    Sign.ofBitVec_toBitVec]
  rw [if_neg small, if_neg positive]
  apply finite_congr (toNat_one_append_ofNat hm hm')
  rw [kept]
  show ((e + 1075).toNat : ℤ) - ((1023 : ℕ) + (52 : ℕ)) = e
  omega

theorem stored_subnormal (hm : m < 2 ^ 52) :
    stored (.finite s m (-1074) pos) = .finite s m (-1074) pos := by
  have log : m.log2 < 52 := (Nat.log2_lt pos.ne').2 hm
  have bits : Format.binary64.mantissaBits = 53 := by decide
  have kept : (BitVec.ofNat 52 m).toNat = m := by
    rw [BitVec.toNat_ofNat]
    omega
  have nonzero : BitVec.ofNat 52 m ≠ 0#52 := by
    intro h
    have : m = 0 := kept.symm.trans (congrArg BitVec.toNat h)
    omega
  unfold stored UnpackedFloat.pack
  simp only [biased_eq, bits]
  rw [if_neg (by decide), if_neg (by omega)]
  unfold UnpackedFloat.unpack
  simp only [UnpackedFloat.unpackMantissa_packComponents,
    UnpackedFloat.unpackExponent_packComponents, UnpackedFloat.unpackSign_packComponents,
    Sign.ofBitVec_toBitVec]
  rw [if_neg (by decide), if_pos trivial, dif_neg nonzero]
  exact finite_congr kept (by decide)

end Finite

theorem stored_eq_settled {f : UnpackedFloat} (hf : Rounded f) : stored f = settled f := by
  cases f with
  | notANumber => rfl
  | infinity s => cases s <;> rfl
  | zero s => cases s <;> rfl
  | finite s m e pos =>
    obtain ⟨short, low, full⟩ := hf
    by_cases hrange : e ≤ 971
    · simp only [settled, if_pos hrange]
      by_cases hall : 2 ^ 52 ≤ m
      · exact stored_normal hall short low hrange
      · obtain rfl : e = -1074 := by
          by_contra hne
          exact hall (full (by omega))
        exact stored_subnormal (not_le.1 hall)
    · simp only [settled, if_neg hrange, stored, UnpackedFloat.pack, biased_eq]
      rw [if_pos (by omega)]
      cases s <;> rfl

end ControlBlocks.Binary64
