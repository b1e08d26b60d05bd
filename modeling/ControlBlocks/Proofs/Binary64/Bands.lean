import ControlBlocks.Proofs.Binary64.Rounding
import ControlBlocks.Proofs.Binary64.Storage

/-!
# Bands above and below

An order survives what is added above, or taken away below.

* `Binary64.units_add` — what is not negative does not lower a sum, and what is not positive does
  not raise it;
* `Binary64.lt_add_of_lt`, `sub_lt_of_lt` — the same of floats that are in order.
-/

set_option autoImplicit false

namespace ControlBlocks.Binary64

open Float.Model (Format UnpackedFloat)
open Float.Model.UnpackedFloat (Sign)

/-! ## Sums of values -/

section Sum

variable {x y : UnpackedFloat}

/-- What is not negative does not lower a finite value that it is added to, and what is not positive
does not raise it. -/
theorem units_add (hx : InFormat x) (hy : InFormat y) (hx' : IsFinite x) (hy' : IsNumber y) :
    let f := UnpackedFloat.add Format.binary64 x y
    Rounded f ∧ IsNumber f ∧ (0 ≤ units y → units x ≤ units f) ∧
      (units y ≤ 0 → units f ≤ units x) := by
  by_cases hfinite : IsFinite y
  · obtain ⟨rounded, number, crosses⟩ := add_spec hx.rounded hy.rounded hx' hfinite
    obtain ⟨below, above⟩ := crosses _ (onGrid_toRat hx.rounded hx')
    exact ⟨rounded, number,
      fun hnonneg => toRat_le_iff.1 (below (le_add_of_nonneg_right (toRat_nonneg_iff.2 hnonneg))),
      fun hnonpos => toRat_le_iff.1 (above (add_le_of_nonpos_right (toRat_nonpos_iff.2 hnonpos)))⟩
  · obtain ⟨s, rfl⟩ := hy'.exists_eq_infinity hfinite
    have sum : UnpackedFloat.add Format.binary64 x (.infinity s) = .infinity s := by
      cases x with
      | notANumber => exact hx'.elim
      | infinity s' => exact hx'.elim
      | zero s' => rfl
      | finite s' m e pos => rfl
    have far := beyond_pos
    obtain ⟨above, below⟩ := units_mem hx hx'
    rw [sum]
    refine ⟨trivial, UnpackedFloat.noConfusion, ?_⟩
    cases s with
    | negative =>
      show (0 ≤ -(beyond : ℤ) → units x ≤ -(beyond : ℤ)) ∧ (_ → -(beyond : ℤ) ≤ units x)
      omega
    | positive =>
      show (_ → units x ≤ (beyond : ℤ)) ∧ ((beyond : ℤ) ≤ 0 → (beyond : ℤ) ≤ units x)
      omega

/-- An infinite value stays what it is, unless the opposite one is added. -/
theorem infinity_add {s : Sign} (hy : IsNumber y) (hs : y ≠ .infinity (-s)) :
    UnpackedFloat.add Format.binary64 (.infinity s) y = .infinity s := by
  cases y with
  | notANumber => exact absurd rfl hy
  | infinity s' =>
    cases s <;> cases s'
    · rfl
    · exact absurd rfl hs
    · exact absurd rfl hs
    · rfl
  | zero s' => rfl
  | finite s' m e pos => rfl

end Sum

/-! ## Sums of floats -/

section Stored

/-- Values that become infinite stay on their side of those that are not. -/
theorem units_settled {f : UnpackedFloat} (hf : Rounded f) {c : ℤ} (hc : -(beyond : ℤ) ≤ c)
    (hc' : c ≤ beyond) :
    (c ≤ units f → c ≤ units (settled f)) ∧ (units f ≤ c → units (settled f) ≤ c) := by
  cases f with
  | notANumber => exact ⟨id, id⟩
  | infinity s => exact ⟨id, id⟩
  | zero s => exact ⟨id, id⟩
  | finite s m e pos =>
    by_cases hrange : e ≤ 971
    · simp only [settled, if_pos hrange]
      exact ⟨id, id⟩
    · have large : beyond ≤ steps m e := hf.beyond_le_steps (not_le.1 hrange)
      simp only [settled, if_neg hrange]
      cases s with
      | negative =>
        show (c ≤ -(steps m e : ℤ) → c ≤ -(beyond : ℤ)) ∧
          (-(steps m e : ℤ) ≤ c → -(beyond : ℤ) ≤ c)
        omega
      | positive =>
        show (c ≤ (steps m e : ℤ) → c ≤ (beyond : ℤ)) ∧ ((steps m e : ℤ) ≤ c → (beyond : ℤ) ≤ c)
        omega

/-- Where one of two values is not infinite on its side of zero, they are no opposite infinities. -/
theorem not_opposite {x y : UnpackedFloat}
    (h : 0 ≤ units y ∧ -(beyond : ℤ) < units x ∨ units y ≤ 0 ∧ units x < beyond) :
    ∀ s, x = .infinity s → y ≠ .infinity (-s) := by
  have far := beyond_pos
  rintro s rfl rfl
  cases s with
  | negative =>
    have both : 0 ≤ (beyond : ℤ) ∧ -(beyond : ℤ) < -beyond ∨
        (beyond : ℤ) ≤ 0 ∧ -(beyond : ℤ) < beyond := h
    omega
  | positive =>
    have both : 0 ≤ -(beyond : ℤ) ∧ -(beyond : ℤ) < beyond ∨
        -(beyond : ℤ) ≤ 0 ∧ (beyond : ℤ) < beyond := h
    omega

/-- What is not negative does not lower what it is added to, and what is not positive does not raise
it, unless opposite infinities are added. -/
theorem units_stored_add {x y : UnpackedFloat} (hx : InFormat x) (hy : InFormat y)
    (hx' : IsNumber x) (hy' : IsNumber y) (hopposite : ∀ s, x = .infinity s → y ≠ .infinity (-s)) :
    let f := stored (UnpackedFloat.add Format.binary64 x y)
    IsNumber f ∧ (0 ≤ units y → units x ≤ units f) ∧ (units y ≤ 0 → units f ≤ units x) := by
  by_cases hfinite : IsFinite x
  · obtain ⟨rounded, number, up, down⟩ := units_add hx hy hfinite hy'
    obtain ⟨above, below⟩ := units_mem_beyond hx hx'
    obtain ⟨settledUp, settledDown⟩ := units_settled rounded above below
    refine ⟨isNumber_stored_iff.2 number, ?_⟩
    rw [stored_eq_settled rounded]
    exact ⟨fun h => settledUp (up h), fun h => settledDown (down h)⟩
  · obtain ⟨s, rfl⟩ := hx'.exists_eq_infinity hfinite
    rw [infinity_add hy' (hopposite s rfl),
      stored_eq_settled (show Rounded (.infinity s) from trivial)]
    exact ⟨hx', fun _ => le_rfl, fun _ => le_rfl⟩

end Stored

/-! ## Bands above and below -/

section Band

variable {u x h : Float}

/-- What is not negative is a number, and none of its units are. -/
theorem units_nonneg (hh : (0.0 : Float) ≤ h) : IsNumber (valueOf h) ∧ 0 ≤ units (valueOf h) := by
  obtain ⟨-, number, le⟩ := (le_iff _ _).1 hh
  have zero : valueOf 0.0 = .zero .positive := by rfl
  rw [zero] at le
  exact ⟨number, le⟩

/-- What is below a value stays below it when something is added to the value. -/
theorem lt_add_of_lt (hh : (0.0 : Float) ≤ h) (hux : u < x) : u < x + h := by
  obtain ⟨hu, hx, hlt⟩ := (lt_iff _ _).1 hux
  obtain ⟨hnumber, hnonneg⟩ := units_nonneg hh
  have low := (units_mem_beyond (inFormat_valueOf u) hu).1
  obtain ⟨number, up, -⟩ := units_stored_add (inFormat_valueOf x) (inFormat_valueOf h) hx
    hnumber (not_opposite (.inl ⟨hnonneg, low.trans_lt hlt⟩))
  exact (lt_iff _ _).2 ⟨hu, number, hlt.trans_le (up hnonneg)⟩

/-- What is above a value stays above it when something is taken from the value. -/
theorem sub_lt_of_lt (hh : (0.0 : Float) ≤ h) (hxu : x < u) : x - h < u := by
  obtain ⟨hx, hu, hlt⟩ := (lt_iff _ _).1 hxu
  obtain ⟨hnumber, hnonneg⟩ := units_nonneg hh
  have high := (units_mem_beyond (inFormat_valueOf u) hu).2
  have hnonpos : units (valueOf h).neg ≤ 0 := by
    rw [units_neg]
    exact neg_nonpos.2 hnonneg
  obtain ⟨number, -, down⟩ := units_stored_add (inFormat_valueOf x)
    (inFormat_neg (inFormat_valueOf h)) hx hnumber.neg
    (not_opposite (.inr ⟨hnonpos, hlt.trans_le high⟩))
  have sum : valueOf (x - h) =
      stored (UnpackedFloat.add Format.binary64 (valueOf x) (valueOf h).neg) := by
    rw [← sub_eq_add]
    rfl
  rw [← sum] at number down
  exact (lt_iff _ _).2 ⟨number, hu, (down hnonpos).trans_lt hlt⟩

end Band

end ControlBlocks.Binary64
