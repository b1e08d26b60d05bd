import ControlBlocks.Proofs.Binary64.Order
import Mathlib

/-!
# Results that are no numbers

Which operations of binary floating point give a number.

* `Binary64.stored` — a value as a float has it; `valueOf_add` and so on — the four operations;
* `IsNumber.of_add` and so on — what is no number stays none in every operation;
* `isNumber_add_iff`, `isNumber_mul_iff`, `isNumber_div_iff` — beside a finite operand, a number
  stays one;
* `Runaway` — an infinity, or no number: what further operations make of an infinity;
* `clamp_mem_iff` — what is limited is within the limits just if it is a number.
-/

set_option autoImplicit false

namespace ControlBlocks.Binary64

open Float.Model (Format UnpackedFloat)
open Float.Model.UnpackedFloat (Sign)

/-! ## Values as floats have them -/

/-- A value, written as the bits of a float and read again. -/
def stored (f : UnpackedFloat) : UnpackedFloat :=
  UnpackedFloat.unpack Format.binary64 (UnpackedFloat.pack Format.binary64 f)

section Operations

variable (x y : Float)

theorem valueOf_add :
    valueOf (x + y) = stored (UnpackedFloat.add Format.binary64 (valueOf x) (valueOf y)) := rfl

theorem valueOf_sub :
    valueOf (x - y) = stored (UnpackedFloat.sub Format.binary64 (valueOf x) (valueOf y)) := rfl

theorem valueOf_mul :
    valueOf (x * y) = stored (UnpackedFloat.mul Format.binary64 (valueOf x) (valueOf y)) := rfl

theorem valueOf_div :
    valueOf (x / y) = stored (UnpackedFloat.div Format.binary64 (valueOf x) (valueOf y)) := rfl

end Operations

/-- The value has the sign `s`, unless it is no number. -/
def HasSign (s : Sign) : UnpackedFloat → Prop
  | .notANumber => True
  | .infinity s' => s' = s
  | .zero s' => s' = s
  | .finite s' _ _ _ => s' = s

/-- Bits with another exponent than the infinities are those of a number, with their sign. -/
theorem unpack_packComponents (s : Sign) {e : BitVec Format.binary64.exponentBits}
    (m : BitVec Format.binary64.mantissaBitsWithoutImplicit) (he : e ≠ -1#_) :
    let f := UnpackedFloat.unpack Format.binary64
      (UnpackedFloat.packComponents Format.binary64 s e m)
    IsNumber f ∧ HasSign s f := by
  unfold UnpackedFloat.unpack
  simp only [UnpackedFloat.unpackMantissa_packComponents,
    UnpackedFloat.unpackExponent_packComponents, UnpackedFloat.unpackSign_packComponents,
    Sign.ofBitVec_toBitVec]
  rw [if_neg he]
  by_cases hzero : e = 0#_
  · rw [if_pos hzero]
    split
    · exact ⟨UnpackedFloat.noConfusion, rfl⟩
    · exact ⟨UnpackedFloat.noConfusion, rfl⟩
  · rw [if_neg hzero]
    exact ⟨UnpackedFloat.noConfusion, rfl⟩

theorem stored_finite (s : Sign) (m : ℕ) (e : ℤ) (pos : 0 < m) :
    IsNumber (stored (.finite s m e pos)) ∧ HasSign s (stored (.finite s m e pos)) := by
  unfold stored UnpackedFloat.pack
  dsimp only
  split
  · cases s with
    | negative => exact ⟨UnpackedFloat.noConfusion, rfl⟩
    | positive => exact ⟨UnpackedFloat.noConfusion, rfl⟩
  · rename_i hsmall
    obtain ⟨biased, hbiased⟩ : ∃ n, (e + Format.binary64.exponentBias +
      Format.binary64.mantissaBitsWithoutImplicit).toNat = n := ⟨_, rfl⟩
    rw [hbiased] at hsmall ⊢
    have fits : biased < 2047 := by
      have : ¬ 2 ^ 11 ≤ biased + 1 := hsmall
      omega
    split
    · apply unpack_packComponents
      intro hall
      have : biased % 2 ^ 11 = 2047 := congrArg BitVec.toNat hall
      omega
    · exact unpack_packComponents s _ (by decide)

theorem isNumber_stored_iff {f : UnpackedFloat} : IsNumber (stored f) ↔ IsNumber f := by
  cases f with
  | notANumber => exact Iff.rfl
  | infinity s => cases s <;> exact iff_of_true UnpackedFloat.noConfusion UnpackedFloat.noConfusion
  | zero s => cases s <;> exact iff_of_true UnpackedFloat.noConfusion UnpackedFloat.noConfusion
  | finite s m e pos => exact iff_of_true (stored_finite s m e pos).1 UnpackedFloat.noConfusion

theorem HasSign.stored {s : Sign} {f : UnpackedFloat} (h : HasSign s f) : HasSign s (stored f) := by
  cases f with
  | notANumber => trivial
  | infinity s' =>
    obtain rfl : s' = s := h
    cases s' <;> rfl
  | zero s' =>
    obtain rfl : s' = s := h
    cases s' <;> rfl
  | finite s' m e pos =>
    obtain rfl : s' = s := h
    exact (stored_finite s' m e pos).2

/-- What is rounded is a number, with the sign that it is given. -/
theorem roundWithAccuracy_number (s : Sign) (m : ℕ) (e : ℤ) (accuracy : UnpackedFloat.Accuracy) :
    let f := UnpackedFloat.roundWithAccuracy Format.binary64 s m e accuracy
    IsNumber f ∧ HasSign s f := by
  unfold UnpackedFloat.roundWithAccuracy
  dsimp only
  split
  · exact ⟨UnpackedFloat.noConfusion, rfl⟩
  · exact ⟨UnpackedFloat.noConfusion, rfl⟩

theorem normalize_number (z e : ℤ) (s : Sign) :
    IsNumber (UnpackedFloat.normalize Format.binary64 z e s) := by
  unfold UnpackedFloat.normalize
  split
  · exact (roundWithAccuracy_number _ _ _ _).1
  · exact UnpackedFloat.noConfusion
  · exact (roundWithAccuracy_number _ _ _ _).1

/-! ## Operands that are no numbers -/

/-- Where an operation passes on what is no number, its operands are numbers if its result is. -/
theorem operands_number {op : UnpackedFloat → UnpackedFloat → UnpackedFloat}
    (left : ∀ g, op .notANumber g = .notANumber) (right : ∀ f, op f .notANumber = .notANumber)
    {f g : UnpackedFloat} (h : IsNumber (stored (op f g))) : IsNumber f ∧ IsNumber g := by
  rw [isNumber_stored_iff] at h
  constructor
  · rintro rfl
    exact h (left g)
  · rintro rfl
    exact h (right f)

section Operands

variable {x y : Float}

theorem IsNumber.of_add (h : IsNumber (valueOf (x + y))) :
    IsNumber (valueOf x) ∧ IsNumber (valueOf y) :=
  operands_number (fun _ => rfl) (fun f => by cases f <;> rfl) h

theorem IsNumber.of_sub (h : IsNumber (valueOf (x - y))) :
    IsNumber (valueOf x) ∧ IsNumber (valueOf y) :=
  operands_number (fun _ => rfl) (fun f => by cases f <;> rfl) h

theorem IsNumber.of_mul (h : IsNumber (valueOf (x * y))) :
    IsNumber (valueOf x) ∧ IsNumber (valueOf y) :=
  operands_number (fun _ => rfl) (fun f => by cases f <;> rfl) h

theorem IsNumber.of_div (h : IsNumber (valueOf (x / y))) :
    IsNumber (valueOf x) ∧ IsNumber (valueOf y) :=
  operands_number (fun _ => rfl) (fun f => by cases f <;> rfl) h

end Operands

/-! ## Finite operands -/

section Finite

variable {x y : Float}

theorem isNumber_add_iff (hy : IsFinite (valueOf y)) :
    IsNumber (valueOf (x + y)) ↔ IsNumber (valueOf x) := by
  refine ⟨fun h => h.of_add.1, fun hx => ?_⟩
  rw [valueOf_add, isNumber_stored_iff]
  cases hf : valueOf x with
  | notANumber => exact absurd hf hx
  | infinity s =>
    cases hg : valueOf y with
    | notANumber => exact (hg ▸ hy).elim
    | infinity s' => exact (hg ▸ hy).elim
    | zero s' => exact UnpackedFloat.noConfusion
    | finite s' m' e' pos' => exact UnpackedFloat.noConfusion
  | zero s =>
    cases hg : valueOf y with
    | notANumber => exact (hg ▸ hy).elim
    | infinity s' => exact (hg ▸ hy).elim
    | zero s' => cases s <;> cases s' <;> exact UnpackedFloat.noConfusion
    | finite s' m' e' pos' => exact UnpackedFloat.noConfusion
  | finite s m e pos =>
    cases hg : valueOf y with
    | notANumber => exact (hg ▸ hy).elim
    | infinity s' => exact (hg ▸ hy).elim
    | zero s' => exact UnpackedFloat.noConfusion
    | finite s' m' e' pos' => exact normalize_number _ _ _

/-- A finite value that is not zero. -/
theorem exists_eq_finite {f : UnpackedFloat} (hf : IsFinite f) (h : units f ≠ 0) :
    ∃ s m e pos, f = .finite s m e pos := by
  cases f with
  | notANumber => exact hf.elim
  | infinity s => exact hf.elim
  | zero s => exact absurd rfl h
  | finite s m e pos => exact ⟨s, m, e, pos, rfl⟩

theorem isNumber_mul_iff (hx : IsFinite (valueOf x)) (hx' : units (valueOf x) ≠ 0) :
    IsNumber (valueOf (x * y)) ↔ IsNumber (valueOf y) := by
  refine ⟨fun h => h.of_mul.2, fun hy => ?_⟩
  obtain ⟨s, m, e, pos, hf⟩ := exists_eq_finite hx hx'
  rw [valueOf_mul, isNumber_stored_iff, hf]
  cases hg : valueOf y with
  | notANumber => exact absurd hg hy
  | infinity s' => exact UnpackedFloat.noConfusion
  | zero s' => exact UnpackedFloat.noConfusion
  | finite s' m' e' pos' => exact (roundWithAccuracy_number _ _ _ _).1

theorem isNumber_div_iff (hy : IsFinite (valueOf y)) (hy' : units (valueOf y) ≠ 0) :
    IsNumber (valueOf (x / y)) ↔ IsNumber (valueOf x) := by
  refine ⟨fun h => h.of_div.1, fun hx => ?_⟩
  obtain ⟨s, m, e, pos, hg⟩ := exists_eq_finite hy hy'
  rw [valueOf_div, isNumber_stored_iff, hg]
  cases hf : valueOf x with
  | notANumber => exact absurd hf hx
  | infinity s' => exact UnpackedFloat.noConfusion
  | zero s' => exact UnpackedFloat.noConfusion
  | finite s' m' e' pos' => exact (roundWithAccuracy_number _ _ _ _).1

end Finite

/-! ## What comes of an infinity -/

theorem units_pos {x : Float} (h : (0.0 : Float) < x) : 0 < units (valueOf x) := by
  obtain ⟨-, -, hlt⟩ := (lt_iff _ _).1 h
  have zero : valueOf 0.0 = .zero .positive := by rfl
  rw [zero] at hlt
  exact hlt

theorem hasSign_of_pos {x : Float} (h : (0.0 : Float) < x) : HasSign .positive (valueOf x) := by
  have above := units_pos h
  cases hf : valueOf x with
  | notANumber => trivial
  | infinity s =>
    cases s with
    | negative => exact absurd (hf ▸ above) units_infinity_neg.le.not_gt
    | positive => rfl
  | zero s => exact absurd (hf ▸ above) (lt_irrefl _)
  | finite s m e pos =>
    cases s with
    | negative => exact absurd (hf ▸ above) (units_finite_neg pos).le.not_gt
    | positive => rfl

section Sign

variable {x y : Float}

theorem HasSign.mul (hx : HasSign .positive (valueOf x)) (hy : HasSign .positive (valueOf y)) :
    HasSign .positive (valueOf (x * y)) := by
  rw [valueOf_mul]
  apply HasSign.stored
  generalize valueOf x = f at hx ⊢
  generalize valueOf y = g at hy ⊢
  cases f with
  | notANumber => trivial
  | infinity s =>
    cases hx
    cases g with
    | notANumber => trivial
    | zero s' => trivial
    | infinity s' | finite s' m' e' pos' => cases hy; rfl
  | zero s =>
    cases hx
    cases g with
    | notANumber => trivial
    | infinity s' => trivial
    | zero s' | finite s' m' e' pos' => cases hy; rfl
  | finite s m e pos =>
    cases hx
    cases g with
    | notANumber => trivial
    | infinity s' | zero s' => cases hy; rfl
    | finite s' m' e' pos' => cases hy; exact (roundWithAccuracy_number _ _ _ _).2

end Sign

/-- An infinity of the sign `s`, or no number. -/
def Runaway (s : Sign) (f : UnpackedFloat) : Prop := f = .infinity s ∨ f = .notANumber

section Runaway

variable {x y : Float} {s : Sign} {f : UnpackedFloat}

/-- A number that is not finite, or no number. -/
theorem exists_runaway (h : ¬ IsFinite f) : ∃ s, Runaway s f := by
  cases f with
  | notANumber => exact ⟨.positive, .inr rfl⟩
  | infinity s => exact ⟨s, .inl rfl⟩
  | zero s => exact absurd trivial h
  | finite s m e pos => exact absurd trivial h

theorem Runaway.not_isFinite (h : Runaway s f) : ¬ IsFinite f := by
  obtain rfl | rfl := h
  · exact not_false
  · exact not_false

theorem Runaway.stored (h : Runaway s f) : Runaway s (stored f) := by
  obtain rfl | rfl := h
  · cases s <;> exact .inl rfl
  · exact .inr rfl

/-- What is added to an infinity leaves it, or makes it no number. -/
theorem Runaway.add (h : Runaway s (valueOf x)) (y : Float) : Runaway s (valueOf (x + y)) := by
  rw [valueOf_add]
  apply Runaway.stored
  obtain hx | hx := h
  · rw [hx]
    cases valueOf y with
    | notANumber => exact .inr rfl
    | infinity s' =>
      show Runaway s (if s == s' then .infinity s else .notANumber)
      split
      · exact .inl rfl
      · exact .inr rfl
    | zero s' => exact .inl rfl
    | finite s' m e pos => exact .inl rfl
  · rw [hx]
    exact .inr rfl

theorem Runaway.add_left (h : Runaway s (valueOf y)) (x : Float) :
    Runaway s (valueOf (x + y)) := by
  rw [valueOf_add]
  apply Runaway.stored
  obtain hy | hy := h
  · rw [hy]
    cases valueOf x with
    | notANumber => exact .inr rfl
    | infinity s' =>
      show Runaway s (if s' == s then .infinity s' else .notANumber)
      split
      · rename_i hsame
        rw [eq_of_beq hsame]
        exact .inl rfl
      · exact .inr rfl
    | zero s' => exact .inl rfl
    | finite s' m e pos => exact .inl rfl
  · rw [hy]
    cases valueOf x <;> exact .inr rfl

theorem Runaway.sub (h : Runaway s (valueOf x)) (y : Float) : Runaway s (valueOf (x - y)) := by
  rw [valueOf_sub]
  apply Runaway.stored
  obtain hx | hx := h
  · rw [hx]
    cases valueOf y with
    | notANumber => exact .inr rfl
    | infinity s' =>
      show Runaway s (if s == -s' then .infinity s else .notANumber)
      split
      · exact .inl rfl
      · exact .inr rfl
    | zero s' => exact .inl rfl
    | finite s' m e pos => exact .inl rfl
  · rw [hx]
    exact .inr rfl

/-- Two infinities of one sign have no difference. -/
theorem Runaway.sub_self (hx : Runaway s (valueOf x)) (hy : Runaway s (valueOf y)) :
    ¬ IsNumber (valueOf (x - y)) := by
  intro number
  obtain hx | hx := hx
  · obtain hy | hy := hy
    · rw [valueOf_sub, isNumber_stored_iff, hx, hy] at number
      cases s <;> exact number rfl
    · exact number.of_sub.2 hy
  · exact number.of_sub.1 hx

theorem mul_positive (s : Sign) : s * .positive = s := by
  cases s <;> rfl

theorem positive_mul (s : Sign) : .positive * s = s := by
  cases s <;> rfl

theorem div_positive (s : Sign) : s / .positive = s := by
  cases s <;> rfl

theorem Runaway.mul (h : Runaway s (valueOf x)) (hy : HasSign .positive (valueOf y)) :
    Runaway s (valueOf (x * y)) := by
  rw [valueOf_mul]
  apply Runaway.stored
  obtain hx | hx := h
  · rw [hx]
    generalize valueOf y = g at hy ⊢
    cases g with
    | notANumber => exact .inr rfl
    | infinity s' =>
      cases hy
      exact .inl (congrArg _ (mul_positive s))
    | zero s' => exact .inr rfl
    | finite s' m e pos =>
      cases hy
      exact .inl (congrArg _ (mul_positive s))
  · rw [hx]
    exact .inr rfl

theorem Runaway.mul_left (h : Runaway s (valueOf y)) (hx : HasSign .positive (valueOf x)) :
    Runaway s (valueOf (x * y)) := by
  rw [valueOf_mul]
  apply Runaway.stored
  obtain hy | hy := h
  · rw [hy]
    generalize valueOf x = f at hx ⊢
    cases f with
    | notANumber => exact .inr rfl
    | infinity s' =>
      cases hx
      exact .inl (congrArg _ (positive_mul s))
    | zero s' => exact .inr rfl
    | finite s' m e pos =>
      cases hx
      exact .inl (congrArg _ (positive_mul s))
  · rw [hy]
    cases valueOf x <;> exact .inr rfl

theorem Runaway.div (h : Runaway s (valueOf x)) (hy : HasSign .positive (valueOf y)) :
    Runaway s (valueOf (x / y)) := by
  rw [valueOf_div]
  apply Runaway.stored
  obtain hx | hx := h
  · rw [hx]
    generalize valueOf y = g at hy ⊢
    cases g with
    | notANumber => exact .inr rfl
    | infinity s' => exact .inr rfl
    | zero s' =>
      cases hy
      exact .inl (congrArg _ (div_positive s))
    | finite s' m e pos =>
      cases hy
      exact .inl (congrArg _ (div_positive s))
  · rw [hx]
    exact .inr rfl

/-- A finite value is not equal to an infinity, and nothing is equal to what is no number. -/
theorem Runaway.not_beq (h : Runaway s (valueOf x))
    (hy : IsNumber (valueOf x) → IsFinite (valueOf y)) : ¬ (y == x) = true := by
  intro hsame
  obtain ⟨-, number, same⟩ := (beq_iff _ _).1 hsame
  obtain ⟨above, below⟩ := units_mem (inFormat_valueOf y) (hy number)
  obtain hx | hx := h
  · rw [hx] at same
    cases s with
    | negative => exact absurd same above.ne'
    | positive => exact absurd same below.ne
  · exact number hx

end Runaway

/-! ## Limits -/

section Limits

variable {low high x : Float}

/-- What is no number is not limited. -/
theorem clamp_of_not_isNumber (h : ¬ IsNumber (valueOf x)) : Scalar.clamp low high x = x := by
  have below : ¬ x < low := fun hlt => h ((lt_iff _ _).1 hlt).1
  have above : ¬ high < x := fun hlt => h ((lt_iff _ _).1 hlt).2.1
  rw [Scalar.clamp, if_neg below, if_neg above]

theorem float_le_of_lt {x y : Float} (h : x < y) : x ≤ y := by
  obtain ⟨hx, hy, hlt⟩ := (lt_iff _ _).1 h
  exact (le_iff _ _).2 ⟨hx, hy, hlt.le⟩

theorem float_le_of_not_lt {x y : Float} (hx : IsNumber (valueOf x)) (hy : IsNumber (valueOf y))
    (h : ¬ x < y) : y ≤ x :=
  (le_iff _ _).2 ⟨hy, hx, not_lt.1 fun hlt => h ((lt_iff _ _).2 ⟨hx, hy, hlt⟩)⟩

theorem float_le_trans {x y z : Float} (h : x ≤ y) (h' : y ≤ z) : x ≤ z := by
  obtain ⟨hx, -, hxy⟩ := (le_iff _ _).1 h
  obtain ⟨-, hz, hyz⟩ := (le_iff _ _).1 h'
  exact (le_iff _ _).2 ⟨hx, hz, hxy.trans hyz⟩

instance isTrans_float_le : IsTrans Float (· ≤ ·) := ⟨fun _ _ _ => float_le_trans⟩

theorem float_not_le_iff {x y : Float} (hx : IsNumber (valueOf x)) (hy : IsNumber (valueOf y)) :
    ¬ x ≤ y ↔ y < x := by
  rw [le_iff, lt_iff]
  simp only [hx, hy, true_and, not_le]

/-- A value between finite limits is finite. -/
theorem isFinite_of_mem (hlow : IsFinite (valueOf low)) (hhigh : IsFinite (valueOf high))
    (h : low ≤ x ∧ x ≤ high) : IsFinite (valueOf x) := by
  obtain ⟨-, number, above⟩ := (le_iff _ _).1 h.1
  obtain ⟨-, -, below⟩ := (le_iff _ _).1 h.2
  by_contra infinite
  obtain ⟨s, hx⟩ := number.exists_eq_infinity infinite
  rw [hx] at above below
  cases s with
  | negative => exact absurd above (units_mem (inFormat_valueOf low) hlow).1.not_ge
  | positive => exact absurd below (units_mem (inFormat_valueOf high) hhigh).2.not_ge

/-- What is limited is within the limits just if it is a number. -/
theorem clamp_mem_iff (hlimits : low < high) :
    low ≤ Scalar.clamp low high x ∧ Scalar.clamp low high x ≤ high ↔ IsNumber (valueOf x) := by
  constructor
  · rintro ⟨hlow, -⟩
    by_contra hx
    rw [clamp_of_not_isNumber hx] at hlow
    exact hx ((le_iff _ _).1 hlow).2.1
  · intro hx
    obtain ⟨hlow, hhigh, -⟩ := (lt_iff _ _).1 hlimits
    unfold Scalar.clamp
    split
    · exact ⟨(le_self_iff low).2 hlow, float_le_of_lt hlimits⟩
    · rename_i below
      split
      · exact ⟨float_le_of_lt hlimits, (le_self_iff high).2 hhigh⟩
      · rename_i above
        exact ⟨float_le_of_not_lt hx hlow below, float_le_of_not_lt hhigh hx above⟩

end Limits

end ControlBlocks.Binary64
