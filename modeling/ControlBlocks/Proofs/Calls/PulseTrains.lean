import ControlBlocks.Source.Wave
import ControlBlocks.Proofs.Calls.Pulses

/-!
# Pulse trains

When a pulse train is high, said by its periods.

* `PulseShape.check_eq_ok_iff` — which shapes are accepted;
* `PulseShape.isHigh_iff` — a train is high just in the first part of each period from its shift on;
* `PulseShape.isHigh_add_period` — from the shift on, it repeats itself;
* `PulseShape.gives_boolean` — a block that gives the train does so at all of its calls;
* `VariablePulse.outputAt_constant` — pulses of variable width are such a train on a constant width;
* `pulse_trains` — all this of one shape.
-/

set_option autoImplicit false

namespace ControlBlocks

namespace PulseShape

variable {p : PulseShape Rat} {t : Rat}

theorem check_eq_ok_iff {block : String} {q : PulseShape Rat} :
    p.check block = .ok q ↔ (0 < p.width ∧ p.width ≤ 1) ∧ 0 < p.period ∧ q = p := by
  unfold check
  split_ifs with h
  · rw [map_eq_ok_iff, and_iff_right h]
    simp only [requirePositive_eq_ok_iff]
    constructor
    · rintro ⟨-, ⟨hperiod, -⟩, rfl⟩
      exact ⟨hperiod, rfl⟩
    · rintro ⟨hperiod, rfl⟩
      exact ⟨_, ⟨hperiod, rfl⟩, rfl⟩
  · simp [h]

/-- High is what has begun and is in the first part of its period. -/
theorem isHigh_iff_phase :
    p.isHigh t = true ↔
      0 ≤ t - p.shift ∧ Scalar.floorMod (t - p.shift) p.period < p.width * p.period := by
  simp [isHigh]

/-- In the period `k`, the phase counts from its beginning. -/
theorem phase_of_mem {a b : Rat} {k : ℤ} (hlow : k * b ≤ a) (hhigh : a < k * b + b) :
    Scalar.floorMod a b = a - k * b := by
  have positive : 0 < b := by linarith
  have inside := Scalar.floorMod_eq_self (sub_nonneg.2 hlow) (sub_lt_iff_lt_add'.2 hhigh)
  rw [← Scalar.floorMod_add_mul positive.ne' _ k, sub_add_cancel] at inside
  exact inside

/-- A train is high in the first part of each period, from the shift on. -/
theorem isHigh_iff (hfull : p.width ≤ 1) (hperiod : 0 < p.period) :
    p.isHigh t = true ↔ ∃ k : ℕ, p.shift + k * p.period ≤ t ∧
      t < p.shift + (k + p.width) * p.period := by
  rw [isHigh_iff_phase]
  constructor
  · rintro ⟨hbegun, hphase⟩
    obtain ⟨m, hm⟩ := Scalar.exists_add_floorMod (t - p.shift) p.period
    have low := Scalar.floorMod_nonneg hperiod (t - p.shift)
    have high := Scalar.floorMod_lt hperiod (t - p.shift)
    have started : (-1 : Rat) < m := by
      by_contra hbefore
      have := mul_le_mul_of_nonneg_right (not_lt.1 hbefore) hperiod.le
      linarith
    obtain ⟨k, rfl⟩ := Int.eq_ofNat_of_zero_le (show 0 ≤ m by exact_mod_cast started)
    push_cast at hm
    exact ⟨k, by linarith, by linarith⟩
  · rintro ⟨k, hlow, hhigh⟩
    have part : p.width * p.period ≤ p.period := mul_le_of_le_one_left hperiod.le hfull
    have begun : (0 : Rat) ≤ k * p.period := by positivity
    have phase : Scalar.floorMod (t - p.shift) p.period = t - p.shift - k * p.period := by
      refine phase_of_mem (k := k) ?_ ?_ <;> push_cast <;> linarith
    rw [phase]
    exact ⟨by linarith, by linarith⟩

/-- From the shift on, a train repeats itself. -/
theorem isHigh_add_period (hperiod : 0 < p.period) (ht : p.shift ≤ t) :
    p.isHigh (t + p.period) = p.isHigh t := by
  have later : Scalar.floorMod (t + p.period - p.shift) p.period =
      Scalar.floorMod (t - p.shift) p.period := by
    have := Scalar.floorMod_add_mul hperiod.ne' (t - p.shift) 1
    rwa [Int.cast_one, one_mul, sub_add_eq_add_sub] at this
  rw [Bool.eq_iff_iff, isHigh_iff_phase, isHigh_iff_phase, later]
  exact and_congr_left fun _ => iff_of_true (by linarith) (sub_nonneg.2 ht)

/-- Without a part of its period that it is low in, a train stays high. -/
theorem isHigh_of_width_one (hwidth : p.width = 1) (hperiod : 0 < p.period) (ht : p.shift ≤ t) :
    p.isHigh t = true := by
  rw [isHigh_iff_phase, hwidth, one_mul]
  exact ⟨sub_nonneg.2 ht, Scalar.floorMod_lt hperiod _⟩

/-- The block of a shape gives its train, whenever it is called. -/
theorem gives_boolean (hp : ∀ block, p.check block = .ok p) :
    ∃ train, Pulse.boolean p = .ok train ∧ ∀ (began : Option Rat) (times : ℕ → Rat) (n : ℕ),
      train.Gives began ((List.range n).map fun i => ⟨times i, ()⟩)
        ((List.range n).map fun i => p.isHigh (times i)) := by
  refine ⟨_, map_eq_ok_iff.2 ⟨p, hp "Pulse", rfl⟩, fun began times n => ⟨(), ?_⟩⟩
  exact Block.Runs.range (fun _ => ()) n fun i _ => rfl

end PulseShape

namespace VariablePulse

variable {period width : Rat} {times : ℕ → Rat}

/-- Calls on the same width. -/
def constantly (width : Rat) (times : ℕ → Rat) (i : ℕ) : Call Rat Rat := ⟨times i, width⟩

/-- On the same width all along, the pulses are a train that begins after one period. -/
theorem outputAt_constantly (hwidth : 0 < width) (hfull : width ≤ 1) (hperiod : 0 < period)
    (hascend : Monotone times) (i : ℕ) :
    Block.outputAt (step period) (initial period) (constantly (width * period) times) i =
      PulseShape.isHigh ⟨width, period, period⟩ (times i) := by
  obtain ⟨j, hj⟩ : ∃ j, IsLeast {j | boundary period (times i) ≤ times j} j :=
    ⟨_, Nat.isLeast_find ⟨i, boundary_le hperiod (times i)⟩⟩
  have inside : Scalar.clamp 0 period (width * period) = width * period := by
    rw [Scalar.clamp_eq_self_iff hperiod.le]
    exact ⟨(mul_pos hwidth hperiod).le, mul_le_of_le_one_left hperiod.le hfull⟩
  have phase : Scalar.floorMod (times i - period) period = Scalar.floorMod (times i) period := by
    have := Scalar.floorMod_add_mul hperiod.ne' (times i - period) 1
    rwa [Int.cast_one, one_mul, sub_add_cancel, eq_comm] at this
  rw [Bool.eq_iff_iff, outputAt_iff hperiod hascend hj, PulseShape.isHigh_iff_phase, phase]
  simp only [constantly]
  rw [inside, boundary_eq_sub, sub_nonneg, sub_add_eq_add_sub, lt_sub_iff_add_lt,
    add_lt_add_iff_left]

theorem gives_constantly (hwidth : 0 < width) (hfull : width ≤ 1) (hperiod : 0 < period) :
    ∃ pulse, block period = .ok pulse ∧
      ∀ (began : Option Rat) (times : ℕ → Rat), Monotone times → ∀ n : ℕ,
        pulse.Gives began ((List.range n).map fun i => ⟨times i, width * period⟩)
          ((List.range n).map fun i => PulseShape.isHigh ⟨width, period, period⟩ (times i)) := by
  refine ⟨_, block_eq_ok_iff.2 ⟨hperiod, rfl⟩, fun began times hascend n => ?_⟩
  have outputs := List.map_congr_left (l := List.range n)
    fun i _ => outputAt_constantly hwidth hfull hperiod hascend i
  rw [← outputs]
  exact Block.timed_stepsAs.gives_range began (constantly (width * period) times) n

end VariablePulse

/-- **Pulse trains.**  A shape of a width in `(0, 1]` and a period above zero is accepted.  Its
train is high just in the first part of each period from its shift on, and low before; from the
shift on it repeats itself, and with a width of one it stays high.  Its block gives that train at
all calls; and pulses of variable width, on the same width all along, are the train that begins
after one period. -/
theorem pulse_trains (p : PulseShape Rat) (hwidth : 0 < p.width) (hfull : p.width ≤ 1)
    (hperiod : 0 < p.period) :
    (∀ block, p.check block = .ok p) ∧
    (∀ t, p.isHigh t = true ↔ ∃ k : ℕ, p.shift + k * p.period ≤ t ∧
      t < p.shift + (k + p.width) * p.period) ∧
    (∀ t, p.shift ≤ t → p.isHigh (t + p.period) = p.isHigh t) ∧
    (p.width = 1 → ∀ t, p.shift ≤ t → p.isHigh t = true) ∧
    (∃ train, Pulse.boolean p = .ok train ∧
      ∀ (began : Option Rat) (times : ℕ → Rat) (n : ℕ),
        train.Gives began ((List.range n).map fun i => ⟨times i, ()⟩)
          ((List.range n).map fun i => p.isHigh (times i))) ∧
    ∃ pulse, VariablePulse.block p.period = .ok pulse ∧
      ∀ (began : Option Rat) (times : ℕ → Rat), Monotone times → ∀ n : ℕ,
        pulse.Gives began ((List.range n).map fun i => ⟨times i, p.width * p.period⟩)
          ((List.range n).map fun i =>
            PulseShape.isHigh { p with shift := p.period } (times i)) := by
  have accepted (block : String) : p.check block = .ok p :=
    PulseShape.check_eq_ok_iff.2 ⟨⟨hwidth, hfull⟩, hperiod, rfl⟩
  exact ⟨accepted, fun t => PulseShape.isHigh_iff hfull hperiod,
    fun t => PulseShape.isHigh_add_period hperiod,
    fun hone t => PulseShape.isHigh_of_width_one hone hperiod, PulseShape.gives_boolean accepted,
    VariablePulse.gives_constantly hwidth hfull hperiod⟩

/-- A quarter of each period of two seconds, and pulses of that width with calls at the beginning
and at the end of a pulse, and after a period without calls; and a train that stays high. -/
theorem pulse_trains_quarter :
    let quarter : PulseShape Rat := ⟨1 / 4, 2, 1 / 2⟩
    let full : PulseShape Rat := ⟨1, 3, -1⟩
    (quarter.isHigh (19 / 4) = true ∧ quarter.isHigh 5 = false) ∧
      (∃ pulse, VariablePulse.block 2 = .ok pulse ∧
        pulse.Gives none ([1, 2, 5 / 2, 25 / 4].map fun t => (⟨t, 1 / 2⟩ : Call Rat Rat))
          [false, true, false, true]) ∧
      full.isHigh 100 = true := by
  intro quarter full
  obtain ⟨-, high, -, -, -, pulse, built, gives⟩ :=
    pulse_trains quarter (by decide +kernel) (by decide +kernel) (by decide +kernel)
  obtain ⟨-, -, -, stays, -⟩ :=
    pulse_trains full (by decide +kernel) (by decide +kernel) (by decide +kernel)
  refine ⟨⟨(high _).2 ⟨2, by decide +kernel, by decide +kernel⟩, by decide +kernel⟩,
    ⟨pulse, built, ?_⟩, stays rfl 100 (by decide +kernel)⟩
  have ascending : Monotone fun i => [1, 2, 5 / 2].getD i (25 / 4 : Rat) := by
    refine monotone_nat_of_le_succ fun i => ?_
    match i with
    | 0 | 1 | 2 => decide +kernel
    | i + 3 => exact le_refl _
  have run := gives none _ ascending 4
  have width : quarter.width * quarter.period = 1 / 2 := by decide +kernel
  have outputs : (List.range 4).map (fun i => PulseShape.isHigh { quarter with shift := 2 }
      ([1, 2, 5 / 2].getD i (25 / 4))) = [false, true, false, true] := by decide +kernel
  rwa [width, outputs] at run

end ControlBlocks
