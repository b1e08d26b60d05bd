import ControlBlocks.Proofs.Controller.Basic
import ControlBlocks.Proofs.Controller.Limits
import Mathlib.Algebra.BigOperators.Intervals

/-!
# Controllers between their limits

What a controller without a derivative gives at each call, as long as no output was clamped.

* `Config.Saturates` — an evaluation whose output is not the one that was asked for;
* `Config.accumulated` — the errors so far, each for the time since the call before;
* `Config.proportionalIntegral` — the output by the error and the errors so far;
* `asked_memoryAt` — that is what is asked for, until the first output that is clamped;
* `sums_until_saturated` — the same of the block.
-/

set_option autoImplicit false

namespace ControlBlocks.Pid

variable {c : Config Rat} {s : State Rat} {calls : ℕ → Call Rat (Input Rat)} {d : Input Rat}
  {error dt now last : Rat} {i n : ℕ}

/-- The output of an evaluation is not the one that was asked for. -/
def Config.Saturates (c : Config Rat) (now : Rat) (s : State Rat) (d : Input Rat) : Prop :=
  (step c now s d).1 ≠ c.asked now s d

/-- The same of the call `i` of a sequence. -/
def Config.SaturatesAt (c : Config Rat) (calls : ℕ → Call Rat (Input Rat)) (i : ℕ) : Prop :=
  c.Saturates (calls i).time (Block.memoryAt (step c) (initial c) calls i) (calls i).input

/-- The integral at the start, and the errors from the second call to the call `i`, each for the
time since the call before, if any has gone by. -/
def Config.accumulated (c : Config Rat) (calls : ℕ → Call Rat (Input Rat)) (i : ℕ) : Rat :=
  c.integralStart +
    ∑ m ∈ Finset.Icc 1 i, c.error (calls m).input * max ((calls m).time - (calls (m - 1)).time) 0

/-- The output by the error at the call `i` and, if the controller has an integral and the call is
not the first, by the errors so far. -/
def Config.proportionalIntegral (c : Config Rat) (calls : ℕ → Call Rat (Input Rat)) (i : ℕ) : Rat :=
  if c.action.hasIntegral = true ∧ 0 < i then
    c.k * (c.error (calls i).input + c.accumulated calls i / c.ti)
  else c.k * c.error (calls i).input

/-- An output is clamped just if what was asked for is beyond the limits. -/
theorem Config.saturates_iff (hc : c.Sound) :
    c.Saturates now s d ↔ ¬ (c.yMin ≤ c.asked now s d ∧ c.asked now s d ≤ c.yMax) := by
  rw [Saturates, output_step]
  exact not_congr (Scalar.clamp_eq_self_iff hc.limits.le)

/-! ## The integral -/

theorem Config.accumulated_zero (c : Config Rat) (calls : ℕ → Call Rat (Input Rat)) :
    c.accumulated calls 0 = c.integralStart := by
  simp [accumulated]

theorem Config.accumulated_succ (c : Config Rat) (calls : ℕ → Call Rat (Input Rat)) (i : ℕ) :
    c.accumulated calls (i + 1) = c.accumulated calls i +
      c.error (calls (i + 1)).input * max ((calls (i + 1)).time - (calls i).time) 0 := by
  rw [accumulated, Finset.sum_Icc_succ_top (Nat.le_add_left 1 i), ← add_assoc]
  rfl

/-- Time that goes back does not count. -/
theorem Config.integral_eq_add_max (hi : c.action.hasIntegral = true) :
    c.integral s error dt = s.integral + error * max dt 0 := by
  by_cases hdt : 0 < dt
  · rw [integral_of_pos hi hdt, max_eq_left hdt.le]
  · rw [integral_of_not_pos hdt, max_eq_right (not_lt.1 hdt), mul_zero, add_zero]

/-- An output that is not clamped draws nothing back. -/
theorem integral_step_of_not_saturates (hlast : s.last = some last) (h : ¬ c.Saturates now s d) :
    (step c now s d).2.integral = c.integral s (c.error d) (now - last) := by
  have asked : c.asked now s d = c.demand last now s d := by
    rw [Config.asked, hlast, Config.demand]
  have free : c.limit (c.demand last now s d) = c.demand last now s d := by
    rwa [Config.Saturates, not_not, step_later hlast, asked] at h
  rw [step_later hlast]
  simp [Config.after, free, Config.unwound]

/-- After a call, as long as no output was clamped, the memory holds the errors so far. -/
theorem integral_memoryAt (hi : c.action.hasIntegral = true)
    (hfree : ∀ j ≤ n, ¬ c.SaturatesAt calls j) :
    (Block.memoryAt (step c) (initial c) calls (n + 1)).integral = c.accumulated calls n := by
  induction n with
  | zero =>
    have first : (initial c).last = none := rfl
    rw [Block.memoryAt, Block.memoryAt, step_first first, Config.accumulated_zero]
    rfl
  | succ n ih =>
    rw [Block.memoryAt,
      integral_step_of_not_saturates (last_memoryAt c calls n) (hfree (n + 1) le_rfl),
      Config.integral_eq_add_max hi, ih fun j hj => hfree j (hj.trans (Nat.le_succ n)),
      Config.accumulated_succ]

/-! ## The output -/

/-- Without a derivative, two parts are left. -/
theorem Config.unlimited_eq (hd : c.action.hasDerivative = false) (error integral slope : Rat) :
    c.unlimited error integral slope =
      if c.action.hasIntegral = true then c.k * (error + integral / c.ti) else c.k * error := by
  rw [unlimited, hd]
  by_cases hi : c.action.hasIntegral = true
  · rw [if_pos hi, if_pos hi, if_neg Bool.false_ne_true]
    ring
  · rw [if_neg hi, if_neg hi, if_neg Bool.false_ne_true, add_zero, add_zero]

/-- Until an output is clamped, what is asked for is the sum of the two parts. -/
theorem asked_memoryAt (hd : c.action.hasDerivative = false)
    (hfree : ∀ j < i, ¬ c.SaturatesAt calls j) :
    c.asked (calls i).time (Block.memoryAt (step c) (initial c) calls i) (calls i).input =
      c.proportionalIntegral calls i := by
  cases i with
  | zero => simp [Config.asked, Config.proportionalIntegral, Block.memoryAt, initial]
  | succ n =>
    simp only [Config.asked, last_memoryAt, Config.unlimited_eq hd, Config.proportionalIntegral,
      Nat.succ_pos, and_true]
    by_cases hi : c.action.hasIntegral = true
    · rw [if_pos hi, if_pos hi, Config.integral_eq_add_max hi,
        integral_memoryAt hi fun j hj => hfree j (Nat.lt_succ_of_le hj), Config.accumulated_succ]
    · rw [if_neg hi, if_neg hi]

/-- No output has been clamped just if all sums of the two parts are within the limits. -/
theorem not_saturates_iff (hc : c.Sound) (hd : c.action.hasDerivative = false) (i : ℕ) :
    (∀ j ≤ i, ¬ c.SaturatesAt calls j) ↔
      ∀ j ≤ i, c.yMin ≤ c.proportionalIntegral calls j ∧
        c.proportionalIntegral calls j ≤ c.yMax := by
  constructor
  · intro hfree j hj
    rw [← asked_memoryAt hd fun m hm => hfree m (hm.le.trans hj)]
    exact not_not.1 (mt (Config.saturates_iff hc).2 (hfree j hj))
  · -- an output that is not clamped may be relied on at the calls after it
    intro hwithin j
    induction j using Nat.strong_induction_on with
    | _ j ih =>
      intro hj
      rw [Config.SaturatesAt, Config.saturates_iff hc, not_not,
        asked_memoryAt hd fun m hm => ih m hm (hm.le.trans hj)]
      exact hwithin j hj

/-- **The sum of two parts.**  As long as no output of a P or PI controller has been clamped, its
output is the gain times the error at the first call, and after that the gain times the sum of the
error and, with an integral, the errors so far over the time constant, whatever the times of the
calls are.  None has been clamped just if these sums are all within the limits. -/
theorem sums_until_saturated {b : Block Rat (Input Rat) (State Rat) Rat} (hb : block c = .ok b)
    (haction : c.action = .P ∨ c.action = .PI) (began : Option Rat)
    (calls : ℕ → Call Rat (Input Rat)) :
    ∃ (y : ℕ → Rat) (s : ℕ → State Rat),
      (∀ n, b.Runs (b.start began) ((List.range n).map calls) ((List.range n).map y) (s n)) ∧
      ∀ i,
        ((∀ j ≤ i, ¬ c.Saturates (calls j).time (s j) (calls j).input) →
          y i = c.proportionalIntegral calls i) ∧
        ((∀ j ≤ i, ¬ c.Saturates (calls j).time (s j) (calls j).input) ↔
          ∀ j ≤ i, c.yMin ≤ c.proportionalIntegral calls j ∧
            c.proportionalIntegral calls j ≤ c.yMax) := by
  obtain ⟨hc, rfl⟩ := block_eq_ok_iff.1 hb
  have hd : c.action.hasDerivative = false := by
    rcases haction with h | h
    · rw [h]; rfl
    · rw [h]; rfl
  refine ⟨Block.outputAt (step c) (initial c) calls, Block.memoryAt (step c) (initial c) calls,
    Block.timed_stepsAs.runs_range (initial c) calls, ?_⟩
  intro i
  refine ⟨fun hfree => ?_, not_saturates_iff hc hd i⟩
  have asked : Block.outputAt (step c) (initial c) calls i =
      c.asked (calls i).time (Block.memoryAt (step c) (initial c) calls i) (calls i).input :=
    not_not.1 (hfree i le_rfl)
  rw [asked, asked_memoryAt hd fun j hj => hfree j hj.le]

/-- A PI controller with wide limits and an integral at the start. -/
def roomy : Config Rat :=
  { Config.standard with k := 2, r := 2, yMin := -100, yMax := 100, integralStart := 1 }

/-- The third call goes back in time: its error counts for the output, and not for the integral. -/
theorem sums_until_saturated_backward :
    let calls : ℕ → Call Rat (Input Rat) := fun i =>
      ⟨[0, 1, 1 / 2, 2].getD i 0, ⟨[2, 4, 10, 0].getD i 0, [0, 0, 0, 2].getD i 0⟩⟩
    ∃ (b : Block Rat (Input Rat) (State Rat) Rat) (y : ℕ → Rat), block roomy = .ok b ∧
      b.Gives none ((List.range 4).map calls) ((List.range 4).map y) ∧
      y 0 = 2 ∧ y 1 = 16 ∧ y 2 = 22 ∧ y 3 = 4 := by
  intro calls
  have built : block roomy = .ok (.timed "PID" (initial roomy) (step roomy)) := by
    with_unfolding_all rfl
  obtain ⟨y, s, runs, sums⟩ := sums_until_saturated built (.inr rfl) none calls
  have within : ∀ j ≤ 3, roomy.yMin ≤ roomy.proportionalIntegral calls j ∧
      roomy.proportionalIntegral calls j ≤ roomy.yMax := by
    decide +kernel
  have told (i : ℕ) (hi : i ≤ 3) : y i = roomy.proportionalIntegral calls i :=
    (sums i).1 ((sums i).2.2 fun j hj => within j (hj.trans hi))
  refine ⟨_, y, built, ⟨s 4, runs 4⟩, ?_, ?_, ?_, ?_⟩
  · rw [told 0 (by decide)]
    decide +kernel
  · rw [told 1 (by decide)]
    decide +kernel
  · rw [told 2 (by decide)]
    decide +kernel
  · rw [told 3 (by decide)]
    decide +kernel

end ControlBlocks.Pid
