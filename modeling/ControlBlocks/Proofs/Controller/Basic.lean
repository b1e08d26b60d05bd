import ControlBlocks.Proofs.Block.Built
import ControlBlocks.Proofs.Calls.Basic
import ControlBlocks.Proofs.Exact.Scalar
import Mathlib.Algebra.Order.Field.Basic

/-!
# One evaluation of the controller

What an evaluation does, in exact arithmetic.

* `Config.demand`, `Config.after` — the output before it is limited, and the memory it leaves;
* `step_first`, `step_later` — the two kinds of evaluations;
* `Config.unwound_of_pos` — the integral is drawn back in proportion to what the limits cut off;
* `Config.weight` — how far it is drawn back.
-/

set_option autoImplicit false

namespace ControlBlocks.Pid

variable {c : Config Rat} {s : State Rat} {d : Input Rat} {now last error integral slope dt : Rat}

/-- The output of an evaluation that is not the first, before it is limited. -/
def Config.demand (c : Config Rat) (last now : Rat) (s : State Rat) (d : Input Rat) : Rat :=
  c.unlimited (c.error d) (c.integral s (c.error d) (now - last))
    (c.slope s (c.error d) (now - last))

/-- The memory after an evaluation that is not the first. -/
def Config.after (c : Config Rat) (last now : Rat) (s : State Rat) (d : Input Rat) : State Rat where
  integral := c.unwound (c.integral s (c.error d) (now - last)) (c.demand last now s d)
    (c.limit (c.demand last now s d)) (now - last)
  error := c.error d
  slope := c.slope s (c.error d) (now - last)
  last := some now

/-- The part of what the limits cut off that a time draws back. -/
def Config.weight (c : Config Rat) (dt : Rat) : Rat := dt / (c.ti * c.ni)

theorem step_first (h : s.last = none) :
    step c now s d =
      (c.limit (c.k * c.error d), { s with error := c.error d, last := some now }) := by
  simp [step, h]

theorem step_later (h : s.last = some last) :
    step c now s d = (c.limit (c.demand last now s d), c.after last now s d) := by
  simp [step, h, Config.demand, Config.after]

@[simp] theorem last_step (c : Config Rat) (now : Rat) (s : State Rat) (d : Input Rat) :
    (step c now s d).2.last = some now := by
  cases h : s.last with
  | none => rw [step_first h]
  | some last => rw [step_later h]; rfl

@[simp] theorem error_step (c : Config Rat) (now : Rat) (s : State Rat) (d : Input Rat) :
    (step c now s d).2.error = c.error d := by
  cases h : s.last with
  | none => rw [step_first h]
  | some last => rw [step_later h]; rfl

/-- After a call the memory holds its time and its error. -/
theorem last_memoryAt (c : Config Rat) (calls : ℕ → Call Rat (Input Rat)) (i : ℕ) :
    (Block.memoryAt (step c) (initial c) calls (i + 1)).last = some (calls i).time :=
  last_step c _ _ _

theorem error_memoryAt (c : Config Rat) (calls : ℕ → Call Rat (Input Rat)) (i : ℕ) :
    (Block.memoryAt (step c) (initial c) calls (i + 1)).error = c.error (calls i).input :=
  error_step c _ _ _

/-! ## What stays as it is -/

/-- Without an integral, or where no time has gone by, nothing is drawn back. -/
theorem Config.unwound_of_not {unlimited y : Rat}
    (h : ¬ (c.action.hasIntegral = true ∧ 0 < dt)) :
    c.unwound integral unlimited y dt = integral := by
  have stays : ¬ (y != unlimited && c.action.hasIntegral && decide (0 < dt)) = true := by
    intro hall
    simp only [Bool.and_eq_true, decide_eq_true_eq] at hall
    exact h ⟨hall.1.2, hall.2⟩
  rw [unwound, if_neg stays]

theorem Config.integral_of_not_pos (h : ¬ 0 < dt) : c.integral s error dt = s.integral := by
  simp [Config.integral, h]

theorem Config.slope_of_not_pos (h : ¬ 0 < dt) : c.slope s error dt = s.slope := by
  simp [Config.slope, h]

/-! ## What time changes -/

theorem Config.integral_of_pos (hc : c.action.hasIntegral = true) (h : 0 < dt) :
    c.integral s error dt = s.integral + error * dt := by
  simp [Config.integral, hc, h]

/-- What the limits cut off draws the integral back; if that is nothing, the integral stays. -/
theorem Config.unwound_of_pos {unlimited y : Rat} (hc : c.action.hasIntegral = true)
    (h : 0 < dt) :
    c.unwound integral unlimited y dt = integral - (unlimited - y) / (c.k * c.ni) * dt := by
  by_cases hy : y = unlimited
  · simp [Config.unwound, hy]
  · simp [Config.unwound, hc, h, hy]

/-! ## How far the integral is drawn back -/

theorem Config.weight_nonneg (hc : c.Sound) (hti : 0 < c.ti) (hdt : 0 ≤ dt) : 0 ≤ c.weight dt :=
  div_nonneg hdt (mul_pos hti hc.ni).le

/-- The whole of what was cut off takes a time `ti * ni`. -/
theorem Config.weight_le_one_iff (hc : c.Sound) (hti : 0 < c.ti) :
    c.weight dt ≤ 1 ↔ dt ≤ c.ti * c.ni :=
  div_le_one (mul_pos hti hc.ni)

end ControlBlocks.Pid
