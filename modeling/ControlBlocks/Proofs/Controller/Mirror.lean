import ControlBlocks.Proofs.Controller.Basic
import Mathlib.Tactic.Ring

/-!
# Controllers and their mirror images

What becomes of a run when the setpoint and the measurement change places.

* `Input.swapped` — the input with the two in each other's place;
* `Config.flipped` — the controller that acts the other way: it does the same
  (`step_flipped`);
* `Config.opposite`, `State.opposite` — the controller with opposite limits and start, and its
  memory: it does the opposite (`step_opposite`);
* `mirrored_runs` — the same of the blocks.
-/

set_option autoImplicit false

namespace ControlBlocks.Pid

variable {c : Config Rat} {s : State Rat}

/-- The setpoint and the measurement in each other's place. -/
def Input.swapped (d : Input Rat) : Input Rat := ⟨d.measurement, d.setpoint⟩

/-! ## Acting the other way -/

/-- The same controller, acting the other way. -/
def Config.flipped (c : Config Rat) : Config Rat := { c with reverseActing := !c.reverseActing }

theorem Config.Sound.flipped (hc : c.Sound) : c.flipped.Sound :=
  ⟨hc.limits, hc.k, hc.r, hc.ni, hc.nd, hc.ti, hc.td⟩

theorem Config.error_flipped (c : Config Rat) (d : Input Rat) :
    c.flipped.error d.swapped = c.error d := by
  cases hacting : c.reverseActing with
  | true => simp [error, flipped, Input.swapped, hacting]
  | false => simp [error, flipped, Input.swapped, hacting]

/-- Only the error depends on the way a controller acts. -/
theorem step_flipped (c : Config Rat) (now : Rat) (s : State Rat) (d : Input Rat) :
    step c.flipped now s d.swapped = step c now s d := by
  cases hlast : s.last with
  | none =>
    rw [step_first hlast, step_first hlast, Config.error_flipped]
    rfl
  | some last =>
    rw [step_later hlast, step_later hlast, Config.demand, Config.after, Config.demand,
      Config.error_flipped]
    rfl

/-! ## Opposite limits -/

/-- The controller with the opposite limits and the opposite start. -/
def Config.opposite (c : Config Rat) : Config Rat :=
  { c with
    yMin := -c.yMax
    yMax := -c.yMin
    integralStart := -c.integralStart
    slopeStart := -c.slopeStart }

/-- The memory with the opposite integral, error and slope. -/
def State.opposite (s : State Rat) : State Rat := ⟨-s.integral, -s.error, -s.slope, s.last⟩

theorem Config.Sound.opposite (hc : c.Sound) : c.opposite.Sound :=
  ⟨neg_lt_neg hc.limits, hc.k, hc.r, hc.ni, hc.nd, hc.ti, hc.td⟩

theorem initial_opposite (c : Config Rat) : initial c.opposite = (initial c).opposite := by
  simp [initial, Config.opposite, State.opposite]

theorem Config.error_opposite (c : Config Rat) (d : Input Rat) :
    c.opposite.error d.swapped = -c.error d := by
  have turned : d.measurement - d.setpoint = -(d.setpoint - d.measurement) := (neg_sub _ _).symm
  show (if c.reverseActing then 1 else -1) * (d.measurement - d.setpoint) / c.r = _
  rw [turned, mul_neg, neg_div]
  rfl

theorem Config.limit_opposite (hc : c.Sound) (y : Rat) : c.opposite.limit (-y) = -c.limit y :=
  Scalar.clamp_neg hc.limits.le y

theorem Config.integral_opposite (c : Config Rat) (s : State Rat) (error dt : Rat) :
    c.opposite.integral s.opposite (-error) dt = -c.integral s error dt := by
  show (if c.action.hasIntegral && decide (0 < dt) then -s.integral + -error * dt
    else -s.integral) = _
  unfold integral
  split
  · ring
  · rfl

theorem Config.slope_opposite (c : Config Rat) (s : State Rat) (error dt : Rat) :
    c.opposite.slope s.opposite (-error) dt = -c.slope s error dt := by
  show (if c.action.hasDerivative && decide (0 < dt) then
      -s.slope + dt / (c.td / c.nd + dt) * ((-error - -s.error) / dt - -s.slope)
    else -s.slope) = _
  unfold slope
  split
  · ring
  · rfl

theorem Config.unlimited_opposite (c : Config Rat) (error integral slope : Rat) :
    c.opposite.unlimited (-error) (-integral) (-slope) = -c.unlimited error integral slope := by
  show c.k * -error + (if c.action.hasIntegral then c.k / c.ti * -integral else 0) +
    (if c.action.hasDerivative then c.k * c.td * -slope else 0) = _
  unfold unlimited
  split <;> split <;> ring

/-- What the limits cut off is the opposite too, and cut off at the opposite end. -/
theorem Config.unwound_opposite (c : Config Rat) (integral unlimited y dt : Rat) :
    c.opposite.unwound (-integral) (-unlimited) (-y) dt = -c.unwound integral unlimited y dt := by
  have differs : (-y != -unlimited) = (y != unlimited) := by
    rw [bne, bne, Bool.not_inj_iff, Bool.eq_iff_iff, beq_iff_eq, beq_iff_eq, neg_inj]
  show (if -y != -unlimited && c.action.hasIntegral && decide (0 < dt) then
    -integral - (-unlimited - -y) / (c.k * c.ni) * dt else -integral) = _
  rw [differs]
  unfold unwound
  split
  · ring
  · rfl

theorem Config.demand_opposite (c : Config Rat) (last now : Rat) (s : State Rat) (d : Input Rat) :
    c.opposite.demand last now s.opposite d.swapped = -c.demand last now s d := by
  rw [demand, error_opposite, integral_opposite, slope_opposite, unlimited_opposite, demand]

theorem Config.after_opposite (hc : c.Sound) (last now : Rat) (s : State Rat) (d : Input Rat) :
    c.opposite.after last now s.opposite d.swapped = (c.after last now s d).opposite := by
  rw [after, demand_opposite, error_opposite, limit_opposite hc, integral_opposite, slope_opposite,
    unwound_opposite]
  rfl

/-- The opposite controller gives the opposite output, and keeps the opposite memory. -/
theorem step_opposite (hc : c.Sound) (now : Rat) (s : State Rat) (d : Input Rat) :
    step c.opposite now s.opposite d.swapped =
      (-(step c now s d).1, (step c now s d).2.opposite) := by
  cases hlast : s.last with
  | none =>
    have first : s.opposite.last = none := hlast
    have proportional : c.opposite.k * -c.error d = -(c.k * c.error d) := mul_neg c.k (c.error d)
    rw [step_first hlast, step_first first, Config.error_opposite, proportional,
      Config.limit_opposite hc]
    rfl
  | some last =>
    have later : s.opposite.last = some last := hlast
    rw [step_later hlast, step_later later, Config.demand_opposite, Config.limit_opposite hc,
      Config.after_opposite hc]

/-! ## Runs -/

/-- The block that a controller is. -/
def Config.built (c : Config Rat) : Block Rat (Input Rat) (State Rat) Rat :=
  .timed "PID" (initial c) (step c)

section Runs

variable {last : State Rat} {calls : List (Call Rat (Input Rat))} {ys : List Rat}

theorem runs_flipped (h : c.built.Runs s calls ys last) :
    c.flipped.built.Runs s (calls.map (Call.map Input.swapped)) ys last := by
  have mirrored : c.flipped.built.Runs (id s) (calls.map (Call.map Input.swapped)) (ys.map id)
      (id last) :=
    Block.timed_stepsAs.map_runs Block.timed_stepsAs
      (fun call s => step_flipped c call.time s call.input) h
  rwa [List.map_id] at mirrored

theorem runs_opposite (hc : c.Sound) (h : c.built.Runs s calls ys last) :
    c.opposite.built.Runs s.opposite (calls.map (Call.map Input.swapped)) (ys.map (-·))
      last.opposite :=
  Block.timed_stepsAs.map_runs Block.timed_stepsAs
    (fun call s => step_opposite hc call.time s call.input) h

end Runs

/-- **Mirror images.**  With the setpoint and the measurement in each other's place, a controller
that acts the other way gives the same outputs and keeps the same memory at every call.  One with
the opposite limits and the opposite start gives the opposite outputs, and keeps the opposite
integral, error and slope, wherever the two are clamped. -/
theorem mirrored_runs {b : Block Rat (Input Rat) (State Rat) Rat} (hb : block c = .ok b) :
    ∃ flipped opposite, block c.flipped = .ok flipped ∧ block c.opposite = .ok opposite ∧
      ∀ (began : Option Rat) (calls : ℕ → Call Rat (Input Rat)),
        ∃ (y : ℕ → Rat) (s : ℕ → State Rat), ∀ n,
          b.Runs (b.start began) ((List.range n).map calls) ((List.range n).map y) (s n) ∧
          flipped.Runs (flipped.start began)
            ((List.range n).map fun i => (calls i).map Input.swapped)
            ((List.range n).map y) (s n) ∧
          opposite.Runs (opposite.start began)
            ((List.range n).map fun i => (calls i).map Input.swapped)
            ((List.range n).map fun i => -y i) (s n).opposite := by
  obtain ⟨hc, rfl⟩ := block_eq_ok_iff.1 hb
  refine ⟨c.flipped.built, c.opposite.built, block_eq_ok_iff.2 ⟨hc.flipped, rfl⟩,
    block_eq_ok_iff.2 ⟨hc.opposite, rfl⟩, ?_⟩
  intro began calls
  refine ⟨Block.outputAt (step c) (initial c) calls, Block.memoryAt (step c) (initial c) calls, ?_⟩
  intro n
  have run : c.built.Runs (initial c) ((List.range n).map calls)
      ((List.range n).map (Block.outputAt (step c) (initial c) calls))
      (Block.memoryAt (step c) (initial c) calls n) :=
    Block.timed_stepsAs.runs_range (initial c) calls n
  have flipped := runs_flipped run
  have opposite := runs_opposite hc run
  rw [← initial_opposite] at opposite
  rw [List.map_map] at flipped opposite
  rw [List.map_map] at opposite
  exact ⟨run, flipped, opposite⟩

/-- A controller with all actions, unequal limits and a start that is not zero. -/
def uneven : Config Rat :=
  { Config.standard with action := .PID, yMin := -1, integralStart := 1 / 4, slopeStart := 1 / 2 }

theorem block_uneven : block uneven = .ok uneven.built := by
  with_unfolding_all rfl

/-- A run that is clamped at its upper limit, then at its lower one, and then at the upper one
again. -/
theorem mirrored_runs_clamped :
    let calls : ℕ → Call Rat (Input Rat) := fun i =>
      ⟨i / 4, [⟨1 / 2, 0⟩, ⟨1 / 2, 0⟩, ⟨0, 2⟩].getD i ⟨0, 0⟩⟩
    ∃ (flipped opposite : Block Rat (Input Rat) (State Rat) Rat) (s : State Rat),
      block uneven.flipped = .ok flipped ∧ block uneven.opposite = .ok opposite ∧
      flipped.Runs (flipped.start none) ((List.range 4).map fun i => (calls i).map Input.swapped)
        [1 / 2, 1, -1, 1] s ∧
      opposite.Runs (opposite.start none) ((List.range 4).map fun i => (calls i).map Input.swapped)
        [-1 / 2, -1, 1, -1] s.opposite := by
  intro calls
  obtain ⟨flipped, opposite, hflipped, hopposite, runs⟩ := mirrored_runs block_uneven
  obtain ⟨y, s, run⟩ := runs none calls
  obtain ⟨original, same, negated⟩ := run 4
  have outputs : (List.range 4).map y = [1 / 2, 1, -1, 1] := by
    rw [(original.unique (Block.timed_stepsAs.runs_range _ calls 4)).1]
    decide +kernel
  have opposites : ((List.range 4).map fun i => -y i) = [-1 / 2, -1, 1, -1] := by
    have := congrArg (List.map (-·)) outputs
    rw [List.map_map] at this
    exact this.trans (by decide +kernel)
  rw [outputs] at same
  rw [opposites] at negated
  exact ⟨flipped, opposite, s 4, hflipped, hopposite, same, negated⟩

end ControlBlocks.Pid
