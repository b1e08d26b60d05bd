import ControlBlocks.Proofs.Controller.Basic
import Mathlib.Data.List.Chain
import Mathlib.Tactic.FieldSimp
import Mathlib.Tactic.GCongr
import Mathlib.Tactic.Ring

/-!
# Windup

How far the integral of a PI controller can get while its output is clamped.

* `integral_after_eq` — an evaluation takes the integral a part of the way to a target, whether its
  output is clamped or not;
* `Config.abs_target_le` — the target is bounded as long as the errors are;
* `abs_integral_step_le`, `abs_integral_le` — the integral stays within that bound, over one
  evaluation and over a run.
-/

set_option autoImplicit false

namespace ControlBlocks.Pid

variable {c : Config Rat} {s : State Rat} {d : Input Rat} {last now E : Rat}

/-- How far from zero the integral can get while no error is beyond `E`. -/
def Config.integralBound (c : Config Rat) (E : Rat) : Rat :=
  c.ti * (max |c.yMin| |c.yMax| / c.k + E + c.ni * E)

/-- Where an evaluation takes the integral to: to the one whose demand is the output `y`, and on by
what the error adds up to in the time that is left of `ti * ni`. -/
def Config.target (c : Config Rat) (error y dt : Rat) : Rat :=
  c.ti * (y / c.k - error + (1 - c.weight dt) * c.ni * error)

/-- **The integral is a weighted mean** of what it was and the target.  This holds of clamped and
unclamped outputs alike: where the output is the demand, nothing is drawn back. -/
theorem integral_after_eq (hc : c.Sound) (haction : c.action = .PI) (hdt : 0 < now - last) :
    (c.after last now s d).integral =
      (1 - c.weight (now - last)) * s.integral + c.weight (now - last) *
        c.target (c.error d) (c.limit (c.demand last now s d)) (now - last) := by
  have hk := hc.k
  have hni := hc.ni
  have hti := hc.ti (by rw [haction]; rfl)
  have integrates : c.action.hasIntegral = true := by rw [haction]; rfl
  have demand : c.demand last now s d = c.k * c.error d +
      c.k / c.ti * (s.integral + c.error d * (now - last)) := by
    simp [Config.demand, Config.unlimited, haction, Action.hasIntegral, Action.hasDerivative,
      Config.integral, hdt]
  have drawn : (c.after last now s d).integral = s.integral + c.error d * (now - last) -
      (c.demand last now s d - c.limit (c.demand last now s d)) / (c.k * c.ni) * (now - last) := by
    rw [Config.after, Config.unwound_of_pos integrates hdt, Config.integral_of_pos integrates hdt]
  rw [drawn]
  generalize c.limit (c.demand last now s d) = y
  rw [demand, Config.target, Config.weight]
  field_simp
  ring

section Bound

variable {error y dt : Rat}

/-- The target is bounded as long as the error is. -/
theorem Config.abs_target_le (hc : c.Sound) (hti : 0 < c.ti) (herror : |error| ≤ E)
    (hy : |y| ≤ max |c.yMin| |c.yMax|) (hdt : 0 ≤ dt) (hgentle : dt ≤ c.ti * c.ni) :
    |c.target error y dt| ≤ c.integralBound E := by
  have hk := hc.k
  have hni := hc.ni
  have left : 0 ≤ 1 - c.weight dt := sub_nonneg.2 ((weight_le_one_iff hc hti).2 hgentle)
  have leftover : 1 - c.weight dt ≤ 1 := sub_le_self 1 (weight_nonneg hc hti hdt)
  have output : |y / c.k| ≤ max |c.yMin| |c.yMax| / c.k := by
    rw [abs_div, abs_of_pos hk]
    gcongr
  have excess : |(1 - c.weight dt) * c.ni * error| ≤ c.ni * E := by
    rw [abs_mul, abs_of_nonneg (mul_nonneg left hni.le)]
    calc (1 - c.weight dt) * c.ni * |error| ≤ 1 * c.ni * E := by gcongr
      _ = c.ni * E := by rw [one_mul]
  calc |c.target error y dt|
      = c.ti * |y / c.k - error + (1 - c.weight dt) * c.ni * error| := by
        rw [target, abs_mul, abs_of_pos hti]
    _ ≤ c.ti * (|y / c.k| + |error| + |(1 - c.weight dt) * c.ni * error|) := by
        gcongr
        exact (abs_add_le _ _).trans (add_le_add_left (abs_sub _ _) _)
    _ ≤ c.integralBound E := by
        rw [integralBound]
        gcongr

end Bound

/-- Nothing comes to the integral where no time has gone by. -/
theorem integral_after_of_not_pos (hdt : ¬ 0 < now - last) :
    (c.after last now s d).integral = s.integral := by
  rw [Config.after, Config.unwound_of_not fun h => hdt h.2, Config.integral_of_not_pos hdt]

/-- **One evaluation keeps the bound**, whether its output is clamped or not. -/
theorem abs_integral_step_le (hc : c.Sound) (haction : c.action = .PI)
    (hs : |s.integral| ≤ c.integralBound E) (herror : |c.error d| ≤ E)
    (htime : ∀ last, s.last = some last → now - last ≤ c.ti * c.ni) :
    |(step c now s d).2.integral| ≤ c.integralBound E := by
  have hti : 0 < c.ti := hc.ti (by rw [haction]; rfl)
  cases hlast : s.last with
  | none =>
    rw [step_first hlast]
    exact hs
  | some last =>
    rw [step_later hlast]
    by_cases hdt : 0 < now - last
    · have gentle := htime last hlast
      have weight := Config.weight_nonneg hc hti hdt.le
      have left : 0 ≤ 1 - c.weight (now - last) :=
        sub_nonneg.2 ((Config.weight_le_one_iff hc hti).2 gentle)
      have output := Scalar.abs_clamp_le hc.limits.le (c.demand last now s d)
      have target := Config.abs_target_le hc hti herror output hdt.le gentle
      simp only [integral_after_eq hc haction hdt]
      -- both ends of the way are within the bound, and so is what lies between them
      calc |(1 - c.weight (now - last)) * s.integral + c.weight (now - last) *
              c.target (c.error d) (c.limit (c.demand last now s d)) (now - last)|
          ≤ (1 - c.weight (now - last)) * |s.integral| + c.weight (now - last) *
              |c.target (c.error d) (c.limit (c.demand last now s d)) (now - last)| := by
            refine (abs_add_le _ _).trans (le_of_eq ?_)
            rw [abs_mul, abs_mul, abs_of_nonneg left, abs_of_nonneg weight]
        _ ≤ (1 - c.weight (now - last)) * c.integralBound E +
              c.weight (now - last) * c.integralBound E := by
            gcongr
            exact target
        _ = c.integralBound E := by ring
    · simpa only [integral_after_of_not_pos hdt] using hs

/-- What keeps the integral bounded: it is within the bound, no error to come is beyond `E`, and no
two evaluations are farther apart than `ti * ni`. -/
structure Gentle (c : Config Rat) (E : Rat) (s : State Rat)
    (calls : List (Call Rat (Input Rat))) : Prop where
  integral : |s.integral| ≤ c.integralBound E
  errors : ∀ call ∈ calls, |c.error call.input| ≤ E
  times : (s.last.toList ++ calls.map Call.time).IsChain fun t t' => t' - t ≤ c.ti * c.ni

theorem Gentle.step {call : Call Rat (Input Rat)} {calls : List (Call Rat (Input Rat))}
    (hc : c.Sound) (haction : c.action = .PI) (h : Gentle c E s (call :: calls)) :
    Gentle c E (Pid.step c call.time s call.input).2 calls where
  integral := by
    have herror := h.errors call List.mem_cons_self
    refine abs_integral_step_le hc haction h.integral herror ?_
    intro last hlast
    have times := h.times
    simp only [hlast, Option.toList_some, List.map_cons, List.cons_append, List.nil_append,
      List.isChain_cons_cons] at times
    exact times.1
  errors := fun later hlater => h.errors later (List.mem_cons_of_mem call hlater)
  times := by
    have times := h.times
    rw [List.map_cons] at times
    simpa using times.right_of_append

/-- **The integral stays bounded.**  A PI controller that starts within the bound, and whose
errors and steps are not too large, gets through all calls and never leaves the bound, wherever its
output is clamped and whether the times ascend or not. -/
theorem abs_integral_le {b : Block Rat (Input Rat) (State Rat) Rat} (hb : block c = .ok b)
    (haction : c.action = .PI) (hstart : |c.integralStart| ≤ c.integralBound E)
    {calls : List (Call Rat (Input Rat))} (herrors : ∀ call ∈ calls, |c.error call.input| ≤ E)
    (htimes : (calls.map Call.time).IsChain fun t t' => t' - t ≤ c.ti * c.ni)
    (began : Option Rat) :
    (∃ ys s, b.Runs (b.start began) calls ys s) ∧
      ∀ before ys s, before <+: calls → b.Runs (b.start began) before ys s →
        |s.integral| ≤ c.integralBound E := by
  obtain ⟨hc, rfl⟩ := block_eq_ok_iff.1 hb
  refine ⟨Block.timed_stepsAs.exists_runs _ calls, ?_⟩
  rintro before ys s ⟨after, rfl⟩ run
  have gentle : Gentle c E (initial c) before := by
    refine ⟨hstart, fun call hcall => herrors call (List.mem_append_left after hcall), ?_⟩
    rw [List.map_append] at htimes
    exact htimes.left_of_append
  have kept := run.keeps (Gentle c E) (fun h hcall => ?_) gentle
  · exact kept.integral
  · rw [Block.timed_stepsAs, Except.ok.injEq] at hcall
    have := h.step hc haction
    rwa [hcall] at this

/-- A run whose output is clamped all the time. -/
theorem abs_integral_le_clamped :
    ∃ (b : Block Rat (Input Rat) (State Rat) Rat) (s : State Rat), block .standard = .ok b ∧
      b.Runs (b.start none) [⟨0, ⟨2, 0⟩⟩, ⟨2 / 5, ⟨2, 0⟩⟩] [1, 1] s ∧
      s.integral = -16 / 45 ∧ |s.integral| ≤ Config.integralBound .standard 2 := by
  let b : Block Rat (Input Rat) (State Rat) Rat := .timed "PID" (initial .standard) (step .standard)
  have hb : block .standard = .ok b := by with_unfolding_all rfl
  have first : step .standard 0 (initial .standard) ⟨2, 0⟩ =
      ((1, ⟨0, 2, 0, some 0⟩) : Rat × State Rat) := by decide +kernel
  have second : step .standard (2 / 5) ⟨0, 2, 0, some 0⟩ ⟨2, 0⟩ =
      ((1, ⟨-16 / 45, 2, 0, some (2 / 5)⟩) : Rat × State Rat) := by decide +kernel
  have run : b.Runs (b.start none) [⟨0, ⟨2, 0⟩⟩, ⟨2 / 5, ⟨2, 0⟩⟩] [1, 1]
      ⟨-16 / 45, 2, 0, some (2 / 5)⟩ :=
    .cons (congrArg Except.ok first) (.cons (congrArg Except.ok second) (.nil _))
  refine ⟨b, _, hb, run, rfl, ?_⟩
  exact (abs_integral_le hb rfl (by decide +kernel) (by decide +kernel) (by decide +kernel) none).2
    _ _ _ List.prefix_rfl run

end ControlBlocks.Pid
