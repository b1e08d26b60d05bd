import ControlBlocks.Proofs.Controller.Basic
import Mathlib.Tactic.FieldSimp
import Mathlib.Tactic.Ring

/-!
# The controller called once more

What a second evaluation at the same time does to the output.

* `after_after` — it does nothing to the memory;
* `demand_again_of_pos` — its demand is the first output and what is left of the excess over it;
* `repeated_call_iff` — it gives the same output unless the first evaluation drew back more than
  the limits had cut off.
-/

set_option autoImplicit false

namespace ControlBlocks.Pid

variable {c : Config Rat} {s : State Rat} {d : Input Rat} {now last : Rat}

/-- No time goes by between the evaluations, so that the second one leaves the memory as it is. -/
theorem after_after (c : Config Rat) (last now : Rat) (s : State Rat) (d : Input Rat) :
    c.after now now (c.after last now s d) d = c.after last now s d := by
  have still : ¬ 0 < now - now := by simp
  rw [Config.after, Config.unwound_of_not fun h => still h.2, Config.integral_of_not_pos still,
    Config.slope_of_not_pos still]
  rfl

/-- The demand of the second evaluation is that of the integral and the slope that are held. -/
theorem demand_again (c : Config Rat) (last now : Rat) (s : State Rat) (d : Input Rat) :
    c.demand now now (c.after last now s d) d =
      c.unlimited (c.error d) (c.after last now s d).integral (c.after last now s d).slope := by
  have still : ¬ 0 < now - now := by simp
  rw [Config.demand, Config.integral_of_not_pos still, Config.slope_of_not_pos still]

/-- Without an integral, or where no time has gone by, the demand stays. -/
theorem demand_again_of_not (h : ¬ (c.action.hasIntegral = true ∧ 0 < now - last)) :
    c.demand now now (c.after last now s d) d = c.demand last now s d := by
  have held : (c.after last now s d).integral = c.integral s (c.error d) (now - last) :=
    Config.unwound_of_not h
  rw [demand_again, held]
  rfl

/-- With an integral, a part of what the limits cut off is left. -/
theorem demand_again_of_pos (hc : c.Sound) (hi : c.action.hasIntegral = true)
    (hdt : 0 < now - last) :
    c.demand now now (c.after last now s d) d = c.limit (c.demand last now s d) +
      (c.demand last now s d - c.limit (c.demand last now s d)) *
        (1 - c.weight (now - last)) := by
  have hk := hc.k
  have hni := hc.ni
  have hti := hc.ti hi
  have drawn : (c.after last now s d).integral = c.integral s (c.error d) (now - last) -
      (c.demand last now s d - c.limit (c.demand last now s d)) / (c.k * c.ni) * (now - last) := by
    rw [Config.after, Config.unwound_of_pos hi hdt]
  have linear (integral drawn slope : Rat) : c.unlimited (c.error d) (integral - drawn) slope =
      c.unlimited (c.error d) integral slope - c.k / c.ti * drawn := by
    simp only [Config.unlimited, hi, if_true]
    ring
  have first : c.unlimited (c.error d) (c.integral s (c.error d) (now - last))
      (c.after last now s d).slope = c.demand last now s d := rfl
  rw [demand_again, drawn, linear, first, Config.weight]
  generalize c.demand last now s d = v
  field_simp
  ring

/-- The output stays just if the demand was within the limits, or no more was drawn back than they
had cut off. -/
theorem limit_demand_again_iff (hc : c.Sound) :
    c.limit (c.demand now now (c.after last now s d) d) = c.limit (c.demand last now s d) ↔
      (c.action.hasIntegral = true →
        c.limit (c.demand last now s d) = c.demand last now s d ∨ now - last ≤ c.ti * c.ni) := by
  by_cases h : c.action.hasIntegral = true ∧ 0 < now - last
  · obtain ⟨hi, hdt⟩ := h
    rw [demand_again_of_pos hc hi hdt]
    unfold Config.limit
    rw [Scalar.clamp_toward_iff hc.limits, sub_nonneg, Config.weight_le_one_iff hc (hc.ti hi)]
    simp only [hi, forall_const]
  · rw [demand_again_of_not h]
    refine iff_of_true rfl fun hi => .inr ?_
    have late : now - last ≤ 0 := not_lt.1 fun hdt => h ⟨hi, hdt⟩
    exact late.trans (mul_pos (hc.ti hi) hc.ni).le

/-- **The same call twice.**  After any run with a call in it, the second of two calls with the same
input at the same time leaves the memory as it is.  Its output is that of the first one, except
where the first one was clamped and more time than `ti * ni` had gone by before it: there the
integral is drawn back past the point where the output is at its limit. -/
theorem repeated_call_iff {b : Block Rat (Input Rat) (State Rat) Rat} (hb : block c = .ok b)
    (began : Option Rat) {calls : List (Call Rat (Input Rat))} {before : Call Rat (Input Rat)}
    {ys : List Rat} (run : b.Runs (b.start began) (calls ++ [before]) ys s) (now : Rat)
    (d : Input Rat) :
    ∃ y y' s', b.call ⟨now, d⟩ s = .ok (y, s') ∧ b.call ⟨now, d⟩ s' = .ok (y', s') ∧
      (y' = y ↔ (c.action.hasIntegral = true →
        c.limit (c.demand before.time now s d) = c.demand before.time now s d ∨
          now - before.time ≤ c.ti * c.ni)) := by
  obtain ⟨hc, rfl⟩ := block_eq_ok_iff.1 hb
  have hlast : s.last = some before.time := by
    obtain ⟨s', _, _, -, ends, -⟩ := Block.Runs.append_iff.1 run
    obtain ⟨_, hcall, -⟩ := Block.Runs.singleton_iff.1 ends
    rw [Block.timed_stepsAs, Except.ok.injEq] at hcall
    have := last_step c before.time s' before.input
    rwa [hcall] at this
  have first : step c now s d = _ := step_later hlast
  have second : step c now (c.after before.time now s d) d = _ := step_later rfl
  rw [after_after] at second
  exact ⟨_, _, c.after before.time now s d, congrArg Except.ok first, congrArg Except.ok second,
    limit_demand_again_iff hc⟩

/-- A controller whose integral is drawn back within half a second. -/
def fast : Config Rat := { Config.standard with ti := 1, ni := 1 / 2 }

theorem block_fast : block fast = .ok (.timed "PID" (initial fast) (step fast)) := by
  with_unfolding_all rfl

theorem step_fast : step fast 0 (initial fast) ⟨5, 0⟩ = (1, ⟨0, 5, 0, some 0⟩) := by
  decide +kernel

/-- After half a second, the clamped output stays. -/
theorem repeated_call_fast :
    ∃ (b : Block Rat (Input Rat) (State Rat) Rat) (s : State Rat), block fast = .ok b ∧
      b.Runs (b.start none) ([] ++ [⟨0, ⟨5, 0⟩⟩]) [1] s ∧
      ∃ y y' s', b.call ⟨1 / 2, ⟨5, 0⟩⟩ s = .ok (y, s') ∧
        b.call ⟨1 / 2, ⟨5, 0⟩⟩ s' = .ok (y', s') ∧ y' = y := by
  have run : (Block.timed "PID" (initial fast) (step fast)).Runs (initial fast)
      ([] ++ [⟨0, ⟨5, 0⟩⟩]) [1] ⟨0, 5, 0, some 0⟩ :=
    .cons (congrArg Except.ok step_fast) (.nil _)
  obtain ⟨y, y', s', hfirst, hsecond, hsame⟩ :=
    repeated_call_iff block_fast none run (1 / 2) ⟨5, 0⟩
  refine ⟨_, _, block_fast, run, y, y', s', hfirst, hsecond, hsame.2 ?_⟩
  exact fun _ => .inr (by decide +kernel)

/-- After a second, the output falls from its upper limit to its lower one. -/
theorem exists_repeated_output_changed :
    ∃ (b : Block Rat (Input Rat) (State Rat) Rat) (s s' : State Rat), block fast = .ok b ∧
      b.Runs (b.start none) [⟨0, ⟨5, 0⟩⟩] [1] s ∧
      b.call ⟨1, ⟨5, 0⟩⟩ s = .ok (1, s') ∧ b.call ⟨1, ⟨5, 0⟩⟩ s' = .ok (0, s') := by
  have first : step fast 1 ⟨0, 5, 0, some 0⟩ ⟨5, 0⟩ = (1, ⟨-13, 5, 0, some 1⟩) := by
    decide +kernel
  have second : step fast 1 ⟨-13, 5, 0, some 1⟩ ⟨5, 0⟩ = (0, ⟨-13, 5, 0, some 1⟩) := by
    decide +kernel
  exact ⟨_, _, _, block_fast, .cons (congrArg Except.ok step_fast) (.nil _),
    congrArg Except.ok first, congrArg Except.ok second⟩

end ControlBlocks.Pid
