import ControlBlocks.Proofs.Block.Built
import ControlBlocks.Proofs.Calls.Basic
import Mathlib.Algebra.Order.Field.Rat
import Mathlib.Data.List.DropRight
import Mathlib.Tactic.FieldSimp
import Mathlib.Tactic.Linarith
import Mathlib.Tactic.Ring

/-!
# The moving mean called once more

What a second call with the same input at the same time does.

* `extend_extend` — it adds the input to the window once more;
* `mean_append` — the mean moves toward what is added;
* `repeated_sample_iff` — the output is the same only if it was the input.
-/

set_option autoImplicit false

namespace ControlBlocks.MovingAverage

variable {delta : Rat} {window : List (Rat × Rat)}

/-- A new input is never too old for the window. -/
theorem extend_eq (hdelta : 0 < delta) (now : Rat) (window : List (Rat × Rat)) (u : Rat) :
    extend delta now window u =
      window.dropWhile (fun (t, _) => decide (t < now - delta)) ++ [(now, u)] := by
  have recent : ¬ now < now - delta := by linarith
  unfold extend
  rw [List.dropWhile_append]
  split
  · rename_i hempty
    rw [List.isEmpty_iff.1 hempty]
    simp [recent]
  · rfl

/-- Of a window that has just been extended nothing is too old. -/
theorem extend_extend (hdelta : 0 < delta) (now : Rat) (window : List (Rat × Rat)) (u v : Rat) :
    extend delta now (extend delta now window u) v = extend delta now window u ++ [(now, v)] := by
  rw [extend_eq hdelta]
  unfold extend
  rw [List.dropWhile_idempotent]

theorem extend_ne_nil (hdelta : 0 < delta) (now : Rat) (window : List (Rat × Rat)) (u : Rat) :
    extend delta now window u ≠ [] := by
  rw [extend_eq hdelta]
  simp

/-- The output is the mean of the inputs in the new window. -/
theorem step_eq (hdelta : 0 < delta) (now : Rat) (s : State Rat) (u : Rat) :
    step delta now s u =
      (mean (extend delta now s.window u), ⟨extend delta now s.window u⟩) := by
  have filled := extend_ne_nil hdelta now s.window u
  simp [step, filled]

/-- A mean over `n` inputs and one more. -/
theorem mean_append (hwindow : window ≠ []) (t u : Rat) :
    mean (window ++ [(t, u)]) = (window.length * mean window + u) / (window.length + 1) := by
  have filled : (window.length : Rat) ≠ 0 := by simpa using hwindow
  have total : Scalar.sum ((window ++ [(t, u)]).map (·.2)) =
      Scalar.sum (window.map (·.2)) + u := by
    simp only [Scalar.sum, List.map_append, List.map_cons, List.map_nil, List.foldl_concat]
  unfold mean
  rw [total]
  simp only [List.length_append, List.length_singleton, Nat.cast_add, Nat.cast_one, Int.cast_add,
    Int.cast_natCast, Int.cast_one]
  field_simp

/-- A mean stays just if what is added is the mean. -/
theorem mean_append_eq_iff (hwindow : window ≠ []) (t u : Rat) :
    mean (window ++ [(t, u)]) = mean window ↔ mean window = u := by
  have count : (window.length : Rat) + 1 ≠ 0 := by positivity
  rw [mean_append hwindow, div_eq_iff count]
  constructor
  · intro h
    linarith
  · intro h
    rw [h]
    ring

/-- **The same call twice.**  The second of two calls with the same input at the same time adds the
input to the window once more, which moves the mean toward it.  The output is the same only where
it was the input already. -/
theorem repeated_sample_iff {b : Block Rat Rat (State Rat) Rat} (hb : block delta = .ok b)
    (s : State Rat) (c : Call Rat Rat) :
    ∃ y y' s' s'', b.call c s = .ok (y, s') ∧ b.call c s' = .ok (y', s'') ∧
      s''.window = s'.window ++ [(c.time, c.input)] ∧
      y' = (s'.window.length * y + c.input) / (s'.window.length + 1) ∧
      (y' = y ↔ y = c.input) := by
  obtain ⟨hdelta, rfl⟩ := block_eq_ok_iff.1 hb
  have filled := extend_ne_nil hdelta c.time s.window c.input
  have first := step_eq hdelta c.time s c.input
  have second := step_eq hdelta c.time ⟨extend delta c.time s.window c.input⟩ c.input
  rw [extend_extend hdelta] at second
  exact ⟨_, _, _, _, congrArg Except.ok first, congrArg Except.ok second, rfl,
    mean_append filled c.time c.input, mean_append_eq_iff filled c.time c.input⟩

theorem block_ten : block (10 : Rat) = .ok (.timed "MovingAverage" ⟨[]⟩ (step 10)) :=
  block_eq_ok_iff.2 ⟨by decide, rfl⟩

/-- Where the window holds the input alone, the output stays. -/
theorem repeated_sample_alone :
    ∃ b : Block Rat Rat (State Rat) Rat, block 10 = .ok b ∧
      ∃ y y' s' s'', b.call ⟨1, 3⟩ (b.start none) = .ok (y, s') ∧
        b.call ⟨1, 3⟩ s' = .ok (y', s'') ∧ s''.window = [(1, 3), (1, 3)] ∧ y' = y := by
  have alone : step (10 : Rat) 1 ⟨[]⟩ 3 = (3, ⟨[(1, 3)]⟩) := by decide +kernel
  obtain ⟨y, y', s', s'', hfirst, hsecond, hwindow, -, hsame⟩ :=
    repeated_sample_iff block_ten ⟨[]⟩ ⟨1, 3⟩
  have output : (3, ⟨[(1, 3)]⟩) = (y, s') := by
    rw [← alone]
    exact Except.ok.inj hfirst
  cases output
  exact ⟨_, block_ten, 3, y', _, s'', hfirst, hsecond, hwindow, hsame.2 rfl⟩

/-- After an input that differs, the output moves. -/
theorem exists_repeated_sample_changed :
    ∃ (b : Block Rat Rat (State Rat) Rat) (s s' s'' : State Rat), block 10 = .ok b ∧
      b.Runs (b.start none) [⟨0, 0⟩] [0] s ∧
      b.call ⟨1, 3⟩ s = .ok (3 / 2, s') ∧ b.call ⟨1, 3⟩ s' = .ok (2, s'') := by
  have earlier : step (10 : Rat) 0 ⟨[]⟩ 0 = (0, ⟨[(0, 0)]⟩) := by decide +kernel
  have first : step (10 : Rat) 1 ⟨[(0, 0)]⟩ 3 = (3 / 2, ⟨[(0, 0), (1, 3)]⟩) := by decide +kernel
  have second : step (10 : Rat) 1 ⟨[(0, 0), (1, 3)]⟩ 3 = (2, ⟨[(0, 0), (1, 3), (1, 3)]⟩) := by
    decide +kernel
  exact ⟨_, _, _, _, block_ten, .cons (congrArg Except.ok earlier) (.nil _),
    congrArg Except.ok first, congrArg Except.ok second⟩

end ControlBlocks.MovingAverage
