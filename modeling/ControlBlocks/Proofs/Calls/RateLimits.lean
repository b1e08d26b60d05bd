import ControlBlocks.Proofs.Block.Built
import ControlBlocks.Proofs.Calls.Basic
import ControlBlocks.Proofs.Exact.Scalar
import Mathlib.Algebra.Order.Group.MinMax
import Mathlib.Order.Interval.Set.UnorderedInterval
import Mathlib.Tactic.NormNum
import Mathlib.Tactic.Ring

/-!
# Limited rates

How far an output with limited rates gets, said by the time that goes by.

* `toward` — where an output gets to in a time, on its way to an input;
* `toward_toward` — two times, one after the other, are as good as their sum;
* `value_of_le`, `memoryAt_eq` — one evaluation, and a run on one input;
* `value_mem_uIcc` — no evaluation leads past the input, or away from it;
* `moves_by_elapsed_time` — the same of the block.
-/

set_option autoImplicit false

namespace ControlBlocks.SlewRate

variable {up down u y dt dt' now last : Rat} {t : ℕ → Rat}

/-- Where an output `y` gets to in a time `dt` on its way to `u`, by at most `up` a second upwards
and `down` a second downwards. -/
def toward (up down u dt y : Rat) : Rat := y + max (-down * dt) (min (u - y) (up * dt))

theorem toward_zero (up down u y : Rat) : toward up down u 0 y = y := by
  simp [toward]

/-- From below, an output rises until it is at the input. -/
theorem toward_of_le (hup : 0 < up) (hdown : 0 < down) (hdt : 0 ≤ dt) (h : y ≤ u) :
    toward up down u dt y = min u (y + up * dt) := by
  have sinks : -down * dt ≤ 0 := mul_nonpos_of_nonpos_of_nonneg (neg_nonpos.2 hdown.le) hdt
  have rises : 0 ≤ min (u - y) (up * dt) := le_min (sub_nonneg.2 h) (mul_nonneg hup.le hdt)
  rw [toward, max_eq_right (sinks.trans rises), ← min_add_add_left, add_sub_cancel]

/-- From above, it sinks until it is there. -/
theorem toward_of_ge (hup : 0 < up) (hdt : 0 ≤ dt) (h : u ≤ y) :
    toward up down u dt y = max u (y - down * dt) := by
  have sinks : u - y ≤ up * dt := (sub_nonpos.2 h).trans (mul_nonneg hup.le hdt)
  rw [toward, min_eq_left sinks, ← max_add_add_left, add_sub_cancel, neg_mul, ← sub_eq_add_neg,
    max_comm]

/-- **The sum of the times is what counts.**  The input is not passed in the first time, so that
the second one goes on in the same direction. -/
theorem toward_toward (hup : 0 < up) (hdown : 0 < down) (hdt : 0 ≤ dt) (hdt' : 0 ≤ dt') :
    toward up down u dt' (toward up down u dt y) = toward up down u (dt + dt') y := by
  have both : 0 ≤ dt + dt' := add_nonneg hdt hdt'
  rcases le_total y u with h | h
  · have beyond : u ≤ u + up * dt' := le_add_of_nonneg_right (mul_nonneg hup.le hdt')
    rw [toward_of_le hup hdown hdt h, toward_of_le hup hdown hdt' (min_le_left u _),
      toward_of_le hup hdown both h, ← min_add_add_right, ← min_assoc, min_eq_left beyond,
      add_assoc, ← mul_add]
  · have beyond : u - down * dt' ≤ u := sub_le_self u (mul_nonneg hdown.le hdt')
    rw [toward_of_ge hup hdt h, toward_of_ge hup hdt' (le_max_left u _), toward_of_ge hup both h,
      ← max_sub_sub_right, ← max_assoc, max_eq_left beyond, sub_sub, ← mul_add]

theorem toward_mem_uIcc (hup : 0 < up) (hdown : 0 < down) (hdt : 0 ≤ dt) (u y : Rat) :
    toward up down u dt y ∈ Set.uIcc y u := by
  rcases le_total y u with h | h
  · rw [toward_of_le hup hdown hdt h, Set.uIcc_of_le h]
    exact ⟨le_min h (le_add_of_nonneg_right (mul_nonneg hup.le hdt)), min_le_left u _⟩
  · rw [toward_of_ge hup hdt h, Set.uIcc_of_ge h]
    exact ⟨le_max_left u _, max_le h (sub_le_self y (mul_nonneg hdown.le hdt))⟩

/-! ## Evaluations -/

/-- An evaluation moves the output for the time since the last one. -/
theorem value_of_le (hup : 0 < up) (hdown : 0 < down) (h : last ≤ now) (u y : Rat) :
    value up down now ⟨y, some last⟩ u = toward up down u (now - last) y := by
  rcases h.eq_or_lt with rfl | hlt
  · simp [value, toward]
  · have gone : 0 < now - last := sub_pos.2 hlt
    have limits : -down * (now - last) ≤ up * (now - last) :=
      mul_le_mul_of_nonneg_right ((neg_neg_of_pos hdown).trans hup).le gone.le
    simp only [value, gone, if_true]
    rw [Scalar.clamp_eq_max_min limits, toward]

/-- No evaluation, at whatever time, takes the output past its input or away from it. -/
theorem value_mem_uIcc (hup : 0 < up) (hdown : 0 < down) (now : Rat) (s : State Rat) (u : Rat) :
    value up down now s u ∈ Set.uIcc s.y u := by
  obtain ⟨y, _ | last⟩ := s
  · exact Set.right_mem_uIcc
  · rcases le_or_gt last now with h | h
    · rw [value_of_le hup hdown h]
      exact toward_mem_uIcc hup hdown (sub_nonneg.2 h) u y
    · have back : ¬ 0 < now - last := not_lt.2 (sub_nonpos.2 h.le)
      simp [value, back]

/-- On one input, the output has moved for the time since the start, whatever the calls between. -/
theorem memoryAt_eq (hup : 0 < up) (hdown : 0 < down) (hascend : Monotone t) (u y₀ : Rat) (n : ℕ) :
    Block.memoryAt (step up down) ⟨y₀, some (t 0)⟩ (fun i => ⟨t (i + 1), u⟩) n =
      ⟨toward up down u (t n - t 0) y₀, some (t n)⟩ := by
  induction n with
  | zero => simp [Block.memoryAt, toward_zero]
  | succ n ih =>
    have before : 0 ≤ t n - t 0 := sub_nonneg.2 (hascend (Nat.zero_le n))
    have since : 0 ≤ t (n + 1) - t n := sub_nonneg.2 (hascend (Nat.le_succ n))
    have both : t n - t 0 + (t (n + 1) - t n) = t (n + 1) - t 0 := by ring
    rw [Block.memoryAt, ih, step, value_of_le hup hdown (hascend (Nat.le_succ n)),
      toward_toward hup hdown before since, both]

/-- **The elapsed time decides.**  On one input, and from any memory with a time, each output is as
far on the way to the input as the rates allow in the time since then, however many calls there are
on the way and whenever they come.  On any inputs and at any times, each output lies between the one
before it and its input. -/
theorem moves_by_elapsed_time (hup : 0 < up) (hdown : 0 < down) :
    ∃ limiter, block up down = .ok limiter ∧
      (∀ (y₀ u : Rat) (t : ℕ → Rat), Monotone t → ∀ n,
        limiter.Runs ⟨y₀, some (t 0)⟩ ((List.range n).map fun i => ⟨t (i + 1), u⟩)
          ((List.range n).map fun i => toward up down u (t (i + 1) - t 0) y₀)
          ⟨toward up down u (t n - t 0) y₀, some (t n)⟩) ∧
      ∀ (s : State Rat) (calls : ℕ → Call Rat Rat), ∃ y : ℕ → Rat,
        (∀ n, ∃ last, limiter.Runs s ((List.range n).map calls) ((List.range n).map y) last) ∧
        y 0 ∈ Set.uIcc s.y (calls 0).input ∧
        ∀ i, y (i + 1) ∈ Set.uIcc (y i) (calls (i + 1)).input := by
  refine ⟨_, block_eq_ok_iff.2 ⟨⟨hup, hdown⟩, rfl⟩, ?constant, ?varying⟩
  case constant =>
    intro y₀ u t hascend n
    have memory := memoryAt_eq hup hdown hascend u y₀
    have output (i : ℕ) :
        Block.outputAt (step up down) ⟨y₀, some (t 0)⟩ (fun i => ⟨t (i + 1), u⟩) i =
        toward up down u (t (i + 1) - t 0) y₀ := congrArg State.y (memory (i + 1))
    rw [← memory n, ← funext output]
    exact Block.timed_stepsAs.runs_range _ _ n
  case varying =>
    intro s calls
    let memory := Block.memoryAt (step up down) s calls
    have within (i : ℕ) : Block.outputAt (step up down) s calls i ∈
        Set.uIcc (memory i).y (calls i).input :=
      value_mem_uIcc hup hdown (calls i).time (memory i) (calls i).input
    exact ⟨_, fun n => ⟨memory n, Block.timed_stepsAs.runs_range s calls n⟩, within 0,
      fun i => within (i + 1)⟩

/-- Two calls at each time: the output is at the input after the fourth of them on the way up, and
still on its way down after the fifth. -/
theorem moves_by_elapsed_time_twice :
    let t : ℕ → Rat := fun i => (i / 2 : ℕ)
    ∃ limiter : Block Rat Rat (State Rat) Rat, block 2 (1 / 2) = .ok limiter ∧
      limiter.Runs ⟨0, some 0⟩ ((List.range 5).map fun i => ⟨t (i + 1), 3⟩) [0, 2, 2, 3, 3]
        ⟨3, some 2⟩ ∧
      limiter.Runs ⟨3, some 0⟩ ((List.range 5).map fun i => ⟨t (i + 1), 0⟩) [3, 5 / 2, 5 / 2, 2, 2]
        ⟨2, some 2⟩ := by
  intro t
  have ascending : Monotone t := fun i j hij => Nat.cast_le.2 (Nat.div_le_div_right hij)
  obtain ⟨limiter, built, moves, -⟩ :=
    moves_by_elapsed_time (by norm_num : (0 : Rat) < 2) (by norm_num : (0 : Rat) < 1 / 2)
  have rising := moves 0 3 t ascending 5
  have sinking := moves 3 0 t ascending 5
  have risen : (List.range 5).map (fun i => toward 2 (1 / 2) 3 (t (i + 1) - t 0) 0) =
      [0, 2, 2, 3, 3] := by decide +kernel
  have sunk : (List.range 5).map (fun i => toward 2 (1 / 2) 0 (t (i + 1) - t 0) 3) =
      [3, 5 / 2, 5 / 2, 2, 2] := by decide +kernel
  have top : toward 2 (1 / 2) 3 (t 5 - t 0) 0 = 3 := by decide +kernel
  have halfway : toward 2 (1 / 2) 0 (t 5 - t 0) 3 = 2 := by decide +kernel
  rw [risen, top] at rising
  rw [sunk, halfway] at sinking
  exact ⟨limiter, built, rising, sinking⟩

end ControlBlocks.SlewRate
