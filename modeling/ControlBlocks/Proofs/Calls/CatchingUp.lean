import ControlBlocks.Proofs.Block.Built
import ControlBlocks.Proofs.Calls.Basic
import ControlBlocks.Proofs.Exact.Scalar
import ControlBlocks.Proofs.Exact.Schedule

/-!
# Catching up

Where the schedules of the sampling blocks and of the pulses stand after a look at the time.

* `SampleClock.exists_stepsPast` — the loop that moves a clock ends, on the next instant;
* `SampleClock.timeUntilSample_pos`, `timeUntilSample_le` — how long it is until then;
* `VariablePulse.begin_of_lt`, `begin_of_le` — the memory of the pulses before their instant and
  from it on;
* `VariablePulse.next_begin` — their schedule moves as a clock does;
* `schedules_catch_up` — all of this together.
-/

set_option autoImplicit false

namespace ControlBlocks

variable {now : Rat}

namespace SampleClock

variable {c : SampleClock Rat}

/-- A sample is due from the instant that the clock shows. -/
theorem fst_tick_iff (c : SampleClock Rat) (now : Rat) : (c.tick now).1 = true ↔ c.next ≤ now := by
  rw [fst_tick]
  exact decide_eq_true_iff

/-- A clock that is behind is moved by the loop that adds up periods, and shows the instant at which
the loop ends. -/
theorem exists_stepsPast (hperiod : 0 < c.period) (hdue : c.next ≤ now) :
    ∃ m : ℕ, StepsPast c.period now c.next m (c.tick now).2.next ∧
      IsLeast {k : ℕ | now < c.next + k * c.period} m ∧
      (c.tick now).2 = ⟨c.period, c.next + m * c.period⟩ := by
  obtain ⟨m, hm, heq⟩ := catchUp_exact hperiod c.next now
  have later : (c.tick now).2 = ⟨c.period, c.next + m * c.period⟩ := by
    rw [tick_of_le hdue, ← heq]
    rfl
  refine ⟨m, stepsPast_iff.2 ⟨hm, ?_⟩, hm, later⟩
  rw [later]

theorem timeUntilSample_eq_max (c : SampleClock Rat) (now : Rat) :
    c.timeUntilSample now = max (c.next - now) 0 :=
  Scalar.larger_eq_max (c.next - now) 0

/-- After a look at the time a sample is still to come. -/
theorem timeUntilSample_pos (hperiod : 0 < c.period) (now : Rat) :
    0 < (c.tick now).2.timeUntilSample now := by
  rw [timeUntilSample_eq_max]
  exact lt_max_of_lt_left (sub_pos.2 (lt_next_tick hperiod now))

/-- After a sample was taken, the next one is no more than a period away. -/
theorem timeUntilSample_le (hperiod : 0 < c.period) (hdue : c.next ≤ now) :
    (c.tick now).2.timeUntilSample now ≤ c.period := by
  rw [timeUntilSample_eq_max, tick_of_le hdue]
  exact max_le (sub_le_iff_le_add'.2 (catchUp_le_add hperiod hdue)) hperiod.le

end SampleClock

namespace VariablePulse

variable {s : State Rat}

theorem begin_of_lt (h : now < s.next) (period u : Rat) : begin period now s u = s := by
  rw [begin, if_neg (not_le.2 h)]

theorem begin_of_le (h : s.next ≤ now) (period u : Rat) :
    begin period now s u =
      ⟨true, catchUp period s.next now - period + Scalar.clamp 0 period u,
        catchUp period s.next now, Scalar.clamp 0 period u⟩ := by
  rw [begin, if_pos h]

/-- The instant of the next pulse moves as that of the next sample does. -/
theorem next_begin (period now : Rat) (s : State Rat) (u : Rat) :
    (begin period now s u).next = ((⟨period, s.next⟩ : SampleClock Rat).tick now).2.next := by
  rcases lt_or_ge now s.next with hearly | hdue
  · rw [begin_of_lt hearly, SampleClock.tick_of_lt hearly]
  · rw [begin_of_le hdue, SampleClock.tick_of_le hdue]
    rfl

/-- The next pulse is always to come. -/
theorem lt_next_begin {period : Rat} (hperiod : 0 < period) (now : Rat) (s : State Rat) (u : Rat) :
    now < (begin period now s u).next := by
  rw [next_begin]
  exact SampleClock.lt_next_tick hperiod now

end VariablePulse

/-- **Schedules end on the next instant.**  A clock has a sample due just from its instant on.
Before that it stands still; from then on the loop that adds up periods ends, after the least number
of turns that leads past the time, and the clock shows the instant at which it ends.  A sample is
then still to come, and after one was taken it is no more than a period away.  The schedule of the
pulses goes to the same instant. -/
theorem schedules_catch_up {c : SampleClock Rat} (hperiod : 0 < c.period) (now : Rat) :
    let due := (c.tick now).1
    let later := (c.tick now).2
    (due = true ↔ c.next ≤ now) ∧ (now < c.next → later = c) ∧
      (c.next ≤ now → ∃ m : ℕ, StepsPast c.period now c.next m later.next ∧
        IsLeast {k : ℕ | now < c.next + k * c.period} m ∧
        later = ⟨c.period, c.next + m * c.period⟩) ∧
      0 < later.timeUntilSample now ∧ (due = true → later.timeUntilSample now ≤ c.period) ∧
      ∃ pulse, VariablePulse.block c.period = .ok pulse ∧
        ∀ (s : VariablePulse.State Rat) (u : Rat), s.next = c.next →
          ∃ y s', pulse.call ⟨now, u⟩ s = .ok (y, s') ∧ s'.next = later.next := by
  intro due later
  refine ⟨c.fst_tick_iff now, ?_, SampleClock.exists_stepsPast hperiod,
    SampleClock.timeUntilSample_pos hperiod now, ?_, ?_⟩
  · intro hearly
    exact congrArg Prod.snd (SampleClock.tick_of_lt hearly)
  · intro hdue
    exact SampleClock.timeUntilSample_le hperiod ((c.fst_tick_iff now).1 hdue)
  · refine ⟨_, VariablePulse.block_eq_ok_iff.2 ⟨hperiod, rfl⟩, fun s u hs => ⟨_, _, rfl, ?_⟩⟩
    show (VariablePulse.begin c.period now s u).next = later.next
    rw [VariablePulse.next_begin, hs]

/-- A clock that is four instants behind, with periods of half a second. -/
theorem schedules_catch_up_behind :
    let c : SampleClock Rat := ⟨1 / 2, 1 / 2⟩
    c.tick (11 / 5) = (true, ⟨1 / 2, 5 / 2⟩) ∧ StepsPast (1 / 2) (11 / 5) (1 / 2 : Rat) 4 (5 / 2) ∧
      ((⟨1 / 2, 5 / 2⟩ : SampleClock Rat).timeUntilSample (11 / 5) ≤ 1 / 2) := by
  intro c
  have positive : (0 : Rat) < c.period := by norm_num [c]
  obtain ⟨due, -, moves, -, wait, -⟩ := schedules_catch_up positive (11 / 5)
  have behind : c.next ≤ 11 / 5 := by norm_num [c]
  obtain ⟨m, loop, hm, later⟩ := moves behind
  have turns : m = 4 := by
    refine hm.unique ⟨by norm_num [c], fun k hk => ?_⟩
    by_contra hlt
    have few : (k : Rat) ≤ 3 := by exact_mod_cast Nat.le_of_lt_succ (not_le.1 hlt)
    have hk : (11 / 5 : Rat) < 1 / 2 + k * (1 / 2) := hk
    linarith
  have shown : (c.tick (11 / 5)).2 = ⟨1 / 2, 5 / 2⟩ := by
    rw [later, turns]
    norm_num [c]
  have taken := due.2 behind
  have wait := wait taken
  rw [shown, turns] at loop
  rw [shown] at wait
  exact ⟨Prod.ext taken shown, loop, wait⟩

end ControlBlocks
