import ControlBlocks.Proofs.Calls.CatchingUp
import ControlBlocks.Proofs.Calls.Sampling
import ControlBlocks.Proofs.Exact.Scalar

/-!
# Pulses of variable width

When a pulse is on, said by the multiples of its period.

* `VariablePulse.boundary` — the last multiple of the period that a time has reached;
* `VariablePulse.ending` — when the pulse that a call begins ends;
* `VariablePulse.Tracks` — before a call, the memory is about the latest call that began a pulse;
* `widths_from_boundaries` — the width is the first input since the multiple, and counts from there.
-/

set_option autoImplicit false

namespace ControlBlocks.VariablePulse

open Sampling (Grid IsLatest)

variable {period t : Rat} {calls : ℕ → Call Rat Rat} {i : ℕ}

/-! ## Multiples of the period -/

/-- Where pulses begin: at the multiples of the period from the first on. -/
def grid (period : Rat) : Grid Rat := ⟨period, period⟩

/-- The last multiple of the period that is not after a time. -/
def boundary (period t : Rat) : Rat := period * ⌊t / period⌋

theorem boundary_eq_sub (period t : Rat) : boundary period t = t - Scalar.floorMod t period := by
  rw [Scalar.floorMod_eq, boundary, sub_sub_cancel]

theorem boundary_le (hperiod : 0 < period) (t : Rat) : boundary period t ≤ t := by
  rw [boundary_eq_sub]
  linarith [Scalar.floorMod_nonneg hperiod t]

theorem lt_boundary_add (hperiod : 0 < period) (t : Rat) : t < boundary period t + period := by
  rw [boundary_eq_sub]
  linarith [Scalar.floorMod_lt hperiod t]

/-- Between a multiple and the next one, that multiple is the last. -/
theorem boundary_of_mem (hperiod : 0 < period) {s : Rat} (hlow : boundary period t ≤ s)
    (hhigh : s ≤ t) : boundary period s = boundary period t := by
  have below : ⌊t / period⌋ ≤ s / period := by
    rw [le_div_iff₀ hperiod, mul_comm]
    exact hlow
  have above : s / period < ⌊t / period⌋ + 1 :=
    (div_le_div_of_nonneg_right hhigh hperiod.le).trans_lt (Int.lt_floor_add_one _)
  rw [boundary, boundary, Int.floor_eq_iff.2 ⟨below, above⟩]

theorem isInstant_boundary (hperiod : 0 < period) (ht : period ≤ t) :
    (grid period).IsInstant (boundary period t) := by
  have whole : 1 ≤ ⌊t / period⌋ := by
    rw [Int.le_floor, Int.cast_one, one_le_div hperiod]
    exact ht
  obtain ⟨k, hk⟩ := Int.eq_ofNat_of_zero_le (sub_nonneg.2 whole)
  refine ⟨k, ?_⟩
  have count : ((⌊t / period⌋ : ℤ) : Rat) = k + 1 := by exact_mod_cast sub_eq_iff_eq_add.1 hk
  rw [boundary, count]
  simp only [grid]
  ring

/-- The first multiple after a time. -/
theorem isLeast_boundary_add (hperiod : 0 < period) (ht : period ≤ t) :
    IsLeast {x | (grid period).IsInstant x ∧ t < x} (boundary period t + period) :=
  (isInstant_boundary hperiod ht).isLeast_add_period hperiod (boundary_le hperiod t)
    (lt_boundary_add hperiod t)

/-! ## The latest pulse -/

/-- When the pulse ends that a call begins. -/
def ending (period : Rat) (c : Call Rat Rat) : Rat :=
  boundary period c.time + Scalar.clamp 0 period c.input

/-- Before the call `i`, the memory is about the pulse of the latest due call: when it ends, and
whether it was still on at the call before. -/
structure Tracks (period : Rat) (calls : ℕ → Call Rat Rat) (i : ℕ) (s : State Rat) : Prop where
  scheduled : (grid period).Scheduled calls i ⟨period, s.next⟩
  pulse : ∃ o, IsLatest ((grid period).Due calls) i o ∧
    (∀ j, o = some j → s.ends = ending period (calls j)) ∧
    (s.active = true ↔ ∃ j, o = some j ∧ (calls (i - 1)).time < ending period (calls j))

theorem tracks_initial (hperiod : 0 < period) (calls : ℕ → Call Rat Rat) :
    Tracks period calls 0 (initial period) where
  scheduled := (grid period).scheduled_clock hperiod calls
  pulse := ⟨none, Sampling.isLatest_zero _, by simp, by simp [initial]⟩

/-- The clock that shows when the next pulse begins. -/
theorem clock_step (period now : Rat) (s : State Rat) (u : Rat) :
    (⟨period, (step period now s u).2.next⟩ : SampleClock Rat) =
      ((⟨period, s.next⟩ : SampleClock Rat).tick now).2 := by
  have next : (step period now s u).2.next = (begin period now s u).next := rfl
  have same := SampleClock.period_tick ⟨period, s.next⟩ now
  rw [next, next_begin]
  exact congrArg (SampleClock.mk · _) same.symm

/-- The memory after an evaluation, from the one after the look at the schedule. -/
theorem active_step_iff (period now : Rat) (s : State Rat) (u : Rat) :
    (step period now s u).2.active = true ↔
      (begin period now s u).active = true ∧ now < (begin period now s u).ends := by
  simp [step]

theorem Tracks.scheduled_step {s : State Rat} (h : Tracks period calls i s) (hperiod : 0 < period)
    (hascend : Monotone fun i => (calls i).time) :
    (grid period).Scheduled calls (i + 1)
      ⟨period, (step period (calls i).time s (calls i).input).2.next⟩ := by
  rw [clock_step]
  exact h.scheduled.tick hperiod hascend

/-- A pulse that has come up begins at the last multiple of the period. -/
theorem Tracks.ends_step {s : State Rat} (h : Tracks period calls i s) (hperiod : 0 < period)
    (hascend : Monotone fun i => (calls i).time) (hdue : s.next ≤ (calls i).time) :
    (step period (calls i).time s (calls i).input).2.ends = ending period (calls i) := by
  have begun : period ≤ (calls i).time := (h.scheduled.next.1.1.start_le hperiod).trans hdue
  have next : IsLeast {x | (grid period).IsInstant x ∧ (calls i).time < x}
      (step period (calls i).time s (calls i).input).2.next := by
    simpa using (h.scheduled_step hperiod hascend).next
  have sum : (step period (calls i).time s (calls i).input).2.ends =
      (step period (calls i).time s (calls i).input).2.next - period +
        Scalar.clamp 0 period (calls i).input := by
    simp only [VariablePulse.step, begin_of_le hdue]
  rw [sum, next.unique (isLeast_boundary_add hperiod begun), add_sub_cancel_right, ending]

theorem Tracks.step {s : State Rat} (h : Tracks period calls i s) (hperiod : 0 < period)
    (hascend : Monotone fun i => (calls i).time) :
    Tracks period calls (i + 1) (step period (calls i).time s (calls i).input).2 := by
  refine ⟨h.scheduled_step hperiod hascend, ?_⟩
  obtain ⟨o, hlatest, hends, hactive⟩ := h.pulse
  refine ⟨_, h.scheduled.isLatest_succ hlatest, ?_⟩
  rw [active_step_iff, Nat.add_sub_cancel]
  rcases lt_or_ge (calls i).time s.next with hearly | hdue
  · have waits : (⟨period, s.next⟩ : SampleClock Rat).isDue (calls i).time = false := by
      simpa [SampleClock.isDue] using hearly
    have same : (VariablePulse.step period (calls i).time s (calls i).input).2.ends = s.ends := by
      simp only [VariablePulse.step, begin_of_lt hearly]
    rw [waits, if_neg Bool.false_ne_true, same, begin_of_lt hearly, hactive]
    refine ⟨hends, ?_⟩
    constructor
    · rintro ⟨⟨j, hj, -⟩, hnow⟩
      exact ⟨j, hj, hends j hj ▸ hnow⟩
    · rintro ⟨j, hj, hnow⟩
      have before : (calls (i - 1)).time ≤ (calls i).time := hascend (Nat.sub_le i 1)
      exact ⟨⟨j, hj, before.trans_lt hnow⟩, (hends j hj).symm ▸ hnow⟩
  · have begins : (⟨period, s.next⟩ : SampleClock Rat).isDue (calls i).time = true := by
      simpa [SampleClock.isDue] using hdue
    have ends := h.ends_step hperiod hascend hdue
    have ends' : (begin period (calls i).time s (calls i).input).ends = ending period (calls i) :=
      ends
    rw [begins, if_pos rfl, ends', begin_of_le hdue]
    refine ⟨?_, ?_⟩
    · rintro j hj
      obtain rfl := Option.some.inj hj
      exact ends
    · simp

/-- The output at a call is whether the pulse of the latest due call is on. -/
theorem exists_latest_outputAt (hperiod : 0 < period) (hascend : Monotone fun i => (calls i).time)
    (i : ℕ) :
    ∃ o, IsLatest ((grid period).Due calls) (i + 1) o ∧
      (Block.outputAt (step period) (initial period) calls i = true ↔
        ∃ j, o = some j ∧ (calls i).time < ending period (calls j)) := by
  have tracks := Block.memoryAt_invariant (f := step period) (Tracks period calls)
    (tracks_initial hperiod calls) (fun _ _ h => h.step hperiod hascend) (i + 1)
  obtain ⟨o, hlatest, -, hactive⟩ := tracks.pulse
  exact ⟨o, hlatest, hactive⟩

/-- The pulse of the latest due call is that of the first call since the last multiple of the
period, if one was reached at all. -/
theorem outputAt_iff (hperiod : 0 < period) (hascend : Monotone fun i => (calls i).time) {i j : ℕ}
    (hj : IsLeast {j | boundary period (calls i).time ≤ (calls j).time} j) :
    Block.outputAt (step period) (initial period) calls i = true ↔
      period ≤ (calls i).time ∧ (calls i).time <
        boundary period (calls i).time + Scalar.clamp 0 period (calls j).input := by
  have hji : j ≤ i := hj.2 (boundary_le hperiod _)
  obtain ⟨o, hlatest, hout⟩ := exists_latest_outputAt hperiod hascend i
  rw [hout]
  rcases lt_or_ge (calls i).time period with hearly | hlate
  · refine iff_of_false ?_ fun h => absurd h.1 (not_le.2 hearly)
    rintro ⟨m, rfl, -⟩
    obtain ⟨hm, hdue⟩ := (Sampling.isLatest_succ_some_iff.1 hlatest).1
    have begun : period ≤ (calls m).time := hdue.start_le hperiod
    exact absurd (begun.trans (hascend hm)) (not_le.2 hearly)
  · have within (m : ℕ) (hm : m < i + 1) :
        (calls m).time < boundary period (calls i).time + period :=
      (hascend (Nat.le_of_lt_succ hm)).trans_lt (lt_boundary_add hperiod _)
    have latest := Grid.isLatest_of_first hperiod hascend (isInstant_boundary hperiod hlate) hj
      (Nat.lt_succ_of_le hji) within
    obtain rfl := hlatest.unique latest
    have since : boundary period (calls j).time = boundary period (calls i).time :=
      boundary_of_mem hperiod hj.1 (hascend hji)
    simp [ending, since, hlate]

/-- **The width counts from the multiple.**  At each call the pulse is on just if the time is past
the first period, and before the last multiple of the period plus a width, which is the first input
given since that multiple, kept between zero and the period: however late that call was, and however
many multiples lie between two calls. -/
theorem widths_from_boundaries (hperiod : 0 < period) :
    ∃ pulse, block period = .ok pulse ∧
      ∀ (began : Option Rat) (calls : ℕ → Call Rat Rat), (Monotone fun i => (calls i).time) →
        ∃ y : ℕ → Bool,
          (∀ n, pulse.Gives began ((List.range n).map calls) ((List.range n).map y)) ∧
          ∀ i, ∃ j ≤ i, IsLeast {j | period * ⌊(calls i).time / period⌋ ≤ (calls j).time} j ∧
            (y i = true ↔ period ≤ (calls i).time ∧
              (calls i).time < period * ⌊(calls i).time / period⌋ +
                max 0 (min (calls j).input period)) := by
  refine ⟨_, block_eq_ok_iff.2 ⟨hperiod, rfl⟩, fun began calls hascend =>
    ⟨_, Block.timed_stepsAs.gives_range began calls, fun i => ?_⟩⟩
  have reached : boundary period (calls i).time ≤ (calls i).time := boundary_le hperiod _
  obtain ⟨j, hj⟩ : ∃ j, IsLeast {j | boundary period (calls i).time ≤ (calls j).time} j :=
    ⟨_, Nat.isLeast_find ⟨i, reached⟩⟩
  refine ⟨j, hj.2 reached, hj, ?_⟩
  rw [← Scalar.clamp_eq_max_min hperiod.le]
  exact outputAt_iff hperiod hascend hj

/-- A first call long after the first multiples, and a second one at the end of that pulse; then a
pulse as wide as the period, whatever the input after its beginning. -/
theorem widths_from_boundaries_late :
    let calls : ℕ → Call Rat Rat := fun i =>
      [⟨21 / 4, 1 / 2⟩, ⟨11 / 2, 1 / 2⟩, ⟨6, 9⟩, ⟨27 / 4, 0⟩].getD i ⟨7, 0⟩
    ∃ pulse, block 1 = .ok pulse ∧
      pulse.Gives none ((List.range 5).map calls) [true, false, true, true, false] := by
  intro calls
  have ascending : Monotone fun i => (calls i).time := by
    refine monotone_nat_of_le_succ fun i => ?_
    match i with
    | 0 | 1 | 2 | 3 => norm_num [calls]
    | i + 4 => simp [calls]
  obtain ⟨pulse, built, run⟩ := widths_from_boundaries (one_pos : (0 : Rat) < 1)
  obtain ⟨y, gives, widths⟩ := run none calls ascending
  -- the call `j` is the first one since the last multiple at the call `i`
  have output (i j : ℕ) (hsince : 1 * ⌊(calls i).time / 1⌋ ≤ (calls j).time)
      (hbefore : ∀ k < j, (calls k).time < 1 * ⌊(calls i).time / 1⌋) :
      y i = decide (1 ≤ (calls i).time ∧ (calls i).time <
        1 * ⌊(calls i).time / 1⌋ + max 0 (min (calls j).input 1)) := by
    have least : IsLeast {j | 1 * ⌊(calls i).time / 1⌋ ≤ (calls j).time} j := by
      refine ⟨hsince, fun k hk => ?_⟩
      by_contra hlt
      exact absurd hk (not_le.2 (hbefore k (not_le.1 hlt)))
    obtain ⟨j', -, hj', hy⟩ := widths i
    rw [Bool.eq_iff_iff, hy, least.unique hj', decide_eq_true_iff]
  have y₀ := output 0 0 (by decide +kernel) (by decide +kernel)
  have y₁ := output 1 0 (by decide +kernel) (by decide +kernel)
  have y₂ := output 2 2 (by decide +kernel) (by decide +kernel)
  have y₃ := output 3 2 (by decide +kernel) (by decide +kernel)
  have y₄ := output 4 4 (by decide +kernel) (by decide +kernel)
  have outputs : (List.range 5).map y = [true, false, true, true, false] := by
    simp only [List.range_succ, List.range_zero, List.nil_append, List.cons_append, List.map_cons,
      List.map_nil, y₀, y₁, y₂, y₃, y₄]
    decide +kernel
  exact ⟨pulse, built, outputs ▸ gives 5⟩

end ControlBlocks.VariablePulse
