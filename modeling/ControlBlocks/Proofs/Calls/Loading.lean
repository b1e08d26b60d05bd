import ControlBlocks.Proofs.Calls.Sampling
import ControlBlocks.Proofs.Calls.Stretches
import Mathlib.Algebra.BigOperators.Intervals

/-!
# Integrals that are loaded

What an integrator gives at each call, said by the latest call that loaded it.

* `Integrator.triggers` — a call at which they rise is a load;
* `Integrator.added`, `Integrator.base` — what a call adds, and what it is added to;
* `Integrator.step_of_rising`, `step_of_not_rising` — the two kinds of evaluations;
* `Integrator.exists_latest_memoryAt` — the memory holds what has been added since the latest load;
* `Integrator.integrates_since_load` — the same of the block.
-/

set_option autoImplicit false

namespace ControlBlocks.Integrator

open Sampling (IsLatest isLatest_zero isLatest_succ_of_due isLatest_succ_some_iff
  isLatest_succ_none_iff)

variable {trigger : Bool} {s : State Rat} {d : Input Rat} {calls : ℕ → Call Rat (Input Rat)} {n : ℕ}

/-- The triggers of the calls; where they rise, the integral is loaded. -/
abbrev triggers (calls : ℕ → Call Rat (Input Rat)) : ℕ → Bool := fun i => (calls i).input.trigger

/-- What the call `i` adds: the gain times the input, for the time since the call before, if any has
gone by. -/
def added (k : Rat) (calls : ℕ → Call Rat (Input Rat)) (i : ℕ) : Rat :=
  k * (calls i).input.u * max ((calls i).time - (calls (i - 1)).time) 0

/-- What the latest load has left, or the start where there is none. -/
def base (start : Rat) (calls : ℕ → Call Rat (Input Rat)) : Option ℕ → Rat
  | some j => (calls j).input.resetTo
  | none => start

/-! ## Evaluations -/

theorem step_of_rising (k now : Rat) (h : rising s.trigger d.trigger = true) :
    step k now s d = (d.resetTo, ⟨d.resetTo, some now, d.trigger⟩) := by
  simp [step, value, h]

theorem step_of_not_rising (k now last y : Rat) (h : ¬ rising trigger d.trigger = true) :
    step k now ⟨y, some last, trigger⟩ d =
      (y + k * d.u * max (now - last) 0,
        ⟨y + k * d.u * max (now - last) 0, some now, d.trigger⟩) := by
  by_cases hdt : 0 < now - last
  · simp [step, value, h, hdt, max_eq_left hdt.le]
  · simp [step, value, h, hdt, max_eq_right (not_lt.1 hdt)]

/-! ## The memory -/

/-- After a call, the memory holds what the latest load has left, and what has been added since. -/
theorem exists_latest_memoryAt (k start : Rat) (calls : ℕ → Call Rat (Input Rat)) (n : ℕ) :
    ∃ o, IsLatest (Rises (triggers calls)) (n + 1) o ∧
      Block.memoryAt (step k) ⟨start, none, false⟩ calls (n + 1) =
        ⟨base start calls o + ∑ m ∈ Finset.Ioc (o.getD 0) n, added k calls m,
          some (calls n).time, (calls n).input.trigger⟩ := by
  induction n with
  | zero =>
    by_cases hloads : Rises (triggers calls) 0
    · refine ⟨some 0, isLatest_succ_of_due hloads, ?_⟩
      rw [Block.memoryAt, Block.memoryAt, step_of_rising _ _ (rises_zero_iff.1 hloads)]
      simp [base]
    · refine ⟨none, (isLatest_zero _).succ_of_not_due hloads, ?_⟩
      have kept := mt rises_zero_iff.2 hloads
      simp [Block.memoryAt, step, value, kept, base]
  | succ n ih =>
    obtain ⟨o, hlatest, memory⟩ := ih
    by_cases hloads : Rises (triggers calls) (n + 1)
    · refine ⟨some (n + 1), isLatest_succ_of_due hloads, ?_⟩
      rw [Block.memoryAt, memory, step_of_rising _ _ (rises_succ_iff.1 hloads)]
      simp [base]
    · refine ⟨o, hlatest.succ_of_not_due hloads, ?_⟩
      have early : o.getD 0 ≤ n := by
        cases o with
        | none => exact Nat.zero_le n
        | some j => exact Nat.le_of_lt_succ hlatest.1.1
      have kept := mt rises_succ_iff.2 hloads
      rw [Block.memoryAt, memory, step_of_not_rising _ _ _ _ kept,
        Finset.sum_Ioc_succ_top early, ← add_assoc]
      rfl

/-- **The integral since the latest load.**  At each call, the output is what the latest call at
which the trigger rose has loaded, or the start where there is none, and what the calls since then
have added: each of them the gain times its input, for the time since the call before.  Calls that
come at the time of the one before, or earlier, add nothing, and a trigger that stays high does
nothing more. -/
theorem integrates_since_load (k start : Rat) :
    ∃ integrator, block k start = .ok integrator ∧
      ∀ (began : Option Rat) (calls : ℕ → Call Rat (Input Rat)),
        ∃ y : ℕ → Rat,
          (∀ n, integrator.Gives began ((List.range n).map calls) ((List.range n).map y)) ∧
          ∀ i,
            (∀ j, IsGreatest {j | j ≤ i ∧ Rises (triggers calls) j} j →
              y i = (calls j).input.resetTo + ∑ m ∈ Finset.Ioc j i, added k calls m) ∧
            ((∀ j ≤ i, ¬ Rises (triggers calls) j) →
              y i = start + ∑ m ∈ Finset.Ioc 0 i, added k calls m) := by
  refine ⟨_, block_eq_ok_iff.2 ⟨⟨Scalar.isFinite_exact k, Scalar.isFinite_exact start⟩, rfl⟩, ?_⟩
  intro began calls
  refine ⟨_, Block.timed_stepsAs.gives_range began calls, ?_⟩
  intro i
  obtain ⟨o, hlatest, memory⟩ := exists_latest_memoryAt k start calls i
  have output : Block.outputAt (step k) ⟨start, none, false⟩ calls i =
      base start calls o + ∑ m ∈ Finset.Ioc (o.getD 0) i, added k calls m :=
    congrArg State.y memory
  constructor
  · intro j hj
    obtain rfl := hlatest.unique (isLatest_succ_some_iff.2 hj)
    exact output
  · intro hnone
    obtain rfl := hlatest.unique (isLatest_succ_none_iff.2 hnone)
    exact output

/-- Two loads, the first of them at a call that goes back in time, with the trigger held at the next
call. -/
theorem integrates_since_load_backward :
    let calls : ℕ → Call Rat (Input Rat) := fun i =>
      ⟨[0, 2, 1, 1, 4, 5].getD i 6, 1, [2, 3, 5].contains i, 10 * i⟩
    ∃ (integrator : Block Rat (Input Rat) (State Rat) Rat) (y : ℕ → Rat),
      block 2 1 = .ok integrator ∧
      integrator.Gives none ((List.range 7).map calls) ((List.range 7).map y) ∧
      y 1 = 5 ∧ y 2 = 20 ∧ y 4 = 26 ∧ y 6 = 52 := by
  intro calls
  obtain ⟨integrator, built, run⟩ := integrates_since_load 2 1
  obtain ⟨y, gives, integrals⟩ := run none calls
  have started : ∀ j ≤ 1, ¬ Rises (triggers calls) j := by decide
  have loaded (i j : ℕ) (hji : j ≤ i) (hj : Rises (triggers calls) j)
      (hlast : ∀ m ≤ i, Rises (triggers calls) m → m ≤ j) :
      IsGreatest {j | j ≤ i ∧ Rises (triggers calls) j} j :=
    ⟨⟨hji, hj⟩, fun m hm => hlast m hm.1 hm.2⟩
  refine ⟨integrator, y, built, gives 7, ?_, ?_, ?_, ?_⟩
  · rw [(integrals 1).2 started]
    decide +kernel
  · rw [(integrals 2).1 2 (loaded 2 2 (by decide) (by decide) (by decide))]
    decide +kernel
  · rw [(integrals 4).1 2 (loaded 4 2 (by decide) (by decide) (by decide))]
    decide +kernel
  · rw [(integrals 6).1 5 (loaded 6 5 (by decide) (by decide) (by decide))]
    decide +kernel

end ControlBlocks.Integrator
