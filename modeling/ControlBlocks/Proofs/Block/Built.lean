import ControlBlocks.Timed.Timer
import ControlBlocks.Timed.Hold
import ControlBlocks.Timed.StatusProof
import ControlBlocks.Timed.Sampling
import ControlBlocks.Timed.Stage
import ControlBlocks.Timed.Dynamics
import ControlBlocks.Timed.Pid
import ControlBlocks.Source.Wave
import Mathlib.Data.List.Forall2

/-!
# Blocks that could be built

For each block that goes by the time: which parameters are accepted, and which block they give.

* `bind_eq_ok_iff`, `map_eq_ok_iff`, `mapM_eq_ok_iff` — checks one after the other;
* `requireFinite_eq_ok_iff`, `requirePositive_eq_ok_iff`, `requireNonNegative_eq_ok_iff` — single
  parameters;
* `Timer.block_eq_ok_iff` and so on — one equation for each block.
-/

set_option autoImplicit false

namespace ControlBlocks

/-! ## Checks -/

section Checks

variable {ε β γ : Type}

theorem bind_eq_ok_iff {x : Except ε β} {f : β → Except ε γ} {r : γ} :
    (x >>= f) = .ok r ↔ ∃ a, x = .ok a ∧ f a = .ok r := by
  cases x with
  | error e => simp [bind, Except.bind]
  | ok a => simp [bind, Except.bind]

theorem map_eq_ok_iff {x : Except ε β} {f : β → γ} {r : γ} :
    x.map f = .ok r ↔ ∃ a, x = .ok a ∧ f a = r := by
  cases x with
  | error e => simp [Except.map]
  | ok a => simp [Except.map]

/-- A check of a list succeeds just if that of each element does, with its result in its place. -/
theorem mapM_eq_ok_iff {f : β → Except ε γ} {xs : List β} {ys : List γ} :
    xs.mapM f = .ok ys ↔ List.Forall₂ (fun x y => f x = .ok y) xs ys := by
  induction xs generalizing ys with
  | nil => simp [pure, Except.pure, eq_comm]
  | cons x xs ih =>
    rw [List.mapM_cons, bind_eq_ok_iff, List.forall₂_cons_left_iff]
    simp only [bind_eq_ok_iff, ih, pure, Except.pure, Except.ok.injEq]
    constructor
    · rintro ⟨y, hy, rest, hrest, rfl⟩
      exact ⟨y, rest, hy, hrest, rfl⟩
    · rintro ⟨y, rest, hy, hrest, rfl⟩
      exact ⟨y, hy, rest, hrest, rfl⟩

variable {α : Type} [Scalar α] {value v : α} {block what : String}

theorem requireFinite_eq_ok_iff :
    requireFinite value what = .ok v ↔ Scalar.isFinite value = true ∧ value = v := by
  unfold requireFinite
  split <;> simp_all

theorem requirePositive_eq_ok_iff :
    requirePositive value block what = .ok v ↔ 0 < value ∧ value = v := by
  unfold requirePositive
  split <;> simp_all

theorem requireNonNegative_eq_ok_iff :
    requireNonNegative value block what = .ok v ↔ 0 ≤ value ∧ value = v := by
  unfold requireNonNegative
  split <;> simp_all

end Checks

variable {α : Type} [Scalar α]

/-! ## Timers, delays and holds -/

section Timers

variable {threshold delay whileTrue whileFalse testDelay stuckDelay period : α}

theorem Timer.block_eq_ok_iff {b : Block α Bool (State α) (Output α)} :
    block threshold = .ok b ↔
      Scalar.isFinite threshold = true ∧
        .timed "Timer" (initial threshold) (step threshold) = b := by
  simp [block, map_eq_ok_iff, requireFinite_eq_ok_iff, and_assoc]

theorem Timer.accumulating_eq_ok_iff
    {b : Block α Accumulating.Input (Accumulating.State α) (Output α)} :
    accumulating threshold = .ok b ↔
      Scalar.isFinite threshold = true ∧ .timed "TimerAccumulating"
        (Accumulating.initial threshold) (Accumulating.step threshold) = b := by
  simp [accumulating, map_eq_ok_iff, requireFinite_eq_ok_iff, and_assoc]

theorem OnDelay.block_eq_ok_iff {b : Block α Bool (State α) Bool} :
    block delay = .ok b ↔
      Scalar.isFinite delay = true ∧ .timed "TrueDelay" initial (step delay) = b := by
  simp [block, map_eq_ok_iff, requireFinite_eq_ok_iff, and_assoc]

theorem DwellHold.block_eq_ok_iff {b : Block α Bool (State α) Bool} :
    block whileTrue whileFalse = .ok b ↔
      (0 ≤ whileTrue ∧ 0 ≤ whileFalse) ∧
        .timed "TrueFalseHold" initial (step whileTrue whileFalse) = b := by
  simp [block, bind_eq_ok_iff, requireNonNegative_eq_ok_iff, pure, Except.pure, and_assoc]

theorem StatusProof.block_eq_ok_iff {b : Block α Input (State α) Output} :
    block testDelay stuckDelay = .ok b ↔
      (0 ≤ testDelay ∧ 0 ≤ stuckDelay) ∧
        .timed "Proof" initial (step testDelay stuckDelay) = b := by
  simp [block, bind_eq_ok_iff, requireNonNegative_eq_ok_iff, pure, Except.pure, and_assoc]

theorem VariablePulse.block_eq_ok_iff {b : Block α α (State α) Bool} :
    block period = .ok b ↔
      0 < period ∧ .timed "VariablePulse" (initial period) (step period) = b := by
  simp [block, map_eq_ok_iff, requirePositive_eq_ok_iff, and_assoc]

end Timers

/-! ## Sampling -/

namespace Sampling

variable {g : Grid α} {name : String}

theorem Grid.check_eq_ok_iff {g' : Grid α} :
    g.check name = .ok g' ↔ (0 < g.period ∧ Scalar.isFinite g.start = true) ∧ g = g' := by
  obtain ⟨period, start⟩ := g
  simp [check, bind_eq_ok_iff, requirePositive_eq_ok_iff, requireFinite_eq_ok_iff, pure,
    Except.pure, and_assoc]

theorem sampler_eq_ok_iff {b : Block α α (Sampler.State α) α} :
    sampler g = .ok b ↔ (0 < g.period ∧ Scalar.isFinite g.start = true) ∧
      .timed "Sampler" ⟨g.clock, 0, false⟩ Sampler.step = b := by
  simp [sampler, map_eq_ok_iff, Grid.check_eq_ok_iff, and_assoc]

theorem zeroOrderHold_eq_ok_iff {b : Block α α (ZeroOrderHold.State α) α} :
    zeroOrderHold g = .ok b ↔ (0 < g.period ∧ Scalar.isFinite g.start = true) ∧
      .timed "ZeroOrderHold" ⟨g.clock, none⟩ ZeroOrderHold.step = b := by
  simp [zeroOrderHold, map_eq_ok_iff, Grid.check_eq_ok_iff, and_assoc]

theorem firstOrderHold_eq_ok_iff {b : Block α α (FirstOrderHold.State α) α} :
    firstOrderHold g = .ok b ↔ (0 < g.period ∧ Scalar.isFinite g.start = true) ∧
      .timed "FirstOrderHold" ⟨g.clock, none, none, g.start⟩ (FirstOrderHold.step g.period) =
        b := by
  simp [firstOrderHold, map_eq_ok_iff, Grid.check_eq_ok_iff, and_assoc]

end Sampling

theorem SampleTrigger.block_eq_ok_iff {period shift : α} {b : Block α Unit (State α) Bool} :
    block period shift = .ok b ↔
      0 < period ∧ .timed "SampleTrigger" ⟨none⟩ (step period shift) = b := by
  simp [block, map_eq_ok_iff, requirePositive_eq_ok_iff, and_assoc]

/-! ## Dynamics -/

section Dynamics

variable {k start limit up down delta : α}

theorem Integrator.block_eq_ok_iff {b : Block α (Input α) (State α) α} :
    block k start = .ok b ↔
      (Scalar.isFinite k = true ∧ Scalar.isFinite start = true) ∧
        .timed "IntegratorWithReset" ⟨start, none, false⟩ (step k) = b := by
  simp [block, bind_eq_ok_iff, requireFinite_eq_ok_iff, pure, Except.pure, and_assoc]

theorem Derivative.block_eq_ok_iff {b : Block α α (State α) α} :
    block limit start = .ok b ↔
      0 < limit ∧ .timed "Derivative" ⟨start, none⟩ (step limit start) = b := by
  simp [block, map_eq_ok_iff, requirePositive_eq_ok_iff, and_assoc]

theorem SlewRate.block_eq_ok_iff {b : Block α α (State α) α} :
    block up down = .ok b ↔
      (0 < up ∧ 0 < down) ∧ .timed "LimitSlewRate" ⟨0, none⟩ (step up down) = b := by
  simp [block, bind_eq_ok_iff, requirePositive_eq_ok_iff, pure, Except.pure, and_assoc]

theorem MovingAverage.block_eq_ok_iff {b : Block α α (State α) α} :
    block delta = .ok b ↔
      0 < delta ∧ .timed "MovingAverage" ⟨[]⟩ (step delta) = b := by
  simp [block, map_eq_ok_iff, requirePositive_eq_ok_iff, and_assoc]

end Dynamics

/-! ## Stages and the controller -/

/-- The settings of parameters that pass the check. -/
def Stage.Config.settings (c : Stage.Config α) : Stage.Settings α :=
  ⟨c.count, c.hold, c.band.getD (0.02 / (c.count : α)), c.start⟩

theorem Stage.Config.check_eq_ok_iff {c : Stage.Config α} {p : Stage.Settings α} :
    c.check = .ok p ↔
      (1 ≤ c.count ∧ 0 ≤ c.start ∧ c.start ≤ c.count ∧ 0 ≤ c.hold ∧ 0 ≤ c.settings.band) ∧
        c.settings = p := by
  unfold check
  split
  · rename_i hcount
    have refused : ¬ 1 ≤ c.count := by omega
    simp [refused]
  · split
    · rename_i hcount hstart
      have refused : ¬ (0 ≤ c.start ∧ c.start ≤ c.count) := by omega
      simp only [reduceCtorEq, false_iff]
      rintro ⟨⟨-, hlow, hhigh, -⟩, -⟩
      exact refused ⟨hlow, hhigh⟩
    · rename_i hcount hstart
      have accepted : 1 ≤ c.count ∧ 0 ≤ c.start ∧ c.start ≤ c.count := by omega
      simp [bind_eq_ok_iff, requireNonNegative_eq_ok_iff, pure, Except.pure, accepted, settings,
        and_assoc]

theorem Stage.block_eq_ok_iff {c : Stage.Config α} {b : Block α α (Stage.State α) Int} :
    Stage.block c = .ok b ↔ ∃ p, c.check = .ok p ∧ Stage.ofSettings p = b := by
  rw [Stage.block, map_eq_ok_iff]

/-- Parameters that a controller accepts. -/
structure Pid.Config.Sound (c : Pid.Config α) : Prop where
  limits : c.yMin < c.yMax
  k : 0 < c.k
  r : 0 < c.r
  ni : 0 < c.ni
  nd : 0 < c.nd
  ti : c.action.hasIntegral = true → 0 < c.ti
  td : c.action.hasDerivative = true → 0 < c.td

theorem discard_eq_ok_iff {value : α} {block what : String} {done : Unit} :
    discard (requirePositive value block what) = .ok done ↔ 0 < value := by
  unfold requirePositive
  split
  · rename_i h
    exact iff_of_true rfl h
  · rename_i h
    exact iff_of_false (fun hok => by cases hok) h

theorem Pid.Config.check_eq_ok_iff {c : Pid.Config α} : c.check = .ok () ↔ c.Sound := by
  have steps : c.check = .ok () ↔ c.yMin < c.yMax ∧ 0 < c.k ∧ 0 < c.r ∧ 0 < c.ni ∧ 0 < c.nd ∧
      (c.action.hasIntegral = true → 0 < c.ti) ∧
      (c.action.hasDerivative = true → 0 < c.td) := by
    unfold check
    split
    · simp_all
    · rename_i hlimits
      cases c.action.hasIntegral <;> cases c.action.hasDerivative <;>
        simp_all [bind_eq_ok_iff, discard_eq_ok_iff, pure, Except.pure]
  rw [steps]
  exact ⟨fun ⟨limits, k, r, ni, nd, ti, td⟩ => ⟨limits, k, r, ni, nd, ti, td⟩,
    fun ⟨limits, k, r, ni, nd, ti, td⟩ => ⟨limits, k, r, ni, nd, ti, td⟩⟩

theorem Pid.block_eq_ok_iff {c : Pid.Config α} {b : Block α (Input α) (State α) α} :
    Pid.block c = .ok b ↔ c.Sound ∧ .timed "PID" (initial c) (step c) = b := by
  rw [Pid.block, map_eq_ok_iff, ← Config.check_eq_ok_iff]
  exact ⟨fun ⟨(), hcheck, hb⟩ => ⟨hcheck, hb⟩, fun ⟨hcheck, hb⟩ => ⟨(), hcheck, hb⟩⟩

end ControlBlocks
