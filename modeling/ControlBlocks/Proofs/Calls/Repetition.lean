import ControlBlocks.Proofs.Block.Built
import ControlBlocks.Proofs.Calls.Basic
import ControlBlocks.Proofs.Calls.CatchingUp
import ControlBlocks.Proofs.Exact.Scalar
import ControlBlocks.Proofs.Exact.Schedule

/-!
# Calls made once more

The blocks that go by the time, called twice with the same input at the same time, in exact
arithmetic.

* `Block.Repeatable` — the second call gives what the first one did and changes nothing;
* `Timer.step_step`, `OnDelay.step_step` and so on — that a step made twice is one step;
* `SampleClock.tick_tick` — a sample is due only once;
* `TimeKeeping` — the blocks in question; `TimeKeeping.repeatable` — they are repeatable wherever
  calls may have led them.
-/

set_option autoImplicit false

namespace ControlBlocks

namespace Block

variable {α ι σ ο : Type}

/-- A call made once more gives the same output, and leaves the memory as it is. -/
def Repeatable (b : Block α ι σ ο) (s : σ) : Prop :=
  ∀ c : Call α ι, ∃ y s', b.call c s = .ok (y, s') ∧ b.call c s' = .ok (y, s')

/-- It is enough that a second step gives what the first one did. -/
theorem StepsAs.repeatable_of_step {b : Block α ι σ ο} {s : σ} {f : α → σ → ι → ο × σ}
    (hb : b.StepsAs f) (h : ∀ now u, f now (f now s u).2 u = f now s u) : b.Repeatable s := by
  intro c
  refine ⟨(f c.time s c.input).1, (f c.time s c.input).2, hb c s, ?_⟩
  rw [hb, h]

end Block

variable {now : Rat}

/-! ## Timers, delays and holds -/

theorem Timer.step_step (threshold now : Rat) (s : State Rat) (u : Bool) :
    step threshold now (step threshold now s u).2 u = step threshold now s u := by
  cases u with
  | false => rfl
  | true =>
    cases hs : s.since with
    | none => simp [step, hs]
    | some since => simp [step, hs]

theorem Timer.Accumulating.next_next (threshold now : Rat) (s : State Rat) (d : Input) :
    next threshold now (next threshold now s d) d = next threshold now s d := by
  cases hreset : d.reset with
  | true => simp [next, hreset]
  | false =>
    cases hu : d.u with
    | false => simp [next, hreset, hu]
    | true => simp [next, hreset, hu]

theorem Timer.Accumulating.step_step (threshold now : Rat) (s : State Rat) (d : Input) :
    step threshold now (step threshold now s d).2 d = step threshold now s d := by
  simp only [step, next_next]

/-- A rise that is delayed at all does not come through at once. -/
theorem OnDelay.step_step (delay now : Rat) (s : State Rat) (u : Bool) :
    step delay now (step delay now s u).2 u = step delay now s u := by
  cases u with
  | false => rfl
  | true =>
    cases hu : s.u with
    | false =>
      by_cases hdelay : 0 < delay
      · have pending : ¬ now + delay ≤ now := by linarith
        simp [step, next, rising, hu, hdelay, pending]
      · simp [step, next, rising, hu, hdelay]
    | true =>
      cases hdue : s.due with
      | none => simp [step, next, rising, hu, hdue]
      | some due =>
        by_cases hover : due ≤ now
        · simp [step, next, rising, hu, hdue, hover]
        · simp [step, next, rising, hu, hdue, hover]

theorem DwellHold.step_step (whileTrue whileFalse now : Rat) (s : State Rat) (u : Bool) :
    step whileTrue whileFalse now (step whileTrue whileFalse now s u).2 u =
      step whileTrue whileFalse now s u := by
  cases hs : s.since with
  | none => simp [step, hs]
  | some since =>
    by_cases hchange : (u != s.y && decide ((if s.y then whileTrue else whileFalse) ≤ now - since))
    · simp [step, hs, hchange]
    · simp [step, hs, hchange]

theorem StatusProof.next_next (now : Rat) (s : State Rat) (d : Input) :
    next now (next now s d) d = next now s d := by
  cases hd : d.status <;> simp [next, hd]

theorem StatusProof.step_step (testDelay stuckDelay now : Rat) (s : State Rat) (d : Input) :
    step testDelay stuckDelay now (step testDelay stuckDelay now s d).2 d =
      step testDelay stuckDelay now s d := by
  simp only [step, next_next]

theorem VariablePulse.step_step {period : Rat} (hperiod : 0 < period) (now : Rat)
    (s : State Rat) (u : Rat) :
    step period now (step period now s u).2 u = step period now s u := by
  have later : now < (step period now s u).2.next := lt_next_begin hperiod now s u
  rw [step, begin_of_lt later]
  by_cases hends : (begin period now s u).ends ≤ now
  · simp [step, hends]
  · simp [step, hends]

/-! ## Sampling -/

/-- A sample is due only once. -/
theorem SampleClock.tick_tick {c : SampleClock Rat} (hperiod : 0 < c.period) (now : Rat) :
    (c.tick now).2.tick now = (false, (c.tick now).2) :=
  tick_of_lt (lt_next_tick hperiod now)

namespace Sampling

theorem Sampler.step_step {s : State Rat} (hperiod : 0 < s.clock.period) (now u : Rat) :
    step now (step now s u).2 u = step now s u := by
  have once := SampleClock.tick_tick hperiod now
  simp [step, once]

theorem ZeroOrderHold.step_step {s : State Rat} (hperiod : 0 < s.clock.period) (now u : Rat) :
    step now (step now s u).2 u = step now s u := by
  have once := SampleClock.tick_tick hperiod now
  simp [step, once]

theorem FirstOrderHold.clock_next (now : Rat) (s : State Rat) (u : Rat) :
    (next now s u).clock = (s.clock.tick now).2 := by
  cases hdue : (s.clock.tick now).1 <;> simp [next, hdue]

theorem FirstOrderHold.next_next {s : State Rat} (hperiod : 0 < s.clock.period) (now u : Rat) :
    next now (next now s u) u = next now s u := by
  have once := SampleClock.tick_tick hperiod now
  cases hdue : (s.clock.tick now).1 with
  | true => simp [next, hdue, once]
  | false => simp [next, hdue, once]

theorem FirstOrderHold.step_step {s : State Rat} (hperiod : 0 < s.clock.period)
    (now u : Rat) {period : Rat} :
    step period now (step period now s u).2 u = step period now s u := by
  simp only [step, next_next hperiod]

end Sampling

/-! ## Dynamics -/

theorem Integrator.step_step (k now : Rat) (s : State Rat) (d : Input Rat) :
    step k now (step k now s d).2 d = step k now s d := by
  simp [step, value, rising]

theorem Derivative.step_step (limit start now : Rat) (s : State Rat) (u : Rat) :
    step limit start now (step limit start now s u).2 u = step limit start now s u := by
  simp [step, value]

theorem SlewRate.step_step (up down now : Rat) (s : State Rat) (u : Rat) :
    step up down now (step up down now s u).2 u = step up down now s u := by
  simp [step, value]

theorem Stage.ofSettings_stepsAs (p : Settings Rat) : (ofSettings p).StepsAs (step p) :=
  fun _ _ => rfl

/-- A stage is left alone, or becomes the one that the demand asks for. -/
theorem Stage.step_cases (p : Settings Rat) (now : Rat) (s : State Rat) (u : Rat) :
    step p now s u = (s.y, s) ∨
      step p now s u = (rawStage p.count u, ⟨rawStage p.count u, some (now + p.hold)⟩) := by
  unfold step
  split
  · by_cases hraw : rawStage p.count u = s.y
    · left
      simp [hraw]
    · right
      simp [hraw]
  · exact .inl rfl

/-- The stage that the demand asks for is left alone. -/
theorem Stage.step_of_eq_rawStage {p : Settings Rat} {s : State Rat} {u : Rat}
    (h : s.y = rawStage p.count u) (now : Rat) : step p now s u = (s.y, s) := by
  simp [step, ← h]

theorem Stage.step_step (p : Settings Rat) (now : Rat) (s : State Rat) (u : Rat) :
    step p now (step p now s u).2 u = step p now s u := by
  rcases step_cases p now s u with still | moved
  · rw [still, still]
  · rw [moved, step_of_eq_rawStage rfl]

/-! ## All of them -/

/-- The blocks that go by the time, with any parameters that they accept, but for the controller
and the moving mean. -/
inductive TimeKeeping : {ι σ ο : Type} → Block Rat ι σ ο → Prop where
  | timer {threshold : Rat} {b : Block Rat Bool (Timer.State Rat) (Timer.Output Rat)}
      (h : Timer.block threshold = .ok b) : TimeKeeping b
  | accumulatingTimer {threshold : Rat}
      {b : Block Rat Timer.Accumulating.Input (Timer.Accumulating.State Rat) (Timer.Output Rat)}
      (h : Timer.accumulating threshold = .ok b) : TimeKeeping b
  | onDelay {delay : Rat} {b : Block Rat Bool (OnDelay.State Rat) Bool}
      (h : OnDelay.block delay = .ok b) : TimeKeeping b
  | dwellHold {whileTrue whileFalse : Rat} {b : Block Rat Bool (DwellHold.State Rat) Bool}
      (h : DwellHold.block whileTrue whileFalse = .ok b) : TimeKeeping b
  | variablePulse {period : Rat} {b : Block Rat Rat (VariablePulse.State Rat) Bool}
      (h : VariablePulse.block period = .ok b) : TimeKeeping b
  | statusProof {testDelay stuckDelay : Rat}
      {b : Block Rat StatusProof.Input (StatusProof.State Rat) StatusProof.Output}
      (h : StatusProof.block testDelay stuckDelay = .ok b) : TimeKeeping b
  | sampler {g : Sampling.Grid Rat} {b : Block Rat Rat (Sampling.Sampler.State Rat) Rat}
      (h : Sampling.sampler g = .ok b) : TimeKeeping b
  | zeroOrderHold {g : Sampling.Grid Rat}
      {b : Block Rat Rat (Sampling.ZeroOrderHold.State Rat) Rat}
      (h : Sampling.zeroOrderHold g = .ok b) : TimeKeeping b
  | firstOrderHold {g : Sampling.Grid Rat}
      {b : Block Rat Rat (Sampling.FirstOrderHold.State Rat) Rat}
      (h : Sampling.firstOrderHold g = .ok b) : TimeKeeping b
  | integrator {k start : Rat} {b : Block Rat (Integrator.Input Rat) (Integrator.State Rat) Rat}
      (h : Integrator.block k start = .ok b) : TimeKeeping b
  | derivative {limit start : Rat} {b : Block Rat Rat (Derivative.State Rat) Rat}
      (h : Derivative.block limit start = .ok b) : TimeKeeping b
  | slewRate {up down : Rat} {b : Block Rat Rat (SlewRate.State Rat) Rat}
      (h : SlewRate.block up down = .ok b) : TimeKeeping b
  | stage {c : Stage.Config Rat} {b : Block Rat Rat (Stage.State Rat) Int}
      (h : Stage.block c = .ok b) : TimeKeeping b

/-- The period of a clock stays positive, however it ticks. -/
theorem SampleClock.period_pos {ι σ ο : Type} {name : String} {start : σ}
    {f : Rat → σ → ι → ο × σ} (clock : σ → SampleClock Rat) (hstart : 0 < (clock start).period)
    (htick : ∀ now s u, clock (f now s u).2 = ((clock s).tick now).2) {s : σ}
    (hs : (Block.timed name start f).Reached s) : 0 < (clock s).period := by
  apply Block.timed_stepsAs.invariant (fun s => 0 < (clock s).period) (fun _ => hstart) _ hs
  intro now s u hs
  rw [htick, period_tick]
  exact hs

/-- **The same call twice.**  Wherever calls at any times have led such a block, two calls with the
same input at the same time give the same output, and the second leaves the memory as it is. -/
theorem TimeKeeping.repeatable {ι σ ο : Type} {b : Block Rat ι σ ο} (hb : TimeKeeping b) {s : σ}
    (hs : b.Reached s) : b.Repeatable s := by
  cases hb with
  | timer h =>
    obtain ⟨-, rfl⟩ := Timer.block_eq_ok_iff.1 h
    exact Block.timed_stepsAs.repeatable_of_step fun now u => Timer.step_step _ now s u
  | accumulatingTimer h =>
    obtain ⟨-, rfl⟩ := Timer.accumulating_eq_ok_iff.1 h
    exact Block.timed_stepsAs.repeatable_of_step fun now d => Timer.Accumulating.step_step _ now s d
  | onDelay h =>
    obtain ⟨-, rfl⟩ := OnDelay.block_eq_ok_iff.1 h
    exact Block.timed_stepsAs.repeatable_of_step fun now u => OnDelay.step_step _ now s u
  | dwellHold h =>
    obtain ⟨-, rfl⟩ := DwellHold.block_eq_ok_iff.1 h
    exact Block.timed_stepsAs.repeatable_of_step fun now u => DwellHold.step_step _ _ now s u
  | variablePulse h =>
    obtain ⟨hperiod, rfl⟩ := VariablePulse.block_eq_ok_iff.1 h
    exact Block.timed_stepsAs.repeatable_of_step fun now u =>
      VariablePulse.step_step hperiod now s u
  | statusProof h =>
    obtain ⟨-, rfl⟩ := StatusProof.block_eq_ok_iff.1 h
    exact Block.timed_stepsAs.repeatable_of_step fun now d => StatusProof.step_step _ _ now s d
  | sampler h =>
    obtain ⟨⟨hperiod, -⟩, rfl⟩ := Sampling.sampler_eq_ok_iff.1 h
    have hperiod := SampleClock.period_pos Sampling.Sampler.State.clock hperiod
      (fun _ _ _ => rfl) hs
    exact Block.timed_stepsAs.repeatable_of_step fun now u =>
      Sampling.Sampler.step_step hperiod now u
  | zeroOrderHold h =>
    obtain ⟨⟨hperiod, -⟩, rfl⟩ := Sampling.zeroOrderHold_eq_ok_iff.1 h
    have hperiod := SampleClock.period_pos Sampling.ZeroOrderHold.State.clock hperiod
      (fun _ _ _ => rfl) hs
    exact Block.timed_stepsAs.repeatable_of_step fun now u =>
      Sampling.ZeroOrderHold.step_step hperiod now u
  | firstOrderHold h =>
    obtain ⟨⟨hperiod, -⟩, rfl⟩ := Sampling.firstOrderHold_eq_ok_iff.1 h
    have hperiod := SampleClock.period_pos Sampling.FirstOrderHold.State.clock hperiod
      Sampling.FirstOrderHold.clock_next hs
    exact Block.timed_stepsAs.repeatable_of_step fun now u =>
      Sampling.FirstOrderHold.step_step hperiod now u
  | integrator h =>
    obtain ⟨-, rfl⟩ := Integrator.block_eq_ok_iff.1 h
    exact Block.timed_stepsAs.repeatable_of_step fun now d => Integrator.step_step _ now s d
  | derivative h =>
    obtain ⟨-, rfl⟩ := Derivative.block_eq_ok_iff.1 h
    exact Block.timed_stepsAs.repeatable_of_step fun now u => Derivative.step_step _ _ now s u
  | slewRate h =>
    obtain ⟨-, rfl⟩ := SlewRate.block_eq_ok_iff.1 h
    exact Block.timed_stepsAs.repeatable_of_step fun now u => SlewRate.step_step _ _ now s u
  | stage h =>
    obtain ⟨p, -, rfl⟩ := Stage.block_eq_ok_iff.1 h
    exact (Stage.ofSettings_stepsAs p).repeatable_of_step fun now u => Stage.step_step p now s u

/-- A stage that has just changed and is to hold. -/
theorem TimeKeeping.repeatable_stage :
    ∃ b : Block Rat Rat (Stage.State Rat) Int, Stage.block ⟨3, 1, some 0, 0⟩ = .ok b ∧
      b.Runs (b.start (some 0)) [⟨1, 1 / 2⟩] [2] ⟨2, some 2⟩ ∧ b.Repeatable ⟨2, some 2⟩ := by
  let c : Stage.Config Rat := ⟨3, 1, some 0, 0⟩
  let p : Stage.Settings Rat := ⟨3, 1, 0, 0⟩
  have hb : Stage.block c = .ok (Stage.ofSettings p) := by with_unfolding_all rfl
  have moved : Stage.step p 1 (Stage.initial p (some 0)) (1 / 2) = (2, ⟨2, some 2⟩) := by
    decide +kernel
  have run : (Stage.ofSettings p).Runs ((Stage.ofSettings p).start (some 0)) [⟨1, 1 / 2⟩] [2]
      ⟨2, some 2⟩ := .cons (congrArg Except.ok moved) (.nil _)
  exact ⟨_, hb, run, TimeKeeping.repeatable (.stage hb) ⟨some 0, _, _, run⟩⟩

end ControlBlocks
