import ControlBlocks.Proofs.Calls.Repetition
import Mathlib.Algebra.Order.Group.Unbundled.Basic

/-!
# Time moved along

Blocks that are built later and called later, all by the same time.

* `Call.moved`, `Timer.State.moved` and so on — calls, and the times in a memory, moved along;
* `Timer.step_moved` and so on — a later step on the later memory does what the step did;
* `SampleClock.tick_moved` — a grid that is moved along has its samples due as before;
* `Block.Trails` — a block that does the same as another, later;
* `Moved` — the blocks in question, with the instants that are among their parameters moved along;
  `Moved.exists_trails` — they do the same, later.
-/

set_option autoImplicit false

namespace ControlBlocks

variable {c : Rat}

/-- The same call `c` seconds later. -/
def Call.moved {ι : Type} (c : Rat) (call : Call Rat ι) : Call Rat ι := ⟨call.time + c, call.input⟩

namespace Block

variable {ι σ ο : Type} {b b' : Block Rat ι σ ο} {f f' : Rat → σ → ι → ο × σ}

/-- Built and called `c` seconds later, `b'` gives what `b` does. -/
def Trails (c : Rat) (b' b : Block Rat ι σ ο) : Prop :=
  ∀ (began : Rat) (calls : List (Call Rat ι)), ∃ ys,
    b.Gives (some began) calls ys ∧ b'.Gives (some (began + c)) (calls.map (Call.moved c)) ys

/-- It is enough that a later step on the later memory does what the step did. -/
theorem StepsAs.trails (hb : b.StepsAs f) (hb' : b'.StepsAs f') (move : σ → σ)
    (hstart : ∀ began, b'.start (some (began + c)) = move (b.start (some began)))
    (hstep : ∀ now s u, f' (now + c) (move s) u = ((f now s u).1, move (f now s u).2)) :
    b'.Trails c b := by
  intro began calls
  obtain ⟨ys, last, run⟩ := hb.exists_runs (b.start (some began)) calls
  have later : b'.Runs (move (b.start (some began))) (calls.map (Call.moved c)) (ys.map id)
      (move last) :=
    hb.map_runs hb' (fun call s => hstep call.time s call.input) run
  rw [← hstart, List.map_id] at later
  exact ⟨ys, ⟨last, run⟩, move last, later⟩

/-- A block that begins with the same memory at any time. -/
theorem timed_trails {name : String} {start start' : σ} (move : σ → σ)
    (hstart : start' = move start)
    (hstep : ∀ now s u, f' (now + c) (move s) u = ((f now s u).1, move (f now s u).2)) :
    (timed name start' f').Trails c (timed name start f) :=
  timed_stepsAs.trails timed_stepsAs move (fun _ => hstart) hstep

end Block

/-! ## Timers, delays and holds -/

/-- The memory after the same calls `c` seconds later. -/
def Timer.State.moved (c : Rat) (s : State Rat) : State Rat :=
  { s with since := s.since.map (· + c) }

theorem Timer.step_moved (threshold c now : Rat) (s : State Rat) (u : Bool) :
    step threshold (now + c) (s.moved c) u =
      ((step threshold now s u).1, (step threshold now s u).2.moved c) := by
  cases u with
  | false => rfl
  | true =>
    cases hs : s.since with
    | none => simp [step, State.moved, hs]
    | some since => simp [step, State.moved, hs]

def Timer.Accumulating.State.moved (c : Rat) (s : State Rat) : State Rat :=
  { s with since := s.since.map (· + c) }

theorem Timer.Accumulating.next_moved (threshold c now : Rat) (s : State Rat) (d : Input) :
    next threshold (now + c) (s.moved c) d = (next threshold now s d).moved c := by
  cases hreset : d.reset with
  | true => simp [next, State.moved, initial, hreset]
  | false =>
    cases hu : d.u with
    | false => simp [next, State.moved, hreset, hu]
    | true => cases hs : s.since <;> simp [next, State.moved, hreset, hu, hs]

theorem Timer.Accumulating.step_moved (threshold c now : Rat) (s : State Rat) (d : Input) :
    step threshold (now + c) (s.moved c) d =
      ((step threshold now s d).1, (step threshold now s d).2.moved c) := by
  simp only [step, next_moved]
  rfl

def OnDelay.State.moved (c : Rat) (s : State Rat) : State Rat :=
  { s with due := s.due.map (· + c) }

theorem OnDelay.step_moved (delay c now : Rat) (s : State Rat) (u : Bool) :
    step delay (now + c) (s.moved c) u =
      ((step delay now s u).1, (step delay now s u).2.moved c) := by
  cases u with
  | false => rfl
  | true =>
    cases hu : s.u with
    | false =>
      by_cases hdelay : 0 < delay
      · simp [step, next, rising, State.moved, hu, hdelay, add_right_comm]
      · simp [step, next, rising, State.moved, hu, hdelay]
    | true =>
      cases hdue : s.due with
      | none => simp [step, next, rising, State.moved, hu, hdue]
      | some due =>
        by_cases hover : due ≤ now
        · simp [step, next, rising, State.moved, hu, hdue, hover]
        · simp [step, next, rising, State.moved, hu, hdue, hover]

def DwellHold.State.moved (c : Rat) (s : State Rat) : State Rat :=
  { s with since := s.since.map (· + c) }

theorem DwellHold.step_moved (whileTrue whileFalse c now : Rat) (s : State Rat) (u : Bool) :
    step whileTrue whileFalse (now + c) (s.moved c) u =
      ((step whileTrue whileFalse now s u).1, (step whileTrue whileFalse now s u).2.moved c) := by
  cases hs : s.since with
  | none => simp [step, State.moved, hs]
  | some since =>
    by_cases hchange : (u != s.y && decide ((if s.y then whileTrue else whileFalse) ≤ now - since))
    · simp [step, State.moved, hs, hchange]
    · simp [step, State.moved, hs, hchange]

/-- Before the first evaluation no command has been given, and there is no time to move. -/
def StatusProof.State.moved (c : Rat) (s : State Rat) : State Rat :=
  { s with
    commandedAt := if s.status.isSome then s.commandedAt + c else s.commandedAt
    onSince := s.onSince.map (· + c)
    offSince := s.offSince.map (· + c) }

theorem StatusProof.next_moved (c now : Rat) (s : State Rat) (d : Input) :
    next (now + c) (s.moved c) d = (next now s d).moved c := by
  cases hs : s.status with
  | none => cases hd : d.status <;> simp [next, State.moved, hs, hd]
  | some before =>
    by_cases hset : d.setpoint = s.setpoint
    · cases before <;> cases hd : d.status <;> simp [next, State.moved, hs, hd, hset]
    · cases before <;> cases hd : d.status <;> simp [next, State.moved, hs, hd, hset]

theorem StatusProof.lasted_moved (least c now : Rat) (since : Option Rat) :
    lasted least (now + c) (since.map (· + c)) = lasted least now since := by
  cases since <;> simp [lasted]

theorem StatusProof.step_moved (testDelay stuckDelay c now : Rat) (s : State Rat) (d : Input) :
    step testDelay stuckDelay (now + c) (s.moved c) d =
      ((step testDelay stuckDelay now s d).1, (step testDelay stuckDelay now s d).2.moved c) := by
  have commanded : ((next now s d).moved c).commandedAt = (next now s d).commandedAt + c := rfl
  have on : ((next now s d).moved c).onSince = (next now s d).onSince.map (· + c) := rfl
  have off : ((next now s d).moved c).offSince = (next now s d).offSince.map (· + c) := rfl
  simp only [step, next_moved, commanded, on, off, lasted_moved, add_sub_add_right_eq_sub]

/-! ## Dynamics -/

def Integrator.State.moved (c : Rat) (s : State Rat) : State Rat :=
  { s with last := s.last.map (· + c) }

theorem Integrator.step_moved (k c now : Rat) (s : State Rat) (d : Input Rat) :
    step k (now + c) (s.moved c) d = ((step k now s d).1, (step k now s d).2.moved c) := by
  cases hs : s.last <;> simp [step, value, State.moved, hs]

def Derivative.State.moved (c : Rat) (s : State Rat) : State Rat :=
  { s with last := s.last.map fun (before, last) => (before, last + c) }

theorem Derivative.step_moved (limit start c now : Rat) (s : State Rat) (u : Rat) :
    step limit start (now + c) (s.moved c) u =
      ((step limit start now s u).1, (step limit start now s u).2.moved c) := by
  cases hs : s.last <;> simp [step, value, State.moved, hs]

def SlewRate.State.moved (c : Rat) (s : State Rat) : State Rat :=
  { s with last := s.last.map (· + c) }

theorem SlewRate.step_moved (up down c now : Rat) (s : State Rat) (u : Rat) :
    step up down (now + c) (s.moved c) u =
      ((step up down now s u).1, (step up down now s u).2.moved c) := by
  cases hs : s.last <;> simp [step, value, State.moved, hs]

def MovingAverage.State.moved (c : Rat) (s : State Rat) : State Rat :=
  ⟨s.window.map fun (t, u) => (t + c, u)⟩

theorem MovingAverage.extend_moved (delta c now : Rat) (window : List (Rat × Rat)) (u : Rat) :
    extend delta (now + c) (window.map fun (t, u) => (t + c, u)) u =
      (extend delta now window u).map fun (t, u) => (t + c, u) := by
  have longer : (window.map fun (t, u) => (t + c, u)) ++ [(now + c, u)] =
      (window ++ [(now, u)]).map fun (t, u) => (t + c, u) := by simp
  unfold extend
  rw [longer, List.dropWhile_map]
  congr 2
  funext (t, u)
  simp only [Function.comp_apply, add_sub_right_comm, add_lt_add_iff_right]

theorem MovingAverage.mean_moved (c : Rat) (window : List (Rat × Rat)) :
    mean (window.map fun (t, u) => (t + c, u)) = mean window := by
  simp [mean, Function.comp_def]

theorem MovingAverage.step_moved (delta c now : Rat) (s : State Rat) (u : Rat) :
    step delta (now + c) (s.moved c) u =
      ((step delta now s u).1, (step delta now s u).2.moved c) := by
  simp only [step, State.moved, extend_moved, mean_moved, List.isEmpty_map]

/-! ## The controller and stages -/

def Pid.State.moved (c : Rat) (s : State Rat) : State Rat := { s with last := s.last.map (· + c) }

theorem Pid.step_moved (config : Config Rat) (c now : Rat) (s : State Rat) (d : Input Rat) :
    step config (now + c) (s.moved c) d =
      ((step config now s d).1, (step config now s d).2.moved c) := by
  cases hs : s.last with
  | none => simp [step, State.moved, hs]
  | some last => simp [step, State.moved, hs, Config.integral, Config.slope]

def Stage.State.moved (c : Rat) (s : State Rat) : State Rat :=
  { s with changeFrom := s.changeFrom.map (· + c) }

theorem Stage.initial_moved (p : Settings Rat) (c began : Rat) :
    initial p (some (began + c)) = (initial p (some began)).moved c := by
  simp [initial, State.moved, add_right_comm]

theorem Stage.step_moved (p : Settings Rat) (c now : Rat) (s : State Rat) (u : Rat) :
    step p (now + c) (s.moved c) u = ((step p now s u).1, (step p now s u).2.moved c) := by
  have may : mayChange (now + c) (s.moved c) = mayChange now s := by
    cases hs : s.changeFrom <;> simp [mayChange, State.moved, hs]
  have stage : (s.moved c).y = s.y := rfl
  simp only [step, may, stage]
  split
  · split
    · simp [State.moved, add_right_comm]
    · rfl
  · rfl

/-! ## Sampling -/

theorem addPeriods_moved (period c now : Rat) (fuel : ℕ) (next : Rat) :
    addPeriods period (now + c) fuel (next + c) = addPeriods period now fuel next + c := by
  induction fuel generalizing next with
  | zero => rfl
  | succ fuel ih =>
    simp only [addPeriods, add_le_add_iff_right, add_right_comm _ c, ih]
    split <;> rfl

theorem periodsWithin_moved (period c next now : Rat) :
    periodsWithin period (next + c) (now + c) = periodsWithin period next now := by
  -- counting both ends in periods would not do, but exact distances are never out of range
  have found (q r : Rat) : (Scalar.wholePart? q).or (Scalar.wholePart? r) = Scalar.wholePart? q :=
    rfl
  simp only [periodsWithin, found, add_sub_add_right_eq_sub]

/-- The first instant after a time moves along with the grid and the time. -/
theorem catchUp_moved (period c next now : Rat) :
    catchUp period (next + c) (now + c) = catchUp period next now + c := by
  rw [catchUp, periodsWithin_moved, addPeriods_moved, catchUp]

def SampleClock.moved (c : Rat) (clock : SampleClock Rat) : SampleClock Rat :=
  { clock with next := clock.next + c }

theorem SampleClock.tick_moved (c : Rat) (clock : SampleClock Rat) (now : Rat) :
    (clock.moved c).tick (now + c) = ((clock.tick now).1, (clock.tick now).2.moved c) := by
  have due : (clock.moved c).isDue (now + c) = clock.isDue now := by simp [isDue, moved]
  have next : (clock.moved c).catchUp (now + c) = (clock.catchUp now).moved c := by
    simp only [catchUp, moved, catchUp_moved]
  simp only [tick, due, next]
  split <;> rfl

namespace Sampling

/-- The same grid, beginning `c` seconds later. -/
def Grid.moved (c : Rat) (g : Grid Rat) : Grid Rat := { g with start := g.start + c }

def Sampler.State.moved (c : Rat) (s : State Rat) : State Rat :=
  { s with clock := s.clock.moved c }

theorem Sampler.step_moved (c now : Rat) (s : State Rat) (u : Rat) :
    step (now + c) (s.moved c) u = ((step now s u).1, (step now s u).2.moved c) := by
  simp only [step, State.moved, SampleClock.tick_moved]

def ZeroOrderHold.State.moved (c : Rat) (s : State Rat) : State Rat :=
  { s with clock := s.clock.moved c }

theorem ZeroOrderHold.step_moved (c now : Rat) (s : State Rat) (u : Rat) :
    step (now + c) (s.moved c) u = ((step now s u).1, (step now s u).2.moved c) := by
  simp only [step, State.moved, SampleClock.tick_moved]

/-- Before the first sample `sampledAt` is the first instant of the grid, which moves along. -/
def FirstOrderHold.State.moved (c : Rat) (s : State Rat) : State Rat :=
  { s with clock := s.clock.moved c, sampledAt := s.sampledAt + c }

theorem FirstOrderHold.next_moved (c now : Rat) (s : State Rat) (u : Rat) :
    next (now + c) (s.moved c) u = (next now s u).moved c := by
  simp only [next, State.moved, SampleClock.tick_moved]
  split <;> rfl

theorem FirstOrderHold.value_moved (period c now : Rat) (s : State Rat) (u : Rat) :
    value period (now + c) (s.moved c) u = value period now s u := by
  simp only [value, State.moved, add_sub_add_right_eq_sub]

theorem FirstOrderHold.step_moved (period c now : Rat) (s : State Rat) (u : Rat) :
    step period (now + c) (s.moved c) u =
      ((step period now s u).1, (step period now s u).2.moved c) := by
  simp only [step, next_moved, value_moved]

end Sampling

def SampleTrigger.State.moved (c : Rat) (s : State Rat) : State Rat := ⟨s.last.map (· + c)⟩

theorem SampleTrigger.isInstant_moved (period shift c t : Rat) :
    isInstant period (shift + c) (t + c) = isInstant period shift t := by
  simp only [isInstant, add_sub_add_right_eq_sub]

theorem SampleTrigger.isFresh_moved (c t : Rat) (s : State Rat) :
    isFresh (s.moved c) (t + c) = isFresh s t := by
  cases hs : s.last <;> simp [isFresh, State.moved, hs]

theorem SampleTrigger.step_moved (period shift c now : Rat) (s : State Rat) (u : Unit) :
    step period (shift + c) (now + c) (s.moved c) u =
      ((step period shift now s u).1, (step period shift now s u).2.moved c) := by
  simp only [step, isInstant_moved, isFresh_moved]
  split <;> rfl

/-! ## All of them -/

/-- The blocks in question, as they are asked for and as they are asked for `c` seconds later: a
parameter that is an instant moves along, the others stay. -/
inductive Moved (c : Rat) : {ι σ ο : Type} → (asked later : Except (Fault Rat) (Block Rat ι σ ο)) →
    Prop where
  | timer (threshold : Rat) : Moved c (Timer.block threshold) (Timer.block threshold)
  | accumulatingTimer (threshold : Rat) :
      Moved c (Timer.accumulating threshold) (Timer.accumulating threshold)
  | onDelay (delay : Rat) : Moved c (OnDelay.block delay) (OnDelay.block delay)
  | dwellHold (whileTrue whileFalse : Rat) :
      Moved c (DwellHold.block whileTrue whileFalse) (DwellHold.block whileTrue whileFalse)
  | statusProof (testDelay stuckDelay : Rat) :
      Moved c (StatusProof.block testDelay stuckDelay) (StatusProof.block testDelay stuckDelay)
  | integrator (k start : Rat) : Moved c (Integrator.block k start) (Integrator.block k start)
  | derivative (limit start : Rat) :
      Moved c (Derivative.block limit start) (Derivative.block limit start)
  | slewRate (up down : Rat) : Moved c (SlewRate.block up down) (SlewRate.block up down)
  | movingAverage (delta : Rat) : Moved c (MovingAverage.block delta) (MovingAverage.block delta)
  | pid (config : Pid.Config Rat) : Moved c (Pid.block config) (Pid.block config)
  | stage (config : Stage.Config Rat) : Moved c (Stage.block config) (Stage.block config)
  | sampler (g : Sampling.Grid Rat) : Moved c (Sampling.sampler g) (Sampling.sampler (g.moved c))
  | zeroOrderHold (g : Sampling.Grid Rat) :
      Moved c (Sampling.zeroOrderHold g) (Sampling.zeroOrderHold (g.moved c))
  | firstOrderHold (g : Sampling.Grid Rat) :
      Moved c (Sampling.firstOrderHold g) (Sampling.firstOrderHold (g.moved c))
  | sampleTrigger (period shift : Rat) :
      Moved c (SampleTrigger.block period shift) (SampleTrigger.block period (shift + c))

/-- **Only differences of times count.**  Where such a block accepts its parameters, it accepts
them when they are moved along, and then gives the same outputs if it is built and called later by
as much, whatever the times and inputs of the calls. -/
theorem Moved.exists_trails {ι σ ο : Type} {asked later : Except (Fault Rat) (Block Rat ι σ ο)}
    {b : Block Rat ι σ ο} (h : Moved c asked later) (hb : asked = .ok b) :
    ∃ b', later = .ok b' ∧ b'.Trails c b := by
  have finite := Scalar.isFinite_exact
  cases h with
  | timer threshold =>
    obtain ⟨-, rfl⟩ := Timer.block_eq_ok_iff.1 hb
    exact ⟨_, hb, Block.timed_trails (.moved c) rfl (Timer.step_moved threshold c)⟩
  | accumulatingTimer threshold =>
    obtain ⟨-, rfl⟩ := Timer.accumulating_eq_ok_iff.1 hb
    exact ⟨_, hb, Block.timed_trails (.moved c) rfl (Timer.Accumulating.step_moved threshold c)⟩
  | onDelay delay =>
    obtain ⟨-, rfl⟩ := OnDelay.block_eq_ok_iff.1 hb
    exact ⟨_, hb, Block.timed_trails (.moved c) rfl (OnDelay.step_moved delay c)⟩
  | dwellHold whileTrue whileFalse =>
    obtain ⟨-, rfl⟩ := DwellHold.block_eq_ok_iff.1 hb
    exact ⟨_, hb, Block.timed_trails (.moved c) rfl (DwellHold.step_moved whileTrue whileFalse c)⟩
  | statusProof testDelay stuckDelay =>
    obtain ⟨-, rfl⟩ := StatusProof.block_eq_ok_iff.1 hb
    exact ⟨_, hb,
      Block.timed_trails (.moved c) rfl (StatusProof.step_moved testDelay stuckDelay c)⟩
  | integrator k start =>
    obtain ⟨-, rfl⟩ := Integrator.block_eq_ok_iff.1 hb
    exact ⟨_, hb, Block.timed_trails (.moved c) rfl (Integrator.step_moved k c)⟩
  | derivative limit start =>
    obtain ⟨-, rfl⟩ := Derivative.block_eq_ok_iff.1 hb
    exact ⟨_, hb, Block.timed_trails (.moved c) rfl (Derivative.step_moved limit start c)⟩
  | slewRate up down =>
    obtain ⟨-, rfl⟩ := SlewRate.block_eq_ok_iff.1 hb
    exact ⟨_, hb, Block.timed_trails (.moved c) rfl (SlewRate.step_moved up down c)⟩
  | movingAverage delta =>
    obtain ⟨-, rfl⟩ := MovingAverage.block_eq_ok_iff.1 hb
    exact ⟨_, hb, Block.timed_trails (.moved c) rfl (MovingAverage.step_moved delta c)⟩
  | pid config =>
    obtain ⟨-, rfl⟩ := Pid.block_eq_ok_iff.1 hb
    exact ⟨_, hb, Block.timed_trails (.moved c) rfl (Pid.step_moved config c)⟩
  | stage config =>
    obtain ⟨p, -, rfl⟩ := Stage.block_eq_ok_iff.1 hb
    have steps := Stage.ofSettings_stepsAs p
    exact ⟨_, hb, steps.trails steps (.moved c) (Stage.initial_moved p c) (Stage.step_moved p c)⟩
  | sampler g =>
    obtain ⟨⟨hperiod, -⟩, rfl⟩ := Sampling.sampler_eq_ok_iff.1 hb
    exact ⟨_, Sampling.sampler_eq_ok_iff.2 ⟨⟨hperiod, finite _⟩, rfl⟩,
      Block.timed_trails (.moved c) rfl (Sampling.Sampler.step_moved c)⟩
  | zeroOrderHold g =>
    obtain ⟨⟨hperiod, -⟩, rfl⟩ := Sampling.zeroOrderHold_eq_ok_iff.1 hb
    exact ⟨_, Sampling.zeroOrderHold_eq_ok_iff.2 ⟨⟨hperiod, finite _⟩, rfl⟩,
      Block.timed_trails (.moved c) rfl (Sampling.ZeroOrderHold.step_moved c)⟩
  | firstOrderHold g =>
    obtain ⟨⟨hperiod, -⟩, rfl⟩ := Sampling.firstOrderHold_eq_ok_iff.1 hb
    exact ⟨_, Sampling.firstOrderHold_eq_ok_iff.2 ⟨⟨hperiod, finite _⟩, rfl⟩,
      Block.timed_trails (.moved c) rfl (Sampling.FirstOrderHold.step_moved g.period c)⟩
  | sampleTrigger period shift =>
    obtain ⟨hperiod, rfl⟩ := SampleTrigger.block_eq_ok_iff.1 hb
    exact ⟨_, SampleTrigger.block_eq_ok_iff.2 ⟨hperiod, rfl⟩,
      Block.timed_trails (.moved c) rfl (SampleTrigger.step_moved period shift c)⟩

/-- A hold that takes its first sample at one, and the same five seconds before. -/
theorem Moved.exists_trails_hold :
    ∃ b b' : Block Rat Rat (Sampling.ZeroOrderHold.State Rat) Rat,
      Sampling.zeroOrderHold ⟨2, 1⟩ = .ok b ∧ Sampling.zeroOrderHold ⟨2, -4⟩ = .ok b' ∧
        b.Gives (some 0) [⟨0, 5⟩, ⟨1, 6⟩, ⟨2, 7⟩, ⟨3, 8⟩] [5, 6, 6, 8] ∧
        b'.Gives (some (-5)) [⟨-5, 5⟩, ⟨-4, 6⟩, ⟨-3, 7⟩, ⟨-2, 8⟩] [5, 6, 6, 8] := by
  let g : Sampling.Grid Rat := ⟨2, 1⟩
  let calls : List (Call Rat Rat) := [⟨0, 5⟩, ⟨1, 6⟩, ⟨2, 7⟩, ⟨3, 8⟩]
  have hb : Sampling.zeroOrderHold g =
      .ok (.timed "ZeroOrderHold" ⟨g.clock, none⟩ Sampling.ZeroOrderHold.step) := by
    with_unfolding_all rfl
  obtain ⟨b', hb', trails⟩ := Moved.exists_trails (.zeroOrderHold (c := -5) g) hb
  have earlier : g.moved (-5) = ⟨2, -4⟩ := by norm_num [Sampling.Grid.moved, g]
  have began : (some (0 + -5) : Option Rat) = some (-5) := by norm_num
  have before : calls.map (Call.moved (-5)) = [⟨-5, 5⟩, ⟨-4, 6⟩, ⟨-3, 7⟩, ⟨-2, 8⟩] := by
    norm_num [Call.moved, calls]
  have outputs :
      Block.outputs Sampling.ZeroOrderHold.step ⟨g.clock, none⟩ calls = [5, 6, 6, 8] := by
    decide +kernel
  obtain ⟨ys, gives, gives'⟩ := trails 0 calls
  rw [gives.unique (Block.timed_gives _ _ _ _ calls), outputs, began, before] at gives'
  rw [earlier] at hb'
  exact ⟨_, b', hb, hb', outputs ▸ Block.timed_gives _ _ _ _ calls, gives'⟩

end ControlBlocks
