import ControlBlocks.Block.Basic

/-!
# Sampling blocks

Blocks that take their input at instants a fixed period apart and hold it, or go on from it, in
between.

* `catchUp` — the first instant of a grid after a time;
* `SampleClock` — the period and the next instant; `SampleClock.tick` — whether a sample is due;
* `Sampling.sampler` — also takes the input of its first evaluation;
* `Sampling.zeroOrderHold` — passes its input until the first sample;
* `Sampling.firstOrderHold` — goes on along the line through the last two samples;
* `VariablePulse.block` — one pulse a period, as long as the input says at its beginning.

The instants are found by repeated addition, so that over binary floating point they are the ones
that adding up the period gives.
-/

set_option autoImplicit false

namespace ControlBlocks

/-! ## Schedules -/

section Schedule

variable {α : Type} [Scalar α]

/-- At most `fuel` periods are added to `next`, until it lies after `now`. -/
def addPeriods (period now : α) : (fuel : Nat) → (next : α) → α
  | 0, next => next
  | fuel + 1, next => if next ≤ now then addPeriods period now fuel (next + period) else next

/-- A bound for the number of periods from `next` past `now`; rounding may shorten the steps by up
to a third, which the factor two covers.  Where the distance is out of range, the two ends are
counted in periods each. -/
def periodsWithin (period next now : α) : Nat :=
  match (Scalar.wholePart? ((now - next) / period)).or
      (Scalar.wholePart? (now / period - next / period)) with
  | some n => 2 * n.toNat + 4
  | none => 4

/-- The first of the instants `next`, `next + period`, … that lies after `now`. -/
def catchUp (period next now : α) : α := addPeriods period now (periodsWithin period next now) next

/-- When the next sample is due. -/
structure SampleClock (α : Type) where
  period : α
  next : α
  deriving DecidableEq, Repr

namespace SampleClock

instance : ToDatum α (SampleClock α) where
  toDatum c := .record [("period", toDatum c.period), ("next_sample_time", toDatum c.next)]

instance : OfDatum α (SampleClock α) where
  ofDatum? d := do
    let [period, next] ← d.members ["period", "next_sample_time"] | none
    return ⟨← required period, ← required next⟩

/-- A sample is due. -/
def isDue (c : SampleClock α) (now : α) : Bool := decide (c.next ≤ now)

/-- The clock moved past `now` by whole periods. -/
def catchUp (c : SampleClock α) (now : α) : SampleClock α :=
  { c with next := ControlBlocks.catchUp c.period c.next now }

/-- Whether a sample is due, and the clock after it was taken. -/
def tick (c : SampleClock α) (now : α) : Bool × SampleClock α :=
  if c.isDue now then (true, c.catchUp now) else (false, c)

/-- The seconds until the next sample; none if it is due. -/
def timeUntilSample (c : SampleClock α) (now : α) : α := Scalar.larger (c.next - now) 0

end SampleClock

end Schedule

/-! ## Sampling and holding -/

namespace Sampling

variable {α : Type} [Scalar α]

/-- The period and the first instant of a sampling block. -/
structure Grid (α : Type) where
  period : α
  start : α

/-- The clock of a grid before its first instant. -/
def Grid.clock (g : Grid α) : SampleClock α := ⟨g.period, g.start⟩

/-- The period has to be positive and the first instant finite. -/
def Grid.check (block : String) (g : Grid α) : Except (Fault α) (Grid α) := do
  let period ← requirePositive g.period block "samplePeriod must be > 0"
  let start ← requireFinite g.start "startTime"
  return ⟨period, start⟩

namespace Sampler

structure State (α : Type) where
  clock : SampleClock α
  value : α
  /-- There was an evaluation. -/
  started : Bool
  deriving DecidableEq, Repr

instance : ToDatum α (State α) where
  toDatum s := .record [("clock", toDatum s.clock), ("value", toDatum s.value),
    ("initialized", toDatum s.started)]

instance : OfDatum α (State α) where
  ofDatum? d := do
    let [clock, value, started] ← d.members ["clock", "value", "initialized"] | none
    return ⟨← required clock, ← required value, ← required started⟩

/-- One evaluation. -/
def step (now : α) (s : State α) (u : α) : α × State α :=
  let (due, clock) := s.clock.tick now
  let value := if due || !s.started then u else s.value
  (value, ⟨clock, value, true⟩)

end Sampler

/-- Holds the input of the last instant, and of the first evaluation before that. -/
def sampler (g : Grid α) : Except (Fault α) (Block α α (Sampler.State α) α) :=
  (g.check "Sampler").map fun g => .timed "Sampler" ⟨g.clock, 0, false⟩ Sampler.step

namespace ZeroOrderHold

structure State (α : Type) where
  clock : SampleClock α
  held : Option α
  deriving DecidableEq, Repr

instance : ToDatum α (State α) where
  toDatum s := .record [("clock", toDatum s.clock), ("held", toDatum s.held)]

instance : OfDatum α (State α) where
  ofDatum? d := do
    let [clock, held] ← d.members ["clock", "held"] | none
    return ⟨← required clock, ← optional held⟩

/-- One evaluation. -/
def step (now : α) (s : State α) (u : α) : α × State α :=
  let (due, clock) := s.clock.tick now
  let held := if due then some u else s.held
  (held.getD u, ⟨clock, held⟩)

end ZeroOrderHold

/-- Holds the input of the last instant; before the first one the input passes. -/
def zeroOrderHold (g : Grid α) : Except (Fault α) (Block α α (ZeroOrderHold.State α) α) :=
  (g.check "ZeroOrderHold").map fun g =>
    .timed "ZeroOrderHold" ⟨g.clock, none⟩ ZeroOrderHold.step

namespace FirstOrderHold

/-- The last two samples, as far as they were taken, and when the last one was. -/
structure State (α : Type) where
  clock : SampleClock α
  current : Option α
  previous : Option α
  sampledAt : α
  deriving DecidableEq, Repr

instance : ToDatum α (State α) where
  toDatum s := .record [("clock", toDatum s.clock), ("current", toDatum s.current),
    ("previous", toDatum s.previous), ("current_sample_time", toDatum s.sampledAt)]

instance : OfDatum α (State α) where
  ofDatum? d := do
    let [clock, current, previous, sampledAt] ← d.members
      ["clock", "current", "previous", "current_sample_time"] | none
    return ⟨← required clock, ← optional current, ← optional previous, ← required sampledAt⟩

/-- The memory after the clock was looked at: a sample that is due moves the last one back. -/
def next (now : α) (s : State α) (u : α) : State α :=
  let (due, clock) := s.clock.tick now
  if due then ⟨clock, some u, s.current.or s.previous, now⟩ else { s with clock := clock }

/-- The line through the last two samples, the sample while there is one, or the input. -/
def value (period now : α) (s : State α) (u : α) : α :=
  match s.current, s.previous with
  | none, _ => u
  | some current, none => current
  | some current, some previous =>
    current + (current - previous) / period * (now - s.sampledAt)

/-- One evaluation. -/
def step (period now : α) (s : State α) (u : α) : α × State α :=
  let s := next now s u
  (value period now s u, s)

end FirstOrderHold

/-- Goes on along the line through the last two samples. -/
def firstOrderHold (g : Grid α) : Except (Fault α) (Block α α (FirstOrderHold.State α) α) :=
  (g.check "FirstOrderHold").map fun g =>
    .timed "FirstOrderHold" ⟨g.clock, none, none, g.start⟩ (FirstOrderHold.step g.period)

end Sampling

/-! ## Pulses of variable width -/

namespace VariablePulse

variable {α : Type}

/-- Whether a pulse is on, when it ends, when the next one begins, and its width. -/
structure State (α : Type) where
  active : Bool
  ends : α
  next : α
  width : α
  deriving DecidableEq, Repr

instance : ToDatum α (State α) where
  toDatum s := .record [("active", toDatum s.active), ("pulse_end_time", toDatum s.ends),
    ("next_pulse_time", toDatum s.next), ("sampled_width", toDatum s.width)]

instance [Scalar α] : OfDatum α (State α) where
  ofDatum? d := do
    let [active, ends, next, width] ← d.members
      ["active", "pulse_end_time", "next_pulse_time", "sampled_width"] | none
    return ⟨← required active, ← required ends, ← required next, ← required width⟩

variable [Scalar α]

/-- The memory before the first pulse, which begins after one period. -/
def initial (period : α) : State α := ⟨false, 0, period, 0⟩

/-- The memory with a new pulse if one has begun; its width is measured from the last instant of
the grid, also where the evaluation is late. -/
def begin (period now : α) (s : State α) (u : α) : State α :=
  if s.next ≤ now then
    let next := catchUp period s.next now
    let width := Scalar.clamp 0 period u
    ⟨true, next - period + width, next, width⟩
  else s

/-- One evaluation. -/
def step (period now : α) (s : State α) (u : α) : Bool × State α :=
  let s := begin period now s u
  let active := s.active && !decide (s.ends ≤ now)
  (active, { s with active := active })

/-- A pulse at every multiple of the period from the first on; its width is the input at that
time, between zero and the period. -/
def block (period : α) : Except (Fault α) (Block α α (State α) Bool) :=
  (requirePositive period "VariablePulse" "period must be > 0").map fun period =>
    .timed "VariablePulse" (initial period) (step period)

end VariablePulse

end ControlBlocks
