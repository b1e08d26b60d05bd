import ControlBlocks.Block.Basic

/-!
# Waves and pulses

Signals that depend on the time alone, and the trigger of a sampling grid.

* `Wave.constant` — the same value always; `Wave.modelTime` — the time itself;
* `Wave.Ramp`, `Wave.Sine` — a ramp, and a sine that begins at a time;
* `PulseShape` — when a periodic pulse is high; `PulseShape.isHigh`;
* `Pulse.boolean`, `integer`, `real` — trains of pulses;
* `SampleTrigger.block` — true at the instants of a grid, once at each.
-/

set_option autoImplicit false

namespace ControlBlocks

/-! ## Waves -/

namespace Wave

variable {α : Type}

/-- The same value always. -/
def constant {τ : Type} (k : τ) : Block α Unit Unit τ := .total "Constant" fun _ => k

/-- The time in seconds. -/
def modelTime : Block α Unit Unit α := .source "CivilTime" fun t => .ok t

/-- A rise by `height` within `duration` seconds from `start` on. -/
structure Ramp (α : Type) where
  height : α
  duration : α
  offset : α
  start : α

/-- The ramp at a time. -/
def Ramp.value [Scalar α] (p : Ramp α) (t : α) : α :=
  p.offset + p.height * Scalar.clamp 0 p.duration (t - p.start) / p.duration

/-- A ramp; it takes some time. -/
def Ramp.block [Scalar α] (p : Ramp α) : Except (Fault α) (Block α Unit Unit α) :=
  (requirePositive p.duration "Ramp" "duration must be > 0").map fun _ =>
    .source "Ramp" fun t => .ok (p.value t)

/-- A sine wave around `offset` from `start` on. -/
structure Sine (α : Type) where
  amplitude : α
  frequency : α
  phase : α
  offset : α
  start : α

/-- The wave at a time. -/
def Sine.value [Elementary α] (p : Sine α) (t : α) : α :=
  if t < p.start then p.offset
  else
    p.offset + p.amplitude *
      Elementary.sin (2.0 * Elementary.pi * p.frequency * (t - p.start) + p.phase)

/-- A sine wave of finite frequency. -/
def Sine.block [Elementary α] (p : Sine α) : Except (Fault α) (Block α Unit Unit α) :=
  (requireFinite p.frequency "Sin freqHz").map fun _ =>
    .source "SinSource" fun t => .ok (p.value t)

end Wave

/-! ## Pulse trains -/

/-- A pulse that is high for a fraction `width` of each period, from the time `shift` on. -/
structure PulseShape (α : Type) where
  width : α
  period : α
  shift : α

namespace PulseShape

variable {α : Type} [Scalar α]

/-- The width has to be above zero and at most one, the period above zero. -/
def check (block : String) (p : PulseShape α) : Except (Fault α) (PulseShape α) :=
  if 0 < p.width ∧ p.width ≤ 1 then
    (requirePositive p.period block "period must be > 0").map fun _ => p
  else .error (.configuration block "width must be in (0, 1]")

/-- High at a time: not before the shift, and in the first part of a period. -/
def isHigh (p : PulseShape α) (t : α) : Bool :=
  let elapsed := t - p.shift
  decide (0 ≤ elapsed) && decide (Scalar.floorMod elapsed p.period < p.width * p.period)

end PulseShape

namespace Pulse

variable {α : Type} [Scalar α]

/-- A train of truth values. -/
def boolean (p : PulseShape α) : Except (Fault α) (Block α Unit Unit Bool) :=
  (p.check "Pulse").map fun p => .source "Pulse" fun t => .ok (p.isHigh t)

/-- A train of values: `offset + amplitude` while high, `offset` otherwise.  The sum is one of
integers of any size; nothing checks that it fits into the 64 bits of an integer signal, and only
where it does is it a value of such a signal. -/
def integer (amplitude offset : Int) (p : PulseShape α) :
    Except (Fault α) (Block α Unit Unit Int) :=
  (p.check "IntegerPulse").map fun p =>
    .source "IntegerPulse" fun t => .ok (if p.isHigh t then offset + amplitude else offset)

/-- A train of values: `offset + amplitude` while high, `offset` otherwise. -/
def real (amplitude offset : α) (p : PulseShape α) : Except (Fault α) (Block α Unit Unit α) :=
  (p.check "RealPulse").map fun p =>
    .source "RealPulse" fun t => .ok (if p.isHigh t then offset + amplitude else offset)

end Pulse

namespace SampleTrigger

variable {α : Type}

/-- The time of the last trigger. -/
structure State (α : Type) where
  last : Option α
  deriving DecidableEq, Repr

instance : ToDatum α (State α) where
  toDatum s := .record [("last_trigger_time", toDatum s.last)]

instance [Scalar α] : OfDatum α (State α) where
  ofDatum? d := do
    let [last] ← d.members ["last_trigger_time"] | none
    return ⟨← optional last⟩

variable [Scalar α]

/-- A time is an instant `shift + k * period`, up to the tolerance. -/
def isInstant (period shift t : α) : Bool :=
  let elapsed := t - shift
  if elapsed < 0 then false
  else
    let phase := Scalar.floorMod elapsed period
    decide (phase < Scalar.timeTolerance) || decide (period - phase < Scalar.timeTolerance)

/-- A time is not that of the last trigger, up to the tolerance. -/
def isFresh (s : State α) (t : α) : Bool :=
  match s.last with
  | none => true
  | some last => decide (Scalar.timeTolerance < Scalar.magnitude (t - last))

/-- One evaluation. -/
def step (period shift now : α) (s : State α) (_ : Unit) : Bool × State α :=
  if isInstant period shift now && isFresh s now then (true, ⟨some now⟩) else (false, s)

/-- True at the instants `shift + k * period`, once at each. -/
def block (period shift : α) : Except (Fault α) (Block α Unit (State α) Bool) :=
  (requirePositive period "SampleTrigger" "period must be > 0").map fun period =>
    .timed "SampleTrigger" ⟨none⟩ (step period shift)

end SampleTrigger

end ControlBlocks
