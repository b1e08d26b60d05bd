import ControlBlocks.Block.Basic

/-!
# Integration, differentiation and rate limits

Blocks whose output depends on the time between evaluations.  At the first evaluation no time has
gone by; an evaluation that is not later than the last leaves the output as it is.

* `Integrator.block` — the integral of the input, loaded by a rising trigger;
* `Derivative.block` — the difference quotient of the input;
* `SlewRate.block` — the input, no faster than at given rates;
* `MovingAverage.block` — the mean of the inputs of the last seconds.
-/

set_option autoImplicit false

namespace ControlBlocks

namespace Integrator

variable {α : Type}

structure Input (α : Type) where
  u : α
  trigger : Bool
  /-- What a rising trigger loads. -/
  resetTo : α

/-- A real alone is an input with the trigger low. -/
instance [Scalar α] : OfDatum α (Input α) where
  ofDatum? d :=
    match ofDatum? d with
    | some (u : α) => some ⟨u, false, 0⟩
    | none => do
      let [u, trigger, resetTo] ← d.members ["u", "trigger", "y_reset_in"] | none
      return ⟨← required u, ← required trigger, ← required resetTo⟩

structure State (α : Type) where
  y : α
  last : Option α
  trigger : Bool
  deriving DecidableEq, Repr

instance : ToDatum α (State α) where
  toDatum s := .record [("y", toDatum s.y), ("last_time", toDatum s.last),
    ("pre_trigger", toDatum s.trigger)]

instance [Scalar α] : OfDatum α (State α) where
  ofDatum? d := do
    let [y, last, trigger] ← d.members ["y", "last_time", "pre_trigger"] | none
    return ⟨← required y, ← optional last, ← required trigger⟩

variable [Scalar α]

/-- The integral after an evaluation. -/
def value (k now : α) (s : State α) (d : Input α) : α :=
  if rising s.trigger d.trigger then d.resetTo
  else
    match s.last with
    | some last =>
      let dt := now - last
      if 0 < dt then s.y + k * d.u * dt else s.y
    | none => s.y

/-- One evaluation. -/
def step (k now : α) (s : State α) (d : Input α) : α × State α :=
  let y := value k now s d
  (y, ⟨y, some now, d.trigger⟩)

/-- The integral of `k` times the input, from `start`. -/
def block (k start : α) : Except (Fault α) (Block α (Input α) (State α) α) := do
  let k ← requireFinite k "IntegratorWithReset k"
  let start ← requireFinite start "IntegratorWithReset y_start"
  return .timed "IntegratorWithReset" ⟨start, none, false⟩ (step k)

end Integrator

namespace Derivative

variable {α : Type}

/-- The last output, and the last input with its time. -/
structure State (α : Type) where
  y : α
  last : Option (α × α)
  deriving DecidableEq, Repr

instance : ToDatum α (State α) where
  toDatum s := .record [("y", toDatum s.y), ("previous", toDatum s.last)]

instance [Scalar α] : OfDatum α (State α) where
  ofDatum? d := do
    let [y, last] ← d.members ["y", "previous"] | none
    return ⟨← required y, ← optional last⟩

variable [Scalar α]

/-- The quotient after an evaluation, kept within `limit` on either side. -/
def value (limit start now : α) (s : State α) (u : α) : α :=
  match s.last with
  | none => start
  | some (before, last) =>
    let dt := now - last
    if 0 < dt then Scalar.clamp (-limit) limit ((u - before) / dt) else s.y

/-- One evaluation. -/
def step (limit start now : α) (s : State α) (u : α) : α × State α :=
  let y := value limit start now s u
  (y, ⟨y, some (u, now)⟩)

/-- The difference quotient of the input, within `limit`; `start` at the first evaluation. -/
def block (limit start : α) : Except (Fault α) (Block α α (State α) α) :=
  (requirePositive limit "Derivative" "y_max must be > 0").map fun limit =>
    .timed "Derivative" ⟨start, none⟩ (step limit start)

end Derivative

namespace SlewRate

variable {α : Type}

structure State (α : Type) where
  y : α
  last : Option α
  deriving DecidableEq, Repr

instance : ToDatum α (State α) where
  toDatum s := .record [("y", toDatum s.y), ("last_time", toDatum s.last)]

instance [Scalar α] : OfDatum α (State α) where
  ofDatum? d := do
    let [y, last] ← d.members ["y", "last_time"] | none
    return ⟨← required y, ← optional last⟩

variable [Scalar α]

/-- The output after an evaluation; the first one adopts the input. -/
def value (up down now : α) (s : State α) (u : α) : α :=
  match s.last with
  | none => u
  | some last =>
    let dt := now - last
    if 0 < dt then s.y + Scalar.clamp (-down * dt) (up * dt) (u - s.y) else s.y

/-- One evaluation. -/
def step (up down now : α) (s : State α) (u : α) : α × State α :=
  let y := value up down now s u
  (y, ⟨y, some now⟩)

/-- Follows the input, by at most `up` a second upwards and `down` a second downwards. -/
def block (up down : α) : Except (Fault α) (Block α α (State α) α) := do
  let up ← requirePositive up "LimitSlewRate" "raisingSlewRate must be > 0"
  let down ← requirePositive down "LimitSlewRate" "fallingSlewRate must be > 0"
  return .timed "LimitSlewRate" ⟨0, none⟩ (step up down)

end SlewRate

namespace MovingAverage

variable {α : Type}

/-- The inputs of the last seconds with their times, oldest first. -/
structure State (α : Type) where
  window : List (α × α)
  deriving DecidableEq, Repr

instance : ToDatum α (State α) where
  toDatum s := .record [("window", toDatum s.window)]

instance [Scalar α] : OfDatum α (State α) where
  ofDatum? d := do
    let [window] ← d.members ["window"] | none
    return ⟨← required window⟩

variable [Scalar α]

/-- The window with a new input, without those from before its beginning. -/
def extend (delta now : α) (window : List (α × α)) (u : α) : List (α × α) :=
  (window ++ [(now, u)]).dropWhile fun (t, _) => decide (t < now - delta)

/-- The mean of the inputs in a window. -/
def mean (window : List (α × α)) : α :=
  Scalar.sum (window.map (·.2)) / ((window.length : Int) : α)

/-- One evaluation. -/
def step (delta now : α) (s : State α) (u : α) : α × State α :=
  let window := extend delta now s.window u
  (if window.isEmpty then u else mean window, ⟨window⟩)

/-- The mean of the inputs of the last `delta` seconds. -/
def block (delta : α) : Except (Fault α) (Block α α (State α) α) :=
  (requirePositive delta "MovingAverage" "delta must be > 0").map fun delta =>
    .timed "MovingAverage" ⟨[]⟩ (step delta)

end MovingAverage

end ControlBlocks
