import ControlBlocks.Datum.Coded
import ControlBlocks.Fault

/-!
# The clock

One clock is shared by all blocks of a network.  In simulation it moves only when it is advanced;
in real time every look at it takes over the time of day.  The time of day is an argument, `wall`,
wherever it can matter.

* `Clock` — mode, time and default step; it is also the record that is saved;
* `Clock.look`, `advance`, `reset`, `setMode` — how it moves;
* `Clock.Patch`, `Clock.apply` — a partial restore, each field on its own.
-/

set_option autoImplicit false

namespace ControlBlocks

/-- What moves a clock. -/
inductive ClockMode where
  /-- Only `advance`. -/
  | simulation
  /-- The time of day. -/
  | realtime
  deriving DecidableEq, Repr

/-- A clock; times are in seconds. -/
structure Clock (α : Type) where
  mode : ClockMode
  time : α
  /-- The step of an `advance` that names none. -/
  step : Option α
  deriving DecidableEq, Repr

namespace ClockMode

/-- The names of the modes in data. -/
def named : List (String × ClockMode) := [("simulation", .simulation), ("realtime", .realtime)]

instance (α : Type) : ToDatum α ClockMode where
  toDatum
    | .simulation => .text "simulation"
    | .realtime => .text "realtime"

instance (α : Type) : OfDatum α ClockMode := ⟨ofName? named⟩

end ClockMode

namespace Clock

variable {α : Type}

/-- Where a clock of a mode starts: at zero in simulation, at the time of day in real time. -/
def origin [Scalar α] (wall : α) : ClockMode → α
  | .simulation => 0
  | .realtime => wall

/-- A clock that starts at `start`, or at the origin of its mode. -/
def new [Scalar α] (wall : α) (mode : ClockMode) (start step : Option α) : Clock α :=
  ⟨mode, start.getD (origin wall mode), step⟩

/-- The clock after a look at it; its `time` is what was seen. -/
def look (wall : α) (c : Clock α) : Clock α :=
  match c.mode with
  | .simulation => c
  | .realtime => { c with time := wall }

/-- The clock one step on.  In simulation the step is `dt` or else the default step; in real time
it takes over the time of day. -/
def advance [Scalar α] (wall : α) (dt : Option α) (c : Clock α) : Except (Fault α) (Clock α) :=
  match c.mode with
  | .simulation =>
    match dt.or c.step with
    | some step => .ok { c with time := c.time + step }
    | none => .error (.configuration "TimeManager" "no step size available")
  | .realtime => .ok { c with time := wall }

/-- The clock set to `start`, or to the origin of its mode. -/
def reset [Scalar α] (wall : α) (start : Option α) (c : Clock α) : Clock α :=
  { c with time := start.getD (origin wall c.mode) }

/-- The clock in another mode, set to `start`; without one, real time takes over the time of day
and simulation goes on from where it is. -/
def setMode (wall : α) (mode : ClockMode) (start : Option α) (c : Clock α) : Clock α :=
  match start, mode with
  | some t, _ => { c with mode := mode, time := t }
  | none, .realtime => { c with mode := mode, time := wall }
  | none, .simulation => { c with mode := mode }

/-- The clock with another default step. -/
def setStep (step : Option α) (c : Clock α) : Clock α := { c with step := step }

/-- A partial restore: the fields that are there replace those of the clock.  The default step
may be absent (`none`) or given as unset (`some none`). -/
structure Patch (α : Type) where
  mode : Option ClockMode
  time : Option α
  step : Option (Option α)
  deriving DecidableEq, Repr

/-- The clock after a partial restore. -/
def apply (patch : Patch α) (c : Clock α) : Clock α :=
  { mode := patch.mode.getD c.mode, time := patch.time.getD c.time, step := patch.step.getD c.step }

/-- The restore that sets only the time. -/
def Patch.ofTime (t : α) : Patch α := ⟨none, some t, none⟩

/-- The restore of a whole clock. -/
def Patch.ofClock (c : Clock α) : Patch α := ⟨some c.mode, some c.time, some c.step⟩

/-- The names of the fields of a clock in data. -/
def fieldNames : List String := ["mode", "current_time", "time_step"]

instance : ToDatum α (Clock α) where
  toDatum c := .record
    [("mode", toDatum c.mode), ("current_time", toDatum c.time), ("time_step", toDatum c.step)]

instance [Scalar α] : OfDatum α (Clock α) where
  ofDatum? d := do
    let [mode, time, step] ← d.members fieldNames | none
    return ⟨← required mode, ← required time, ← optional step⟩

/-- A patch read from data: any field may be missing.  A `null` mode or time counts as missing, a
`null` step as unset. -/
instance [Scalar α] : OfDatum α (Patch α) where
  ofDatum? d := do
    let [mode, time, step] ← d.leadingMembers fieldNames | none
    let step ← match step with
      | none => some none
      | some d => (ofDatum? d).map some
    return ⟨← optional mode, ← optional time, step⟩

end Clock

end ControlBlocks
