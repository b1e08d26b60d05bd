import ControlBlocks.Block.Basic

/-!
# The controller

Proportional, integral and derivative action on the normalized error
`e = ± (setpoint - measurement) / r`, with output limits:

`y = clamp yMin yMax (k * (e + integral / ti + td * slope))`,

where `slope` is the derivative of the error behind a first-order filter with time constant
`td / nd`.  While the output is clamped the integral is drawn back by the excess, scaled with
`1 / (k * ni)`.

* `Pid.Action`, `Pid.Config` — the kinds of controller and their parameters;
* `Pid.step` — one evaluation; `Pid.block` — the block.
-/

set_option autoImplicit false

namespace ControlBlocks.Pid

/-- Which actions a controller has. -/
inductive Action where
  | P
  | PI
  | PD
  | PID
  deriving DecidableEq, Repr

def Action.hasIntegral : Action → Bool
  | .PI | .PID => true
  | .P | .PD => false

def Action.hasDerivative : Action → Bool
  | .PD | .PID => true
  | .P | .PI => false

/-- The names of the actions in data. -/
def Action.named : List (String × Action) := [("P", .P), ("PI", .PI), ("PD", .PD), ("PID", .PID)]

variable {α : Type}

instance : OfDatum α Action := ⟨ofName? Action.named⟩

instance : ToDatum α Action where
  toDatum
    | .P => .text "P"
    | .PI => .text "PI"
    | .PD => .text "PD"
    | .PID => .text "PID"

structure Config (α : Type) where
  action : Action
  /-- The gain. -/
  k : α
  /-- The time constant of the integral. -/
  ti : α
  /-- The time constant of the derivative. -/
  td : α
  /-- The typical range of the error. -/
  r : α
  yMax : α
  yMin : α
  /-- The factor against windup. -/
  ni : α
  /-- The factor of the filter. -/
  nd : α
  /-- The integral at the start. -/
  integralStart : α
  /-- The filtered slope at the start. -/
  slopeStart : α
  /-- The output rises where the measurement falls below the setpoint. -/
  reverseActing : Bool
  deriving DecidableEq, Repr

/-- A PI controller with output between zero and one. -/
def Config.standard [Scalar α] : Config α :=
  ⟨.PI, 1, 0.5, 0.1, 1, 1, 0, 0.9, 10.0, 0, 0, true⟩

/-- The names of the parameters in data. -/
def Config.names : List String :=
  ["controller_type", "k", "ti", "td", "r", "y_max", "y_min", "ni", "nd", "xi_start", "yd_start",
    "reverse_acting"]

instance : ToDatum α (Config α) where
  toDatum c := .record (Config.names.zip
    [toDatum c.action, toDatum c.k, toDatum c.ti, toDatum c.td, toDatum c.r, toDatum c.yMax,
      toDatum c.yMin, toDatum c.ni, toDatum c.nd, toDatum c.integralStart, toDatum c.slopeStart,
      toDatum c.reverseActing])

instance [Scalar α] : OfDatum α (Config α) where
  ofDatum? d := do
    let [action, k, ti, td, r, yMax, yMin, ni, nd, integralStart, slopeStart, reverseActing] ←
      d.members Config.names | none
    return ⟨← required action, ← required k, ← required ti, ← required td, ← required r,
      ← required yMax, ← required yMin, ← required ni, ← required nd, ← required integralStart,
      ← required slopeStart, ← required reverseActing⟩

/-- The integral and the filtered slope of the error, the last error, and the time of the last
evaluation if there was one. -/
structure State (α : Type) where
  integral : α
  error : α
  slope : α
  last : Option α
  deriving DecidableEq, Repr

instance : ToDatum α (State α) where
  toDatum s := .record [("integral", toDatum s.integral), ("last_error", toDatum s.error),
    ("derivative_filtered", toDatum s.slope), ("last_time", toDatum s.last)]

instance [Scalar α] : OfDatum α (State α) where
  ofDatum? d := do
    let [integral, error, slope, last] ← d.members
      ["integral", "last_error", "derivative_filtered", "last_time"] | none
    return ⟨← required integral, ← required error, ← required slope, ← optional last⟩

structure Input (α : Type) where
  setpoint : α
  measurement : α

instance [Scalar α] : OfDatum α (Input α) where
  ofDatum? d := do
    let [setpoint, measurement] ← d.members ["u_s", "u_m"] | none
    return ⟨← required setpoint, ← required measurement⟩

variable [Scalar α]

/-- Limits in order, positive gains and factors, and positive time constants of the actions that
the controller has. -/
def Config.check (c : Config α) : Except (Fault α) Unit :=
  if ¬ c.yMin < c.yMax then .error (.configuration "PID" "yMin must be less than yMax")
  else do
    discard (requirePositive c.k "PID" "k must be > 0")
    discard (requirePositive c.r "PID" "r must be > 0")
    discard (requirePositive c.ni "PID" "Ni must be > 0")
    discard (requirePositive c.nd "PID" "Nd must be > 0")
    if c.action.hasIntegral then discard (requirePositive c.ti "PID" "Ti must be > 0")
    if c.action.hasDerivative then discard (requirePositive c.td "PID" "Td must be > 0")

/-- The normalized error; its sign makes the output of a reverse acting controller rise with it. -/
def Config.error (c : Config α) (d : Input α) : α :=
  (if c.reverseActing then 1 else -1) * (d.setpoint - d.measurement) / c.r

/-- An output kept within the limits. -/
def Config.limit (c : Config α) (y : α) : α := Scalar.clamp c.yMin c.yMax y

/-- The integral of the error `dt` later. -/
def Config.integral (c : Config α) (s : State α) (error dt : α) : α :=
  if c.action.hasIntegral && decide (0 < dt) then s.integral + error * dt else s.integral

/-- The filtered slope of the error `dt` later. -/
def Config.slope (c : Config α) (s : State α) (error dt : α) : α :=
  if c.action.hasDerivative && decide (0 < dt) then
    let quotient := (error - s.error) / dt
    let alpha := dt / (c.td / c.nd + dt)
    s.slope + alpha * (quotient - s.slope)
  else s.slope

/-- The output before it is limited. -/
def Config.unlimited (c : Config α) (error integral slope : α) : α :=
  c.k * error
    + (if c.action.hasIntegral then c.k / c.ti * integral else 0)
    + (if c.action.hasDerivative then c.k * c.td * slope else 0)

/-- The integral drawn back by what the limits cut off. -/
def Config.unwound (c : Config α) (integral unlimited y dt : α) : α :=
  if y != unlimited && c.action.hasIntegral && decide (0 < dt) then
    integral - (unlimited - y) / (c.k * c.ni) * dt
  else integral

/-- One evaluation; at the first one only the proportional action counts. -/
def step (c : Config α) (now : α) (s : State α) (d : Input α) : α × State α :=
  let error := c.error d
  match s.last with
  | none => (c.limit (c.k * error), { s with error := error, last := some now })
  | some last =>
    let dt := now - last
    let integral := c.integral s error dt
    let slope := c.slope s error dt
    let unlimited := c.unlimited error integral slope
    let y := c.limit unlimited
    (y, ⟨c.unwound integral unlimited y dt, error, slope, some now⟩)

/-- The memory before the first evaluation. -/
def initial (c : Config α) : State α := ⟨c.integralStart, 0, c.slopeStart, none⟩

/-- The controller. -/
def block (c : Config α) : Except (Fault α) (Block α (Input α) (State α) α) :=
  c.check.map fun _ => .timed "PID" (initial c) (step c)

end ControlBlocks.Pid
