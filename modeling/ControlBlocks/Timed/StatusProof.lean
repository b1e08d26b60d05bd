import ControlBlocks.Block.Basic

/-!
# Proof of a command

Whether the status of a device follows its command, and whether it is stuck.

* `StatusProof.step` — one evaluation; `StatusProof.block` — the block.
-/

set_option autoImplicit false

namespace ControlBlocks.StatusProof

variable {α : Type}

structure Input where
  /-- The measured status. -/
  status : Bool
  /-- The command. -/
  setpoint : Bool
  deriving DecidableEq, Repr

instance : OfDatum α Input where
  ofDatum? d := do
    let [status, setpoint] ← d.members ["u", "u_set"] | none
    return ⟨← required status, ← required setpoint⟩

structure Output where
  /-- The status follows the command, or the command changed a short while ago. -/
  proven : Bool
  /-- The status has been true for long. -/
  stuckOn : Bool
  /-- The status has been false for long. -/
  stuckOff : Bool
  deriving DecidableEq, Repr

instance : ToDatum α Output where
  toDatum y := .record [("y_test", toDatum y.proven), ("y_loc_on", toDatum y.stuckOn),
    ("y_loc_off", toDatum y.stuckOff)]

/-- The last status and command, when the command changed, and when the status last became true
and false. -/
structure State (α : Type) where
  status : Option Bool
  setpoint : Bool
  commandedAt : α
  onSince : Option α
  offSince : Option α
  deriving DecidableEq, Repr

instance : ToDatum α (State α) where
  toDatum s := .record [("pre_u", toDatum s.status), ("pre_u_set", toDatum s.setpoint),
    ("setpoint_change_time", toDatum s.commandedAt), ("became_true_time", toDatum s.onSince),
    ("became_false_time", toDatum s.offSince)]

instance [Scalar α] : OfDatum α (State α) where
  ofDatum? d := do
    let [status, setpoint, commandedAt, onSince, offSince] ← d.members
      ["pre_u", "pre_u_set", "setpoint_change_time", "became_true_time", "became_false_time"]
      | none
    return ⟨← optional status, ← required setpoint, ← required commandedAt, ← optional onSince,
      ← optional offSince⟩

variable [Scalar α]

/-- The memory before the first evaluation. -/
def initial : State α := ⟨none, false, 0, none, none⟩

/-- The memory after an evaluation: the first one counts as a change of status and command. -/
def next (now : α) (s : State α) (d : Input) : State α :=
  let isFirst := s.status.isNone
  let before := s.status.getD false
  let becameTrue := d.status && (isFirst || !before)
  let becameFalse := !d.status && (isFirst || before)
  { status := some d.status
    setpoint := d.setpoint
    commandedAt := if isFirst || d.setpoint != s.setpoint then now else s.commandedAt
    onSince := if becameTrue then some now else s.onSince
    offSince := if becameFalse then some now else s.offSince }

/-- Whether at least `least` seconds have gone by since a time, if there is one. -/
def lasted (least now : α) (since : Option α) : Bool :=
  match since with
  | some t => decide (least ≤ now - t)
  | none => false

/-- One evaluation: `testDelay` seconds of grace after a change of command, `stuckDelay` seconds
until a status counts as stuck. -/
def step (testDelay stuckDelay now : α) (s : State α) (d : Input) : Output × State α :=
  let s := next now s d
  let graced := decide (now - s.commandedAt < testDelay)
  (⟨graced || d.status == d.setpoint,
    d.status && lasted stuckDelay now s.onSince,
    !d.status && lasted stuckDelay now s.offSince⟩, s)

/-- Proof that a status follows a command. -/
def block (testDelay stuckDelay : α) : Except (Fault α) (Block α Input (State α) Output) := do
  let testDelay ← requireNonNegative testDelay "Proof" "delTes must be >= 0"
  let stuckDelay ← requireNonNegative stuckDelay "Proof" "delTim must be >= 0"
  return .timed "Proof" initial (step testDelay stuckDelay)

/-- The delays of a proof that names none, in seconds: three minutes and one hour. -/
def defaultDelays : α × α := (180.0, 3600.0)

end ControlBlocks.StatusProof
