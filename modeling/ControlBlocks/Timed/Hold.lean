import ControlBlocks.Block.Basic

/-!
# Delays and holds

* `OnDelay.block` — a truth value that becomes true late;
* `DwellHold.block` — a truth value that stays true, or false, for a least time.
-/

set_option autoImplicit false

namespace ControlBlocks

namespace OnDelay

variable {α : Type}

/-- The output, the last input, and when a rise that is under way comes through. -/
structure State (α : Type) where
  y : Bool
  u : Bool
  due : Option α
  deriving DecidableEq, Repr

instance : ToDatum α (State α) where
  toDatum s := .record [("y", toDatum s.y), ("pre_u", toDatum s.u), ("fire_time", toDatum s.due)]

instance [Scalar α] : OfDatum α (State α) where
  ofDatum? d := do
    let [y, u, due] ← d.members ["y", "pre_u", "fire_time"] | none
    return ⟨← required y, ← required u, ← optional due⟩

/-- The memory before the first evaluation: the input counts as false. -/
def initial : State α := ⟨false, false, none⟩

variable [Scalar α]

/-- The new output and the time at which a rise comes through. -/
def next (delay now : α) (s : State α) (u : Bool) : Bool × Option α :=
  if u then
    if rising s.u u then
      if 0 < delay then (false, some (now + delay)) else (true, none)
    else
      match s.due with
      | some due => if due ≤ now then (true, none) else (s.y, some due)
      | none => (true, none)
  else (false, none)

/-- One evaluation. -/
def step (delay now : α) (s : State α) (u : Bool) : Bool × State α :=
  let (y, due) := next delay now s u
  (y, ⟨y, u, due⟩)

/-- A rising input comes through after `delay` seconds, a falling one at once; falling cancels a
rise that is under way. -/
def block (delay : α) : Except (Fault α) (Block α Bool (State α) Bool) :=
  (requireFinite delay "TrueDelay delayTime").map fun delay =>
    .timed "TrueDelay" initial (step delay)

end OnDelay

namespace DwellHold

variable {α : Type}

/-- The output and the time of its last change, if there was an evaluation. -/
structure State (α : Type) where
  y : Bool
  since : Option α
  deriving DecidableEq, Repr

instance : ToDatum α (State α) where
  toDatum s := .record [("y", toDatum s.y), ("entry_time", toDatum s.since)]

instance [Scalar α] : OfDatum α (State α) where
  ofDatum? d := do
    let [y, since] ← d.members ["y", "entry_time"] | none
    return ⟨← required y, ← optional since⟩

/-- The memory before the first evaluation. -/
def initial : State α := ⟨false, none⟩

variable [Scalar α]

/-- One evaluation: the output follows the input once it has dwelt long enough. -/
def step (whileTrue whileFalse now : α) (s : State α) (u : Bool) : Bool × State α :=
  match s.since with
  | none => (u, ⟨u, some now⟩)
  | some since =>
    let least := if s.y then whileTrue else whileFalse
    if u != s.y && decide (least ≤ now - since) then (u, ⟨u, some now⟩) else (s.y, s)

/-- The output stays true for at least `whileTrue` seconds and false for at least `whileFalse`. -/
def block (whileTrue whileFalse : α) : Except (Fault α) (Block α Bool (State α) Bool) := do
  let whileTrue ←
    requireNonNegative whileTrue "TrueFalseHold" "trueHoldDuration must be >= 0"
  let whileFalse ←
    requireNonNegative whileFalse "TrueFalseHold" "falseHoldDuration must be >= 0"
  return .timed "TrueFalseHold" initial (step whileTrue whileFalse)

end DwellHold

end ControlBlocks
