import ControlBlocks.Decimal.Shortest

/-!
# Faults

Why a block cannot be built or evaluated.

* `Fault` — the causes; `Fault.message` — their wording;
* `requireFinite`, `requirePositive`, `requireNonNegative` — the checks of single parameters.
-/

set_option autoImplicit false

namespace ControlBlocks

/-- What goes wrong with a block. -/
inductive Fault (α : Type) where
  /-- Parameters that do not fit together, found when the block is built. -/
  | configuration (block what : String)
  /-- A block that needs the time was evaluated without a clock. -/
  | missingClock (block : String)
  /-- An input outside the domain of a block. -/
  | domain (block what : String) (value : α)
  /-- A parameter that has to be finite is not. -/
  | nonFinite (what : String) (value : α)
  deriving DecidableEq, Repr

namespace Fault

variable {α : Type}

/-- True of the faults that parameters cause. -/
def isConfiguration : Fault α → Bool
  | .configuration _ _ => true
  | _ => false

/-- Reals in messages are written positionally, without a trailing `.0`. -/
def numbers : Layout := ⟨.up, none, false⟩

/-- The wording of a fault. -/
def message : Fault Float → String
  | .configuration block what => "Invalid configuration for " ++ block ++ ": " ++ what
  | .missingClock block => block ++ " requires a TimeManager for time-dependent operations"
  | .domain block what value =>
    "Domain error in " ++ block ++ ": " ++ what ++ " (u=" ++ numbers.write value ++ ")"
  | .nonFinite what value =>
    "Non-finite numeric value for " ++ what ++ ": " ++ numbers.write value

end Fault

section Checks

variable {α : Type} [Scalar α]

/-- A parameter that has to be finite. -/
def requireFinite (value : α) (what : String) : Except (Fault α) α :=
  if Scalar.isFinite value then .ok value else .error (.nonFinite what value)

/-- A parameter that has to be above zero. -/
def requirePositive (value : α) (block what : String) : Except (Fault α) α :=
  if 0 < value then .ok value else .error (.configuration block what)

/-- A parameter that must not be below zero. -/
def requireNonNegative (value : α) (block what : String) : Except (Fault α) α :=
  if 0 ≤ value then .ok value else .error (.configuration block what)

end Checks

end ControlBlocks
