import ControlBlocks.Block.Basic

/-!
# Timers

How long a truth value has been true.

* `Timer.block` — for how long without a break;
* `Timer.accumulating` — for how long in all, until it is reset.

`passed` tells that the elapsed time has reached a threshold.
-/

set_option autoImplicit false

namespace ControlBlocks.Timer

variable {α : Type}

/-- Elapsed seconds, and whether they reach the threshold. -/
structure Output (α : Type) where
  elapsed : α
  passed : Bool
  deriving DecidableEq, Repr

instance : ToDatum α (Output α) where
  toDatum y := .record [("y", toDatum y.elapsed), ("passed", toDatum y.passed)]

/-- When the input became true, if it is, and whether the threshold was reached. -/
structure State (α : Type) where
  since : Option α
  passed : Bool
  deriving DecidableEq, Repr

instance : ToDatum α (State α) where
  toDatum s := .record [("entry_time", toDatum s.since), ("passed", toDatum s.passed)]

instance [Scalar α] : OfDatum α (State α) where
  ofDatum? d := do
    let [since, passed] ← d.members ["entry_time", "passed"] | none
    return ⟨← optional since, ← required passed⟩

variable [Scalar α]

/-- The memory before the first evaluation. -/
def initial (threshold : α) : State α := ⟨none, threshold ≤ 0⟩

/-- One evaluation: the time since the input became true. -/
def step (threshold now : α) (s : State α) (u : Bool) : Output α × State α :=
  if u then
    let (since, before) :=
      match s.since with
      | some since => (since, s.passed)
      | none => (now, decide (threshold ≤ 0))
    let elapsed := now - since
    let passed := before || decide (threshold ≤ elapsed)
    (⟨elapsed, passed⟩, ⟨some since, passed⟩)
  else (⟨0, false⟩, ⟨none, false⟩)

/-- For how long the input has been true without a break. -/
def block (threshold : α) : Except (Fault α) (Block α Bool (State α) (Output α)) :=
  (requireFinite threshold "Timer threshold").map fun threshold =>
    .timed "Timer" (initial threshold) (step threshold)

namespace Accumulating

structure Input where
  u : Bool
  /-- Back to zero for as long as it is true. -/
  reset : Bool
  deriving DecidableEq, Repr

instance : OfDatum α Input where
  ofDatum? d := do
    let [u, reset] ← d.members ["u", "reset"] | none
    return ⟨← required u, ← required reset⟩

/-- The total, the last evaluation with a true input if the one before was such, and whether the
threshold was reached. -/
structure State (α : Type) where
  total : α
  since : Option α
  passed : Bool
  deriving DecidableEq, Repr

instance : ToDatum α (State α) where
  toDatum s := .record [("accumulated", toDatum s.total), ("entry_time", toDatum s.since),
    ("passed", toDatum s.passed)]

instance : OfDatum α (State α) where
  ofDatum? d := do
    let [total, since, passed] ← d.members ["accumulated", "entry_time", "passed"] | none
    return ⟨← required total, ← optional since, ← required passed⟩

/-- The memory at the start and after a reset. -/
def initial (threshold : α) : State α := ⟨0, none, threshold ≤ 0⟩

/-- The new memory: the time between two evaluations counts if the input is true at both. -/
def next (threshold now : α) (s : State α) (d : Input) : State α :=
  if d.reset then initial threshold
  else if d.u then
    let total :=
      match s.since with
      | some since => s.total + (now - since)
      | none => s.total
    ⟨total, some now, s.passed || decide (threshold ≤ total)⟩
  else { s with since := none }

/-- One evaluation. -/
def step (threshold now : α) (s : State α) (d : Input) : Output α × State α :=
  let s := next threshold now s d
  (⟨s.total, s.passed⟩, s)

end Accumulating

/-- For how long the input has been true since the last reset. -/
def accumulating (threshold : α) :
    Except (Fault α) (Block α Accumulating.Input (Accumulating.State α) (Output α)) :=
  (requireFinite threshold "TimerAccumulating threshold").map fun threshold =>
    .timed "TimerAccumulating" (Accumulating.initial threshold) (Accumulating.step threshold)

end ControlBlocks.Timer
