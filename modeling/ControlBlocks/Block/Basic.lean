import ControlBlocks.Clock

/-!
# Blocks

A block takes an input and the time, and gives an output and a new memory.

* `Block α ι σ ο` — a block with inputs `ι`, memory `σ` and outputs `ο` over reals `α`;
* `Block.memoryless`, `total`, `sequential`, `automaton`, `timed`, `source` — the ways to
  build one;
* `Block.startOn`, `Block.evalOn` — a block at work on a clock, or detached from any;
* `rising`, `falling` — the edges of a truth value.

A block never changes: resetting it is starting it again, and an evaluation that fails gives no new
memory, so the old one stands.
-/

set_option autoImplicit false

namespace ControlBlocks

/-- When a block looks at the clock. -/
inductive ClockUse where
  | never
  /-- On every evaluation. -/
  | onEvaluation
  /-- On every evaluation, and when it starts. -/
  | always
  deriving DecidableEq, Repr

/-- A block: its name in messages, when it looks at the clock, the memory it starts with and one
evaluation.  Without a clock the time is `none`. -/
structure Block (α ι σ ο : Type) where
  name : String
  clockUse : ClockUse
  start : Option α → σ
  step : Option α → σ → ι → Except (Fault α) (ο × σ)
  /-- What an output gives cause to warn of. -/
  warnings : ο → List String := fun _ => []

namespace Block

variable {α ι σ ο : Type}

/-- A block whose output depends on its input alone. -/
def memoryless (name : String) (f : ι → Except (Fault α) ο) : Block α ι Unit ο where
  name := name
  clockUse := .never
  start := fun _ => ()
  step := fun _ s u => (f u).map fun y => (y, s)

/-- A memoryless block that never fails. -/
def total (name : String) (f : ι → ο) : Block α ι Unit ο :=
  memoryless name fun u => .ok (f u)

/-- A block with memory that does not depend on the time. -/
def sequential (name : String) (start : σ) (f : σ → ι → Except (Fault α) (ο × σ)) :
    Block α ι σ ο where
  name := name
  clockUse := .never
  start := fun _ => start
  step := fun _ s u => f s u

/-- A block with memory that depends neither on the time nor ever fails. -/
def automaton (name : String) (start : σ) (f : σ → ι → ο × σ) : Block α ι σ ο :=
  sequential name start fun s u => .ok (f s u)

/-- A block with memory whose evaluation depends on the time; detached it fails. -/
def timed (name : String) (start : σ) (f : α → σ → ι → ο × σ) : Block α ι σ ο where
  name := name
  clockUse := .onEvaluation
  start := fun _ => start
  step := fun now s u =>
    match now with
    | some t => .ok (f t s u)
    | none => .error (.missingClock name)

/-- A block whose output depends on the time alone; detached it fails. -/
def source (name : String) (f : α → Except (Fault α) ο) : Block α Unit Unit ο where
  name := name
  clockUse := .onEvaluation
  start := fun _ => ()
  step := fun now s _ =>
    match now with
    | some t => (f t).map fun y => (y, s)
    | none => .error (.missingClock name)

/-- The time that a block sees and the clock after it has looked; a detached block sees none. -/
def seen (attached looks : Bool) (wall : α) (c : Clock α) : Option α × Clock α :=
  if attached && looks then
    let c := c.look wall
    (some c.time, c)
  else (none, c)

/-- The memory that a block starts with on a clock, and the clock after that. -/
def startOn (b : Block α ι σ ο) (attached : Bool) (wall : α) (c : Clock α) : σ × Clock α :=
  let (now, c) := seen attached (b.clockUse = .always) wall c
  (b.start now, c)

/-- One evaluation on a clock, and the clock after that. -/
def evalOn (b : Block α ι σ ο) (attached : Bool) (wall : α) (c : Clock α) (s : σ) (u : ι) :
    Except (Fault α) (ο × σ) × Clock α :=
  let (now, c) := seen attached (b.clockUse ≠ .never) wall c
  (b.step now s u, c)

end Block

/-- True where a truth value goes from false to true. -/
def rising (before now : Bool) : Bool := now && !before

/-- True where a truth value goes from true to false. -/
def falling (before now : Bool) : Bool := before && !now

end ControlBlocks
