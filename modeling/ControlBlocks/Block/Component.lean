import ControlBlocks.Block.Basic

/-!
# Components

* `Component` — a block of any type whose input, memory and output can be written as data;
* `Component.keep`, `regain?` — a memory as data, and back;
* `Component.Running` — a component with its memory, at work on a clock;
* `Running.compute`, `reset`, `saved`, `load?` — evaluation, reset, and the memory as data.
-/

set_option autoImplicit false

namespace ControlBlocks

/-- A block of any type, with the data forms of what goes in, comes out and is remembered. -/
structure Component (α : Type) where
  {Input State Output : Type}
  block : Block α Input State Output
  [readInput : OfDatum α Input]
  [readState : OfDatum α State]
  [writeState : ToDatum α State]
  [writeOutput : ToDatum α Output]

/-- The component of a block that could be built. -/
def Component.ofBuilt {α Input State Output : Type} [OfDatum α Input] [OfDatum α State]
    [ToDatum α State] [ToDatum α Output] :
    Except (Fault α) (Block α Input State Output) → Except (Fault α) (Component α)
  | .ok b => .ok ⟨b⟩
  | .error e => .error e

namespace Component

variable {α : Type}

/-- A memory of the component in the form in which it is kept. -/
def keep [Scalar α] (component : Component α) (s : component.State) : Datum α :=
  (component.writeState.toDatum s).stored.sorted

/-- A memory of the component, from data; `none` for data that are no such memory. -/
def regain? (component : Component α) (d : Datum α) : Option component.State :=
  component.readState.ofDatum? d

end Component

/-- A component with its memory; detached it sees no clock. -/
structure Component.Running (α : Type) where
  component : Component α
  attached : Bool
  state : component.State

/-- What an evaluation gave: the output and the warnings. -/
structure Answer (α : Type) where
  output : Datum α
  warnings : List String

namespace Component.Running

variable {α : Type}

/-- A component as it starts on a clock, and the clock after that. -/
def start (component : Component α) (attached : Bool) (wall : α) (c : Clock α) :
    Running α × Clock α :=
  let (s, c) := component.block.startOn attached wall c
  (⟨component, attached, s⟩, c)

/-- The component started again. -/
def reset (r : Running α) (wall : α) (c : Clock α) : Running α × Clock α :=
  start r.component r.attached wall c

/-- One evaluation on an input of the component's type. -/
def evaluate (r : Running α) (wall : α) (c : Clock α) (u : r.component.Input) :
    Except (Fault α) (r.component.Output) × Running α × Clock α :=
  match r.component.block.evalOn r.attached wall c r.state u with
  | (.ok (y, s), c) => (.ok y, { r with state := s }, c)
  | (.error e, c) => (.error e, r, c)

/-- One evaluation on data; `none` for data that are no input of the component. -/
def compute? (r : Running α) (wall : α) (c : Clock α) (d : Datum α) :
    Option (Except (Fault α) (Answer α) × Running α × Clock α) :=
  let readInput := r.component.readInput
  let writeOutput := r.component.writeOutput
  match readInput.ofDatum? d with
  | none => none
  | some u =>
    let (y, r', c) := r.evaluate wall c u
    some (y.map fun y => ⟨writeOutput.toDatum y, r.component.block.warnings y⟩, r', c)

/-- The memory in the form in which it is kept. -/
def saved [Scalar α] (r : Running α) : Datum α := r.component.keep r.state

/-- The component with a memory read from data; `none` for data that are no such memory. -/
def load? (r : Running α) (d : Datum α) : Option (Running α) :=
  (r.component.regain? d).map fun s => { r with state := s }

end Component.Running

end ControlBlocks
