import ControlBlocks.Clock

/-!
# Models

What a run drives and a checkpoint keeps: something that makes one step at a time and whose memory
can be saved and restored.

* `Snapshot` — the memories of named blocks as data;
* `Failure` — why a run or a restore stops; `Failure.message` — its wording;
* `Model α σ ο` — steps, snapshots and restores on memories `σ` with outputs `ο`.
-/

set_option autoImplicit false

namespace ControlBlocks

universe u

/-- Why a run, or something done with a checkpoint, stops. -/
inductive Failure (α : Type) where
  /-- An option of a run that makes no sense. -/
  | invalidArgument (what : String)
  /-- A fault of a block. -/
  | block (fault : Fault α)
  /-- A file that cannot be read or written. -/
  | storage
  /-- A file or a memory that cannot be understood. -/
  | malformed
  /-- No file at a path. -/
  | checkpointNotFound (path : String)
  /-- A snapshot without the memory of a block. -/
  | missingBlockState (name : String)
  deriving DecidableEq, Repr

/-- The wording of a failure. -/
def Failure.message : Failure Float → String
  | .invalidArgument what => "Invalid argument: " ++ what
  | .block fault => fault.message
  | .storage => "I/O error"
  | .malformed => "JSON error"
  | .checkpointNotFound path => "Checkpoint not found: " ++ path
  | .missingBlockState name => "Checkpoint has no state for block '" ++ name ++ "'"

/-- The memories of blocks by name, in the order of the names. -/
structure Snapshot (α : Type) where
  blocks : List (String × Datum α)

namespace Snapshot

variable {α : Type}

/-- The snapshot of no blocks. -/
def empty : Snapshot α := ⟨[]⟩

/-- A memory under a name; an earlier one of that name is replaced. -/
def insert (s : Snapshot α) (name : String) (memory : Datum α) : Snapshot α :=
  ⟨insertField name memory s.blocks⟩

/-- The memory under a name. -/
def find? (s : Snapshot α) (name : String) : Option (Datum α) := s.blocks.lookup name

/-- A memory is there under a name. -/
def contains (s : Snapshot α) (name : String) : Bool := (s.find? name).isSome

/-- The names, in order. -/
def names (s : Snapshot α) : List String := s.blocks.map (·.1)

/-- How many memories there are. -/
def size (s : Snapshot α) : Nat := s.blocks.length

instance : ToDatum α (Snapshot α) := ⟨fun s => .record s.blocks⟩

instance : OfDatum α (Snapshot α) where
  ofDatum?
    | .record fields => some ⟨Datum.sortedFields [] fields⟩
    | _ => none

end Snapshot

/-- A model with memories `σ` and outputs `ο`.  `wall` is the time of day; a step may look at the
clock, and keeps what happened before a fault. -/
structure Model (α : Type) (σ : Type u) (ο : Type) where
  step : (wall : α) → Clock α → σ → Except (Fault α) ο × σ × Clock α
  snapshot : σ → Snapshot α
  restore : Snapshot α → σ → Except (Failure α) Unit × σ

end ControlBlocks
