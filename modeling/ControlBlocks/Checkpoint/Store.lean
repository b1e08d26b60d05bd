import ControlBlocks.Calendar.Timestamp
import ControlBlocks.Checkpoint.Directory
import ControlBlocks.Json.Reader
import ControlBlocks.Json.Writer

/-!
# Checkpoints

The memory of a model and the clock, kept in a file.

* `Checkpoint.Record` — what a file holds; `Record.text`, `Record.parse?` — its text;
* `Checkpoint.save`, `load`, `restore` — the operations on a directory.

A restore that fails puts back the memory that was there before.
-/

set_option autoImplicit false

namespace ControlBlocks

namespace Checkpoint

universe u

/-- What a checkpoint file holds; `createdAt` is a time stamp. -/
structure Record where
  createdAt : String
  clock : Clock Float
  blocks : Snapshot Float
  metadata : Datum Float

namespace Record

/-- The text of a checkpoint file. -/
def text (r : Record) : String :=
  Json.pretty (.record [("created_at", .text r.createdAt), ("time", toDatum r.clock),
    ("blocks", toDatum r.blocks), ("metadata", r.metadata.sorted)])

/-- The names of the fields of a checkpoint file. -/
def fieldNames : List String := ["created_at", "time", "blocks", "metadata"]

/-- What is read of a checkpoint file; other entries of it and of its clock are skipped. -/
def shape : Json.Shape :=
  .fields [("created_at", .whole), ("time", .fields (Clock.fieldNames.map fun n => (n, .whole))),
    ("blocks", .whole), ("metadata", .whole)]

/-- The record that a document holds; the metadata may be missing. -/
def ofDatum? (d : Datum Float) : Option Record := do
  let [createdAt, clock, blocks, metadata] ← d.leadingMembers fieldNames | none
  let createdAt ← required createdAt
  let _ ← Calendar.Timestamp.parse? createdAt
  let clock ← required clock
  let blocks ← required blocks
  return ⟨createdAt, clock, blocks, (metadata.getD .null).sorted⟩

/-- The record in the text of a file. -/
def parse? (s : String) : Option Record := (Json.parseShape? shape s).bind ofDatum?

end Record

variable {σ : Type u} {ο : Type}

/-- Saves a model and the clock under the next number; gives the name of the new file. -/
def save (m : Model Float σ ο) (d : Directory) (createdAt : String) (s : σ) (c : Clock Float)
    (metadata : Datum Float) : Except (Failure Float) (String × Directory) :=
  let name := fileName d.nextIndex
  (d.write name (Record.text ⟨createdAt, c, m.snapshot s, metadata⟩)).map fun d => (name, d)

/-- The record in a file. -/
def load (d : Directory) (path : String) : Except (Failure Float) Record :=
  match d.read path with
  | .error e => .error e
  | .ok text =>
    match Record.parse? text with
    | some r => .ok r
    | none => .error .malformed

/-- Restores a model and the clock from a file; gives the metadata.  Where the model refuses the
snapshot its memory before the call is put back and the clock stays. -/
def restore (m : Model Float σ ο) (d : Directory) (path : String) (s : σ) (c : Clock Float) :
    Except (Failure Float) (Datum Float) × σ × Clock Float :=
  match load d path with
  | .error e => (.error e, s, c)
  | .ok r =>
    let previous := m.snapshot s
    match m.restore r.blocks s with
    | (.ok (), s) => (.ok r.metadata, s, c.apply (.ofClock r.clock))
    | (.error e, s) =>
      match m.restore previous s with
      | (.ok (), s) => (.error e, s, c)
      | (.error e, s) => (.error e, s, c)

end Checkpoint

end ControlBlocks
