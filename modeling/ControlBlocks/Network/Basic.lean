import ControlBlocks.Block.Component
import ControlBlocks.Network.Model

/-!
# Networks

Named components, each fed from the outputs of the others, evaluated in order.

* `Snapshot.recall` — the memory of a component, from a snapshot;
* `Wiring` — where an input comes from; `Wiring.read`;
* `Network` — nodes and their latest outputs; `Network.step`, `snapshot`, `restore`, `reset`;
* `Network.model` — a network as a model.

A node that comes earlier in the order is seen with its output of the same step, a later one with
that of the step before.
-/

set_option autoImplicit false

namespace ControlBlocks

/-- The memory of a component under a name. -/
def Snapshot.recall {α : Type} (s : Snapshot α) (name : String) (component : Component α) :
    Except (Failure α) component.State :=
  match s.find? name with
  | none => .error (.missingBlockState name)
  | some d =>
    match component.regain? d with
    | none => .error .malformed
    | some memory => .ok memory

/-- Where an input comes from: fixed data, the latest output of a node or one field of it, or
several of these put together. -/
inductive Wiring (α : Type) where
  | fixed (d : Datum α)
  | output (node : String)
  | field (node key : String)
  | list (items : List (Wiring α))
  | record (fields : List (String × Wiring α))

instance (α : Type) : Inhabited (Wiring α) := ⟨.fixed .null⟩

namespace Wiring

variable {α : Type}

mutual

/-- The data that a wiring gives with the latest outputs; `null` from a node without any. -/
def read (latest : List (String × Datum α)) : Wiring α → Datum α
  | .fixed d => d
  | .output node => (latest.lookup node).getD .null
  | .field node key => ((latest.lookup node).bind (·.get? key)).getD .null
  | .list items => .list (readItems latest items)
  | .record fields => .record (readFields latest fields)

/-- Each item of a list read. -/
def readItems (latest : List (String × Datum α)) : List (Wiring α) → List (Datum α)
  | [] => []
  | w :: rest => read latest w :: readItems latest rest

/-- Each entry of a record read. -/
def readFields (latest : List (String × Datum α)) :
    List (String × Wiring α) → List (String × Datum α)
  | [] => []
  | (k, w) :: rest => (k, read latest w) :: readFields latest rest

end

end Wiring

/-- A named component with its wiring; `present` is how its output goes onto the wire. -/
structure Node (α : Type) where
  name : String
  running : Component.Running α
  wiring : Wiring α
  present : Datum α → Datum α

/-- Nodes in the order of evaluation, and the latest output of each. -/
structure Network (α : Type) where
  nodes : List (Node α)
  latest : List (String × Datum α)

namespace Network

variable {α : Type}

/-- The fault of an input that does not fit its block. -/
def misfit (name : String) : Fault α := .configuration name "input does not fit the block"

/-- One evaluation of one node. -/
def stepNode (wall : α) (c : Clock α) (latest : List (String × Datum α)) (n : Node α) :
    Except (Fault α) (Datum α) × Node α × Clock α :=
  match n.running.compute? wall c (n.wiring.read latest) with
  | none => (.error (misfit n.name), n, c)
  | some (y, running, c) => (y.map fun y => n.present y.output, { n with running := running }, c)

/-- Evaluates nodes in order up to the first fault; those after it stay as they are. -/
def stepNodes (wall : α) :
    List (Node α) → Clock α → (latest : List (String × Datum α)) →
    Except (Fault α) Unit × Network α × Clock α
  | [], c, latest => (.ok (), ⟨[], latest⟩, c)
  | n :: rest, c, latest =>
    match stepNode wall c latest n with
    | (.error e, n, c) => (.error e, ⟨n :: rest, latest⟩, c)
    | (.ok y, n, c) =>
      let (r, net, c) := stepNodes wall rest c (insertField n.name y latest)
      (r, { net with nodes := n :: net.nodes }, c)

/-- One step: every node once.  The output is that of all nodes by name. -/
def step (wall : α) (c : Clock α) (net : Network α) :
    Except (Fault α) (Datum α) × Network α × Clock α :=
  let (r, net, c) := stepNodes wall net.nodes c net.latest
  (r.map fun _ => .record net.latest, net, c)

/-- The memories of all nodes. -/
def snapshot [Scalar α] (net : Network α) : Snapshot α :=
  net.nodes.foldl (fun s n => s.insert n.name n.running.saved) .empty

/-- The memory of one component, from a snapshot. -/
def restoreNode (s : Snapshot α) (n : Node α) : Except (Failure α) (Node α) :=
  match s.recall n.name n.running.component with
  | .error e => .error e
  | .ok memory => .ok { n with running := { n.running with state := memory } }

/-- Restores nodes in order up to the first failure; those after it stay as they are. -/
def restoreNodes (s : Snapshot α) : List (Node α) → Except (Failure α) Unit × List (Node α)
  | [] => (.ok (), [])
  | n :: rest =>
    match restoreNode s n with
    | .error e => (.error e, n :: rest)
    | .ok n =>
      let (r, rest) := restoreNodes s rest
      (r, n :: rest)

/-- The memories of a snapshot put back; the latest outputs stay. -/
def restore (s : Snapshot α) (net : Network α) : Except (Failure α) Unit × Network α :=
  let (r, nodes) := restoreNodes s net.nodes
  (r, { net with nodes := nodes })

/-- All nodes started again; the latest outputs stay. -/
def reset (wall : α) (c : Clock α) (net : Network α) : Network α × Clock α :=
  let (nodes, c) := net.nodes.foldl
    (fun (done, c) n =>
      let (running, c) := n.running.reset wall c
      (done ++ [{ n with running := running }], c))
    ([], c)
  ({ net with nodes := nodes }, c)

/-- Networks as models. -/
def model [Scalar α] : Model α (Network α) (Datum α) := ⟨step, snapshot, restore⟩

end Network

end ControlBlocks
