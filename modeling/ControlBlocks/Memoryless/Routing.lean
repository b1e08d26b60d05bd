import ControlBlocks.Block.Basic

/-!
# Routing

Vectors of signals of any type picked from, repeated and filtered.  Positions count from one and
are kept within the vector; a vector of another length than announced is a fault.

* `Routing.extractor`, `Routing.extractSignal` — one entry of a vector;
* `Routing.scalarReplicator`, `Routing.vectorReplicator` — repetition;
* `Routing.vectorFilter` — the entries that a mask lets through.
-/

set_option autoImplicit false

namespace ControlBlocks.Routing

variable {α τ : Type}

/-- A count that has to be positive. -/
def requireCount (block : String) (n : Nat) (what : String) : Except (Fault α) Unit :=
  if n = 0 then .error (.configuration block what) else .ok ()

/-- The fault of a vector of the wrong length. -/
def wrongLength [Scalar α] (block : String) (u : List τ) : Fault α :=
  .domain block "input length must equal nin" ((u.length : Int) : α)

/-- A position kept within `1 .. nin`, counted from zero. -/
def position (nin : Nat) (index : Int) : Nat :=
  ((if index < 1 then 1 else if (nin : Int) < index then (nin : Int) else index) - 1).toNat

/-- The entry of a vector of `nin` entries at a position within it. -/
def entry [Scalar α] (block : String) (nin : Nat) (index : Int) (u : List τ) :
    Except (Fault α) τ :=
  match if u.length = nin then u[position nin index]? else none with
  | some y => .ok y
  | none => .error (wrongLength block u)

/-- A vector and the position of interest in it. -/
structure Extractor.Input (τ : Type) where
  u : List τ
  index : Int

/-- The entry at a position that is an input. -/
def extractor (τ : Type) [Scalar α] (nin : Nat) :
    Except (Fault α) (Block α (Extractor.Input τ) Unit τ) :=
  (requireCount "Extractor" nin "nin must be >= 1").map fun _ =>
    .memoryless "Extractor" fun d => entry "Extractor" nin d.index d.u

instance [OfDatum α τ] [Scalar α] : OfDatum α (Extractor.Input τ) where
  ofDatum? d := do
    let [u, index] ← d.members ["u", "index"] | none
    return ⟨← required u, ← required index⟩

/-- The entry at a fixed position. -/
def extractSignal (τ : Type) [Scalar α] (nin : Nat) (index : Int) :
    Except (Fault α) (Block α (List τ) Unit τ) :=
  (requireCount "ExtractSignal" nin "nin must be >= 1").map fun _ =>
    .memoryless "ExtractSignal" fun u => entry "ExtractSignal" nin index u

/-- One signal, `nout` times. -/
def scalarReplicator (τ : Type) (nout : Nat) : Except (Fault α) (Block α τ Unit (List τ)) :=
  (requireCount "ScalarReplicator" nout "nout must be >= 1").map fun _ =>
    .total "ScalarReplicator" fun u => List.replicate nout u

/-- A vector of `nin` entries, `nrep` times in a row. -/
def vectorReplicator (τ : Type) [Scalar α] (nin nrep : Nat) :
    Except (Fault α) (Block α (List τ) Unit (List τ)) := do
  requireCount "VectorReplicator" nin "nin must be >= 1"
  requireCount "VectorReplicator" nrep "nrep must be >= 1"
  return .memoryless "VectorReplicator" fun u =>
    if u.length = nin then .ok (List.replicate nrep u).flatten
    else .error (wrongLength "VectorReplicator" u)

/-- The mask of a filter: the given one, or one that lets everything through. -/
def maskOf (nin : Nat) (mask : Option (List Bool)) : List Bool :=
  mask.getD (List.replicate nin true)

/-- The entries of `u` where the mask is true. -/
def filtered (mask : List Bool) (u : List τ) : List τ :=
  (u.zip mask).filterMap fun (x, keep) => if keep then some x else none

/-- The entries that a mask lets through, `nout` of them. -/
def vectorFilter (τ : Type) [Scalar α] (nin nout : Nat) (mask : Option (List Bool)) :
    Except (Fault α) (Block α (List τ) Unit (List τ)) := do
  requireCount "VectorFilter" nin "nin must be >= 1"
  let mask := maskOf nin mask
  if mask.length ≠ nin then
    .error (.configuration "VectorFilter" "mask length must equal nin")
  else if mask.count true ≠ nout then
    .error (.configuration "VectorFilter" "nout must equal the number of true mask entries")
  else
    return .memoryless "VectorFilter" fun u =>
      if u.length = mask.length then .ok (filtered mask u)
      else .error (wrongLength "VectorFilter" u)

end ControlBlocks.Routing
