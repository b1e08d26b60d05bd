import ControlBlocks.Block.Basic

/-!
# Edges

Detectors that compare the input with that of the evaluation before.  Before the first evaluation
the input counts as a start value.

* `Edges.edge`, `fallingEdge`, `change`, `previous` — of a truth value;
* `Edges.integerChange` — of an integer, with its direction;
* `Edges.unitDelay` — a real signal one evaluation late.
-/

set_option autoImplicit false

namespace ControlBlocks.Edges

variable {α : Type}

/-- The input of the last evaluation. -/
structure Last (τ : Type) where
  input : τ
  deriving DecidableEq, Repr

instance (τ : Type) [ToDatum α τ] : ToDatum α (Last τ) where
  toDatum s := .record [("pre_u", toDatum s.input)]

instance (τ : Type) [OfDatum α τ] : OfDatum α (Last τ) where
  ofDatum? d := do
    let [input] ← d.members ["pre_u"] | none
    return ⟨← required input⟩

/-- A detector: its output is a function of the last input and the present one. -/
def detector {τ ο : Type} (name : String) (start : τ) (f : τ → τ → ο) : Block α τ (Last τ) ο :=
  .automaton name ⟨start⟩ fun s u => (f s.input u, ⟨u⟩)

/-- True where the input becomes true. -/
def edge (start : Bool) : Block α Bool (Last Bool) Bool := detector "Edge" start rising

/-- True where the input becomes false. -/
def fallingEdge (start : Bool) : Block α Bool (Last Bool) Bool :=
  detector "FallingEdge" start falling

/-- True where the input changes. -/
def change (start : Bool) : Block α Bool (Last Bool) Bool :=
  detector "Change" start fun before u => u != before

/-- The input of the evaluation before. -/
def previous (start : Bool) : Block α Bool (Last Bool) Bool :=
  detector "Pre" start fun before _ => before

/-- How an integer moved. -/
structure Movement where
  changed : Bool
  up : Bool
  down : Bool
  deriving DecidableEq, Repr

instance : ToDatum α Movement where
  toDatum m := .record
    [("y", toDatum m.changed), ("up", toDatum m.up), ("down", toDatum m.down)]

/-- The movement from one integer to another. -/
def movement (before u : Int) : Movement :=
  ⟨decide (u ≠ before), decide (before < u), decide (u < before)⟩

/-- The movement of an integer signal. -/
def integerChange (start : Int) : Block α Int (Last Int) Movement :=
  detector "IntegerChange" start movement

/-- The memory of a delay by one evaluation. -/
structure Delayed (α : Type) where
  input : α
  /-- No evaluation yet. -/
  isFirst : Bool
  deriving DecidableEq, Repr

instance : ToDatum α (Delayed α) where
  toDatum s := .record [("pre_u", toDatum s.input), ("first_call", toDatum s.isFirst)]

instance [Scalar α] : OfDatum α (Delayed α) where
  ofDatum? d := do
    let [input, isFirst] ← d.members ["pre_u", "first_call"] | none
    return ⟨← required input, ← required isFirst⟩

/-- The input of the evaluation before, and a start value at the first. -/
def unitDelay (start : α) : Block α α (Delayed α) α :=
  .automaton "UnitDelay" ⟨start, true⟩ fun s u =>
    (if s.isFirst then start else s.input, ⟨u, false⟩)

end ControlBlocks.Edges
