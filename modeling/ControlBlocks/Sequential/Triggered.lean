import ControlBlocks.Block.Basic

/-!
# Triggered blocks

Blocks that start over, or sample their input, where a trigger rises.

* `Triggered.max` — the greatest input since the last rise;
* `Triggered.mean` — the mean of the inputs since the last rise;
* `Triggered.sampler` — the input at the last rise.
-/

set_option autoImplicit false

namespace ControlBlocks.Triggered

variable {α : Type}

structure Input (α : Type) where
  u : α
  trigger : Bool
  deriving DecidableEq, Repr

instance [Scalar α] : OfDatum α (Input α) where
  ofDatum? d := do
    let [u, trigger] ← d.members ["u", "trigger"] | none
    return ⟨← required u, ← required trigger⟩

/-- The greatest input so far, if there was one, and the last trigger. -/
structure Greatest (α : Type) where
  value : Option α
  trigger : Bool
  deriving DecidableEq, Repr

instance : ToDatum α (Greatest α) where
  toDatum s := .record [("max", toDatum s.value), ("pre_trigger", toDatum s.trigger)]

instance [Scalar α] : OfDatum α (Greatest α) where
  ofDatum? d := do
    let [value, trigger] ← d.members ["max", "pre_trigger"] | none
    return ⟨← optional value, ← required trigger⟩

/-- The sum and the number of inputs, and the last trigger. -/
structure Total (α : Type) where
  sum : α
  count : Nat
  trigger : Bool
  deriving DecidableEq, Repr

instance : ToDatum α (Total α) where
  toDatum s := .record
    [("sum", toDatum s.sum), ("count", toDatum s.count), ("pre_trigger", toDatum s.trigger)]

instance [Scalar α] : OfDatum α (Total α) where
  ofDatum? d := do
    let [sum, count, trigger] ← d.members ["sum", "count", "pre_trigger"] | none
    return ⟨← required sum, ← required count, ← required trigger⟩

/-- The sampled input and the last trigger. -/
structure Sample (α : Type) where
  value : α
  trigger : Bool
  deriving DecidableEq, Repr

instance : ToDatum α (Sample α) where
  toDatum s := .record [("value", toDatum s.value), ("pre_trigger", toDatum s.trigger)]

instance [Scalar α] : OfDatum α (Sample α) where
  ofDatum? d := do
    let [value, trigger] ← d.members ["value", "pre_trigger"] | none
    return ⟨← required value, ← required trigger⟩

variable [Scalar α]

/-- One evaluation of the greatest input: a rise forgets the earlier ones. -/
def maxStep (s : Greatest α) (d : Input α) : α × Greatest α :=
  let y :=
    match s.value with
    | some m => if rising s.trigger d.trigger then d.u else Scalar.larger m d.u
    | none => d.u
  (y, ⟨some y, d.trigger⟩)

/-- The greatest input since the trigger last rose. -/
def max : Block α (Input α) (Greatest α) α := .automaton "TriggeredMax" ⟨none, false⟩ maxStep

/-- One evaluation of the mean: a rise forgets the earlier inputs. -/
def meanStep (s : Total α) (d : Input α) : α × Total α :=
  let (sum, count) :=
    if rising s.trigger d.trigger then (d.u, 1) else (s.sum + d.u, s.count + 1)
  (sum / ((count : Int) : α), ⟨sum, count, d.trigger⟩)

/-- The mean of the inputs since the trigger last rose. -/
def mean : Block α (Input α) (Total α) α := .automaton "TriggeredMovingMean" ⟨0, 0, false⟩ meanStep

/-- One evaluation of the sampler. -/
def sampleStep (s : Sample α) (d : Input α) : α × Sample α :=
  let y := if rising s.trigger d.trigger then d.u else s.value
  (y, ⟨y, d.trigger⟩)

/-- The input where the trigger last rose, and a start value until then. -/
def sampler (start : α) : Block α (Input α) (Sample α) α :=
  .automaton "TriggeredSampler" ⟨start, false⟩ sampleStep

end ControlBlocks.Triggered
