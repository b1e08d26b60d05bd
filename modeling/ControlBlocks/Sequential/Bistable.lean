import ControlBlocks.Block.Basic

/-!
# Bistables, counters and comparators

* `Bistable.latch` — set by a rising input, cleared by a level;
* `Bistable.toggle` — turned over by a rising input, cleared by a level;
* `Counter.block` — counts rising edges, reset by a level;
* `Comparator.relay` — on, and off again only past a band: the rule that all comparators share;
* `Comparator.hysteresis`, `greater`, `less`, `greaterThreshold`, `lessThreshold` — reals compared
  with one another or with a constant.

Clearing wins over setting.  The output of a comparator goes on where the strict comparison holds,
and stays on while the comparison relaxed by the band holds.
-/

set_option autoImplicit false

namespace ControlBlocks

/-! ## Bistables and counters -/

namespace Bistable

variable {α : Type}

structure Input where
  u : Bool
  clear : Bool
  deriving DecidableEq, Repr

instance : OfDatum α Input where
  ofDatum? d := do
    let [u, clear] ← d.members ["u", "clr"] | none
    return ⟨← required u, ← required clear⟩

/-- The output and the inputs of the last evaluation. -/
structure State where
  y : Bool
  u : Bool
  clear : Bool
  deriving DecidableEq, Repr

instance : ToDatum α State where
  toDatum s := .record [("y", toDatum s.y), ("pre_u", toDatum s.u), ("pre_clr", toDatum s.clear)]

instance : OfDatum α State where
  ofDatum? d := do
    let [y, u, clear] ← d.members ["y", "pre_u", "pre_clr"] | none
    return ⟨← required y, ← required u, ← required clear⟩

/-- One evaluation; `turn` gives the new output where the input rises. -/
def step (turn : Bool → Bool) (s : State) (d : Input) : Bool × State :=
  let y := if d.clear then false else if rising s.u d.u then turn s.y else s.y
  (y, ⟨y, d.u, d.clear⟩)

/-- The memory before the first evaluation. -/
def initial : State := ⟨false, false, false⟩

/-- True from a rising input on, false while it is cleared. -/
def latch : Block α Input State Bool := .automaton "Latch" initial (step fun _ => true)

/-- Turned over by each rising input, false while it is cleared. -/
def toggle : Block α Input State Bool := .automaton "Toggle" initial (step fun y => !y)

end Bistable

namespace Counter

variable {α : Type}

structure Input where
  trigger : Bool
  reset : Bool
  deriving DecidableEq, Repr

instance : OfDatum α Input where
  ofDatum? d := do
    let [trigger, reset] ← d.members ["trigger", "reset"] | none
    return ⟨← required trigger, ← required reset⟩

/-- The count and the trigger of the last evaluation. -/
structure State where
  count : Int
  trigger : Bool
  deriving DecidableEq, Repr

instance : ToDatum α State where
  toDatum s := .record [("y", toDatum s.count), ("pre_trigger", toDatum s.trigger)]

instance : OfDatum α State where
  ofDatum? d := do
    let [count, trigger] ← d.members ["y", "pre_trigger"] | none
    return ⟨← required count, ← required trigger⟩

/-- One evaluation: back to the start while reset, one more on a rising trigger. -/
def step [Scalar α] (start : Int) (s : State) (d : Input) : Except (Fault α) (Int × State) :=
  if d.reset then .ok (start, ⟨start, d.trigger⟩)
  else if rising s.trigger d.trigger then
    if InInt64 (s.count + 1) then .ok (s.count + 1, ⟨s.count + 1, d.trigger⟩)
    else .error (.domain "OnCounter" "count overflow" (s.count : α))
  else .ok (s.count, ⟨s.count, d.trigger⟩)

/-- Counts the rising edges of a trigger, from a start value. -/
def block [Scalar α] (start : Int) : Block α Input State Int :=
  .sequential "OnCounter" ⟨start, false⟩ (step start)

end Counter

/-! ## Comparators -/

namespace Comparator

variable {α : Type}

/-- The last output. -/
structure State where
  y : Bool
  deriving DecidableEq, Repr

instance : ToDatum α State where
  toDatum s := .record [("y", toDatum s.y)]

instance : OfDatum α State where
  ofDatum? d := do
    let [y] ← d.members ["y"] | none
    return ⟨← required y⟩

/-- The next output of a relay that is off or on. -/
def next (y switchesOn staysOn : Bool) : Bool := (!y && switchesOn) || (y && staysOn)

/-- A relay: switched on where `on` holds of the input, kept on while `stay` does. -/
def relay {ι : Type} (name : String) (start : Bool) (on stay : ι → Bool) : Block α ι State Bool :=
  .automaton name ⟨start⟩ fun s u =>
    let y := next s.y (on u) (stay u)
    (y, ⟨y⟩)

variable [Scalar α]

/-- On above `high`, off below `low`. -/
def hysteresis (low high : α) (start : Bool) : Except (Fault α) (Block α α State Bool) :=
  if high ≤ low then .error (.configuration "Hysteresis" "uHigh must be larger than uLow")
  else .ok (relay "Hysteresis" start (fun u => high < u) (fun u => low ≤ u))

/-- On where the first input is greater, by up to the band less to stay on. -/
def greater (band : α) (start : Bool) : Except (Fault α) (Block α (α × α) State Bool) :=
  (requireNonNegative band "Greater" "h must be >= 0").map fun band =>
    relay "Greater" start (fun (u₁, u₂) => u₂ < u₁) (fun (u₁, u₂) => u₂ - band < u₁)

/-- On where the first input is less, by up to the band more to stay on. -/
def less (band : α) (start : Bool) : Except (Fault α) (Block α (α × α) State Bool) :=
  (requireNonNegative band "Less" "h must be >= 0").map fun band =>
    relay "Less" start (fun (u₁, u₂) => u₁ < u₂) (fun (u₁, u₂) => u₁ < u₂ + band)

/-- On where the input is greater than a constant. -/
def greaterThreshold (t band : α) (start : Bool) : Except (Fault α) (Block α α State Bool) :=
  (requireNonNegative band "GreaterThreshold" "h must be >= 0").map fun band =>
    relay "GreaterThreshold" start (fun u => t < u) (fun u => t - band < u)

/-- On where the input is less than a constant. -/
def lessThreshold (t band : α) (start : Bool) : Except (Fault α) (Block α α State Bool) :=
  (requireNonNegative band "LessThreshold" "h must be >= 0").map fun band =>
    relay "LessThreshold" start (fun u => u < t) (fun u => u < t + band)

end Comparator

end ControlBlocks
