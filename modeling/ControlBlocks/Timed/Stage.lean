import ControlBlocks.Block.Basic

/-!
# Staging

A demand between zero and one turned into a number of stages.  The thresholds `k / n` split the
unit interval; without band and hold the stage is the number of thresholds below the demand.  A
change has to cross the next threshold by a band, and comes no sooner than a hold after the last.

* `Stage.Config` — the parameters; `Stage.Settings` — the same after they were checked;
* `Stage.rawStage` — the stage without band and hold;
* `Stage.block` — the block.
-/

set_option autoImplicit false

namespace ControlBlocks.Stage

variable {α : Type}

structure Config (α : Type) where
  /-- The number of stages. -/
  count : Int
  /-- The least time between changes, in seconds. -/
  hold : α
  /-- The band around the thresholds; a fiftieth of a stage if not given. -/
  band : Option α
  /-- The stage at the start. -/
  start : Int

/-- One stage, no hold. -/
def Config.standard [Scalar α] : Config α := ⟨1, 0, none, 0⟩

structure Settings (α : Type) where
  count : Int
  hold : α
  band : α
  start : Int

/-- The stage, and the time from which it may change; without a clock at the start none is
known, and it may change at once. -/
structure State (α : Type) where
  y : Int
  changeFrom : Option α
  deriving DecidableEq, Repr

instance : ToDatum α (State α) where
  toDatum s := .record [("y", toDatum s.y), ("next_change_time", toDatum s.changeFrom)]

instance [Scalar α] : OfDatum α (State α) where
  ofDatum? d := do
    let [y, changeFrom] ← d.members ["y", "next_change_time"] | none
    return ⟨← required y, ← optional changeFrom⟩

variable [Scalar α]

/-- The parameters checked, with the band filled in. -/
def Config.check (c : Config α) : Except (Fault α) (Settings α) :=
  if c.count < 1 then .error (.configuration "Stage" "n must be >= 1")
  else if c.start < 0 ∨ c.count < c.start then
    .error (.configuration "Stage" "pre_y_start must be in [0, n]")
  else do
    let hold ← requireNonNegative c.hold "Stage" "holdDuration must be >= 0"
    let band ← requireNonNegative (c.band.getD (0.02 / (c.count : α))) "Stage" "h must be >= 0"
    return ⟨c.count, hold, band, c.start⟩

/-- The threshold below stage `k + 1` of `n`. -/
def threshold (n k : Int) : α := (k : α) / (n : α)

/-- The stage of a demand without band and hold: the number of thresholds below it. -/
def rawStage (n : Int) (u : α) : Int :=
  (List.range n.toNat).countP fun (k : Nat) => decide (threshold n k < u)

/-- The demand asks for a higher stage. -/
def wantsUp (p : Settings α) (y : Int) (u : α) : Bool :=
  decide (y < p.count) && decide (threshold p.count y + p.band < u)

/-- The demand asks for a lower stage. -/
def wantsDown (p : Settings α) (y : Int) (u : α) : Bool :=
  decide (0 < y) && decide (u ≤ Scalar.larger (threshold p.count (y - 1) - p.band) 0)

/-- The hold since the last change is over. -/
def mayChange (now : α) (s : State α) : Bool :=
  match s.changeFrom with
  | some t => decide (t ≤ now)
  | none => true

/-- One evaluation. -/
def step (p : Settings α) (now : α) (s : State α) (u : α) : Int × State α :=
  if mayChange now s && (wantsUp p s.y u || wantsDown p s.y u) then
    let y := rawStage p.count u
    if y ≠ s.y then (y, ⟨y, some (now + p.hold)⟩) else (s.y, s)
  else (s.y, s)

/-- The memory at the start: a hold begins. -/
def initial (p : Settings α) (now : Option α) : State α := ⟨p.start, now.map (· + p.hold)⟩

/-- The block of checked parameters. -/
def ofSettings (p : Settings α) : Block α α (State α) Int :=
  { Block.timed "Stage" (initial p none) (step p) with
    clockUse := .always
    start := initial p }

/-- The number of stages that a demand asks for. -/
def block (c : Config α) : Except (Fault α) (Block α α (State α) Int) := c.check.map ofSettings

end ControlBlocks.Stage
