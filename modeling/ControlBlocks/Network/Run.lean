import ControlBlocks.Network.Model

/-!
# Runs

A model driven with a fixed step up to an end time.

* `Run.Options` — step, end, and limits; `Options.check` — whether they make sense;
* `Run.withHook` — a run that does something after each step; `Run.plain` — one that does not.

The record holds every `recordEvery`-th step, and the last one in any case.
-/

set_option autoImplicit false

namespace ControlBlocks.Run

universe u

structure Options (α : Type) where
  /-- The step in seconds. -/
  dt : α
  /-- The time at which the run ends. -/
  tEnd : α
  maxSteps : Nat
  recordEvery : Nat

/-- Steps of a second for a minute, all of them recorded. -/
def Options.standard {α : Type} [Scalar α] : Options α := ⟨1, 60.0, 100000, 1⟩

/-- A finite step above zero, an end above zero, and positive counts. -/
def Options.check {α : Type} [Scalar α] (o : Options α) : Except (Failure α) Unit :=
  if ¬ (Scalar.isFinite o.dt ∧ 0 < o.dt) then .error (.invalidArgument "dt must be positive")
  else if ¬ 0 < o.tEnd then .error (.invalidArgument "t_end must be positive")
  else if o.maxSteps = 0 then .error (.invalidArgument "max_steps must be positive")
  else if o.recordEvery = 0 then .error (.invalidArgument "record_every must be positive")
  else .ok ()

/-- Everything that a run changes: the memory of the model, the clock, and what the hook keeps. -/
structure Scene (α : Type) (σ : Type u) (η : Type) where
  model : σ
  clock : Clock α
  store : η

/-- What is done after a step, given its number; the clock has been advanced by then. -/
abbrev Hook (α : Type) (σ : Type u) (η : Type) :=
  Nat → Scene α σ η → Except (Failure α) Unit × Scene α σ η

/-- Times and outputs, the last one first, and the last step if it has not been recorded. -/
structure Trace (α ο : Type) where
  recorded : List (α × ο)
  pending : Option (α × ο)

namespace Trace

variable {α ο : Type}

/-- The trace of no steps. -/
def empty : Trace α ο := ⟨[], none⟩

/-- The trace with one more step. -/
def add (every step : Nat) (entry : α × ο) (t : Trace α ο) : Trace α ο :=
  if step % every = 0 then ⟨entry :: t.recorded, none⟩ else { t with pending := some entry }

/-- The recorded steps and the last one, in order. -/
def finish (t : Trace α ο) : List (α × ο) :=
  match t.pending with
  | some entry => (entry :: t.recorded).reverse
  | none => t.recorded.reverse

end Trace

variable {α ο η : Type} {σ : Type u} [Scalar α]

/-- At most `remaining` steps, until the end time is reached. -/
def steps (m : Model α σ ο) (hook : Hook α σ η) (o : Options α) (wall : α) :
    (remaining step : Nat) → Trace α ο → Scene α σ η →
    Except (Failure α) (List (α × ο)) × Scene α σ η
  | 0, _, trace, scene => (.ok trace.finish, { scene with clock := scene.clock.look wall })
  | remaining + 1, step, trace, scene =>
    let clock := scene.clock.look wall
    if clock.time < o.tEnd - Scalar.timeTolerance then
      match m.step wall clock scene.model with
      | (.error e, model, after) =>
        (.error (.block e), { scene with model := model, clock := after })
      | (.ok y, model, after) =>
        let trace := trace.add o.recordEvery step (clock.time, y)
        match after.advance wall (some o.dt) with
        | .error e => (.error (.block e), { scene with model := model, clock := after })
        | .ok after =>
          match hook step { scene with model := model, clock := after } with
          | (.error e, scene) => (.error e, scene)
          | (.ok (), scene) => steps m hook o wall remaining (step + 1) trace scene
    else (.ok trace.finish, { scene with clock := clock })

/-- A run that calls `hook` after each step. -/
def withHook (m : Model α σ ο) (hook : Hook α σ η) (o : Options α) (wall : α)
    (scene : Scene α σ η) : Except (Failure α) (List (α × ο)) × Scene α σ η :=
  match o.check with
  | .error e => (.error e, scene)
  | .ok () => steps m hook o wall o.maxSteps 0 .empty scene

/-- A run that does nothing after its steps. -/
def plain (m : Model α σ ο) (o : Options α) (wall : α) (scene : Scene α σ Unit) :
    Except (Failure α) (List (α × ο)) × Scene α σ Unit :=
  withHook m (fun _ scene => (.ok (), scene)) o wall scene

end ControlBlocks.Run
