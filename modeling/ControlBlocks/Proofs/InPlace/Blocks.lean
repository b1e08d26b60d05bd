import ControlBlocks.Proofs.InPlace.Basic
import ControlBlocks.Sequential.Bistable
import ControlBlocks.Timed.Timer
import ControlBlocks.Timed.Hold
import ControlBlocks.Timed.StatusProof
import ControlBlocks.Timed.Sampling
import ControlBlocks.Timed.Stage
import ControlBlocks.Timed.Dynamics
import ControlBlocks.Timed.Pid
import ControlBlocks.Source.Wave

/-!
# The blocks that can fail, in place

The blocks that look at the clock, and the counter.  For each of them, in its own namespace:

* `inPlace` — one evaluation, which stores field by field; `performs_inPlace` — it comes to the
  output and the memory of `step`;
* `procedure` — the evaluation behind a look at the clock, and the record that a reset stores;
* `carries_procedure` — the procedure does what the block does.

Fields are stored one at a time, so that what a failure in between would leave behind can be seen.
-/

set_option autoImplicit false

namespace ControlBlocks

variable {α : Type} [Scalar α]

namespace Counter

/-- The only evaluation that can fail after it has begun. -/
def inPlace (start : Int) (d : Input) : Program α State Int := do
  if d.reset then
    modify fun s => { s with count := start }
  else if rising (← get).trigger d.trigger then
    let count := (← get).count
    -- the range is checked before the count is stored, and the trigger is stored last
    if InInt64 (count + 1) then
      modify fun s => { s with count := count + 1 }
    else
      throw (.domain "OnCounter" "count overflow" (count : α))
  modify fun s => { s with trigger := d.trigger }
  return (← get).count

def procedure (start : Int) : Procedure α Input State Int where
  evaluate _ := inPlace start
  reset _ := set (⟨start, false⟩ : State)

theorem carries_procedure (start : Int) :
    (procedure (α := α) start).Carries (block start) where
  evaluate := by
    rintro time ⟨trigger, reset⟩ ⟨count, before⟩
    simp only [procedure, inPlace, block, Block.sequential, step]
    cases reset with
    | true => simp
    | false =>
      cases hrise : rising before trigger with
      | false => simp [hrise]
      | true => by_cases hfits : InInt64 (count + 1) <;> simp [hrise, hfits]
  reset := fun _ _ => rfl

end Counter

namespace Timer

def inPlace (threshold now : α) (u : Bool) : Program α (State α) (Output α) := do
  if !u then
    modify fun s => { s with since := none }
    modify fun s => { s with passed := false }
    return ⟨0, false⟩
  let since ←
    match (← get).since with
    | some since => pure since
    | none =>
      modify fun s => { s with since := some now }
      modify fun s => { s with passed := threshold ≤ 0 }
      pure now
  let elapsed := now - since
  if threshold ≤ elapsed then
    modify fun s => { s with passed := true }
  return ⟨elapsed, (← get).passed⟩

theorem performs_inPlace (threshold now : α) (u : Bool) :
    (inPlace threshold now u).Performs (step threshold now · u) := by
  rintro ⟨since, passed⟩
  simp only [inPlace, step]
  cases u with
  | false => simp
  | true =>
    cases since with
    | none => by_cases h : threshold ≤ now - now <;> simp [h]
    | some since => by_cases h : threshold ≤ now - since <;> simp [h]

def procedure (threshold : α) : Procedure α Bool (State α) (Output α) :=
  .timed "Timer" ⟨none, threshold ≤ 0⟩ (inPlace threshold)

theorem carries_procedure (threshold : α) :
    (procedure threshold).Carries (.timed "Timer" (initial threshold) (step threshold)) :=
  Procedure.carries_timed (performs_inPlace threshold)

namespace Accumulating

def inPlace (threshold now : α) (d : Input) : Program α (State α) (Output α) := do
  if d.reset then
    modify fun s => { s with total := 0 }
    modify fun s => { s with since := none }
    modify fun s => { s with passed := threshold ≤ 0 }
  else if d.u then
    if let some since := (← get).since then
      modify fun s => { s with total := s.total + (now - since) }
    modify fun s => { s with since := some now }
    if threshold ≤ (← get).total then
      modify fun s => { s with passed := true }
  else
    modify fun s => { s with since := none }
  return ⟨(← get).total, (← get).passed⟩

theorem performs_inPlace (threshold now : α) (d : Input) :
    (inPlace threshold now d).Performs (step threshold now · d) := by
  rintro ⟨total, since, passed⟩
  obtain ⟨u, reset⟩ := d
  simp only [inPlace, step, next, initial]
  cases reset with
  | true => simp
  | false =>
    cases u with
    | false => simp
    | true =>
      cases since with
      | none => by_cases h : threshold ≤ total <;> simp [h]
      | some since => by_cases h : threshold ≤ total + (now - since) <;> simp [h]

def procedure (threshold : α) : Procedure α Input (State α) (Output α) :=
  .timed "TimerAccumulating" ⟨0, none, threshold ≤ 0⟩ (inPlace threshold)

theorem carries_procedure (threshold : α) :
    (procedure threshold).Carries
      (.timed "TimerAccumulating" (initial threshold) (step threshold)) :=
  Procedure.carries_timed (performs_inPlace threshold)

end Accumulating

end Timer

namespace OnDelay

def inPlace (delay now : α) (u : Bool) : Program α (State α) Bool := do
  if !u then
    modify fun s => { s with y := false }
    modify fun s => { s with due := none }
  else if rising (← get).u u then
    if 0 < delay then
      modify fun s => { s with due := some (now + delay) }
      modify fun s => { s with y := false }
    else
      modify fun s => { s with y := true }
      modify fun s => { s with due := none }
  else if let some due := (← get).due then
    if due ≤ now then
      modify fun s => { s with y := true }
      modify fun s => { s with due := none }
  else
    modify fun s => { s with y := true }
  modify fun s => { s with u := u }
  return (← get).y

theorem performs_inPlace (delay now : α) (u : Bool) :
    (inPlace delay now u).Performs (step delay now · u) := by
  rintro ⟨y, before, due⟩
  simp only [inPlace, step, next]
  cases u with
  | false => simp
  | true =>
    cases before with
    | false => by_cases h : 0 < delay <;> simp [rising, h]
    | true =>
      cases due with
      | none => simp [rising]
      | some due => by_cases h : due ≤ now <;> simp [rising, h]

def procedure (delay : α) : Procedure α Bool (State α) Bool :=
  .timed "TrueDelay" ⟨false, false, none⟩ (inPlace delay)

theorem carries_procedure (delay : α) :
    (procedure delay).Carries (.timed "TrueDelay" initial (step delay)) :=
  Procedure.carries_timed (performs_inPlace delay)

end OnDelay

namespace DwellHold

def inPlace (whileTrue whileFalse now : α) (u : Bool) : Program α (State α) Bool := do
  let some since := (← get).since
    | modify fun s => { s with y := u }
      modify fun s => { s with since := some now }
      return u
  if u != (← get).y then
    let least := if (← get).y then whileTrue else whileFalse
    if least ≤ now - since then
      modify fun s => { s with y := u }
      modify fun s => { s with since := some now }
  return (← get).y

theorem performs_inPlace (whileTrue whileFalse now : α) (u : Bool) :
    (inPlace whileTrue whileFalse now u).Performs (step whileTrue whileFalse now · u) := by
  rintro ⟨y, since⟩
  simp only [inPlace, step]
  cases since with
  | none => simp
  | some since =>
    by_cases hu : u = y
    · simp [hu]
    · by_cases h : (if y = true then whileTrue else whileFalse) ≤ now - since <;> simp [hu, h]

def procedure (whileTrue whileFalse : α) : Procedure α Bool (State α) Bool :=
  .timed "TrueFalseHold" ⟨false, none⟩ (inPlace whileTrue whileFalse)

theorem carries_procedure (whileTrue whileFalse : α) :
    (procedure whileTrue whileFalse).Carries
      (.timed "TrueFalseHold" initial (step whileTrue whileFalse)) :=
  Procedure.carries_timed (performs_inPlace whileTrue whileFalse)

end DwellHold

namespace StatusProof

def inPlace (testDelay stuckDelay now : α) (d : Input) : Program α (State α) Output := do
  match (← get).status with
  | none =>
    modify fun s => { s with setpoint := d.setpoint }
    modify fun s => { s with commandedAt := now }
    if d.status then
      modify fun s => { s with onSince := some now }
    else
      modify fun s => { s with offSince := some now }
  | some before =>
    if d.status && !before then
      modify fun s => { s with onSince := some now }
    else if !d.status && before then
      modify fun s => { s with offSince := some now }
  modify fun s => { s with status := some d.status }
  if d.setpoint != (← get).setpoint then
    modify fun s => { s with commandedAt := now }
    modify fun s => { s with setpoint := d.setpoint }
  let s ← get
  let graced := decide (now - s.commandedAt < testDelay)
  return ⟨graced || d.status == d.setpoint, d.status && lasted stuckDelay now s.onSince,
    !d.status && lasted stuckDelay now s.offSince⟩

theorem performs_inPlace (testDelay stuckDelay now : α) (d : Input) :
    (inPlace testDelay stuckDelay now d).Performs (step testDelay stuckDelay now · d) := by
  rintro ⟨status, setpoint, commandedAt, onSince, offSince⟩
  obtain ⟨u, command⟩ := d
  simp only [inPlace, step, next]
  cases status with
  | none => cases u <;> simp
  | some before =>
    by_cases hcommand : command = setpoint
    · cases u <;> cases before <;> simp [hcommand]
    · cases u <;> cases before <;> simp [hcommand]

def procedure (testDelay stuckDelay : α) : Procedure α Input (State α) Output :=
  .timed "Proof" ⟨none, false, 0, none, none⟩ (inPlace testDelay stuckDelay)

theorem carries_procedure (testDelay stuckDelay : α) :
    (procedure testDelay stuckDelay).Carries (.timed "Proof" initial (step testDelay stuckDelay)) :=
  Procedure.carries_timed (performs_inPlace testDelay stuckDelay)

end StatusProof

namespace VariablePulse

def inPlace (period now u : α) : Program α (State α) Bool := do
  if (← get).next ≤ now then
    -- no evaluation sees the instants in between
    modify fun s => { s with next := catchUp period s.next now }
    let began := (← get).next - period
    modify fun s => { s with width := Scalar.clamp 0 period u }
    modify fun s => { s with ends := began + s.width }
    modify fun s => { s with active := true }
  if (← get).active && decide ((← get).ends ≤ now) then
    modify fun s => { s with active := false }
  return (← get).active

theorem performs_inPlace (period now u : α) :
    (inPlace period now u).Performs (step period now · u) := by
  rintro ⟨active, ends, next, width⟩
  simp only [inPlace, step, begin]
  by_cases hnext : next ≤ now
  · by_cases h : catchUp period next now - period + Scalar.clamp 0 period u ≤ now <;>
      simp [hnext, h]
  · cases active with
    | false => simp [hnext]
    | true => by_cases h : ends ≤ now <;> simp [hnext, h]

def procedure (period : α) : Procedure α α (State α) Bool :=
  .timed "VariablePulse" ⟨false, 0, period, 0⟩ (inPlace period)

theorem carries_procedure (period : α) :
    (procedure period).Carries (.timed "VariablePulse" (initial period) (step period)) :=
  Procedure.carries_timed (performs_inPlace period)

end VariablePulse

namespace Stage

def inPlace (p : Settings α) (now u : α) : Program α (State α) Int := do
  let y := (← get).y
  if mayChange now (← get) && (wantsUp p y u || wantsDown p y u) then
    let next := rawStage p.count u
    if next ≠ y then
      modify fun s => { s with y := next }
      modify fun s => { s with changeFrom := some (now + p.hold) }
  return (← get).y

theorem performs_inPlace (p : Settings α) (now u : α) :
    (inPlace p now u).Performs (step p now · u) := by
  intro s
  simp only [inPlace, step]
  by_cases hchange : mayChange now s = true ∧
      (wantsUp p s.y u = true ∨ wantsDown p s.y u = true)
  · by_cases h : rawStage p.count u = s.y <;> simp [hchange, h]
  · simp [hchange]

/-- The reset looks at the clock as well, if there is one. -/
def procedure (p : Settings α) : Procedure α α (State α) Int where
  evaluate := Program.afterClock "Stage" (inPlace p)
  reset time := set (⟨p.start, time.map (· + p.hold)⟩ : State α)

theorem carries_procedure (p : Settings α) : (procedure p).Carries (ofSettings p) where
  evaluate :=
    have timed : Procedure.Carries _ (.timed "Stage" (initial p none) (step p)) :=
      Procedure.carries_timed (performs_inPlace p)
    timed.evaluate
  reset := fun _ _ => rfl

end Stage

namespace Sampling

namespace Sampler

def inPlace (now u : α) : Program α (State α) α := do
  let (due, clock) := (← get).clock.tick now
  modify fun s => { s with clock := clock }
  if due || !(← get).started then
    modify fun s => { s with value := u }
    modify fun s => { s with started := true }
  return (← get).value

theorem performs_inPlace (now u : α) : (inPlace now u).Performs (step now · u) := by
  rintro ⟨clock, value, started⟩
  simp only [inPlace, step]
  cases hdue : (clock.tick now).1 <;> cases started <;> simp [hdue]

def procedure (g : Grid α) : Procedure α α (State α) α :=
  .timed "Sampler" ⟨⟨g.period, g.start⟩, 0, false⟩ inPlace

theorem carries_procedure (g : Grid α) :
    (procedure g).Carries (.timed "Sampler" ⟨g.clock, 0, false⟩ step) :=
  Procedure.carries_timed performs_inPlace

end Sampler

namespace ZeroOrderHold

def inPlace (now u : α) : Program α (State α) α := do
  let (due, clock) := (← get).clock.tick now
  modify fun s => { s with clock := clock }
  if due then
    modify fun s => { s with held := some u }
  return (← get).held.getD u

theorem performs_inPlace (now u : α) : (inPlace now u).Performs (step now · u) := by
  rintro ⟨clock, held⟩
  simp only [inPlace, step]
  cases hdue : (clock.tick now).1 <;> simp [hdue]

def procedure (g : Grid α) : Procedure α α (State α) α :=
  .timed "ZeroOrderHold" ⟨⟨g.period, g.start⟩, none⟩ inPlace

theorem carries_procedure (g : Grid α) :
    (procedure g).Carries (.timed "ZeroOrderHold" ⟨g.clock, none⟩ step) :=
  Procedure.carries_timed performs_inPlace

end ZeroOrderHold

namespace FirstOrderHold

def inPlace (period now u : α) : Program α (State α) α := do
  let (due, clock) := (← get).clock.tick now
  modify fun s => { s with clock := clock }
  if due then
    if (← get).current.isSome then
      modify fun s => { s with previous := s.current }
    modify fun s => { s with current := some u }
    modify fun s => { s with sampledAt := now }
  return value period now (← get) u

theorem performs_inPlace (period now u : α) :
    (inPlace period now u).Performs (step period now · u) := by
  rintro ⟨clock, current, previous, sampledAt⟩
  simp only [inPlace, step, next]
  cases hdue : (clock.tick now).1 <;> cases current <;> simp [hdue]

def procedure (g : Grid α) : Procedure α α (State α) α :=
  .timed "FirstOrderHold" ⟨⟨g.period, g.start⟩, none, none, g.start⟩ (inPlace g.period)

theorem carries_procedure (g : Grid α) :
    (procedure g).Carries
      (.timed "FirstOrderHold" ⟨g.clock, none, none, g.start⟩ (step g.period)) :=
  Procedure.carries_timed (performs_inPlace g.period)

end FirstOrderHold

end Sampling

namespace SampleTrigger

def inPlace (period shift now : α) (_ : Unit) : Program α (State α) Bool := do
  let fresh := isFresh (← get) now
  let trigger := isInstant period shift now && fresh
  if trigger then
    modify fun s => { s with last := some now }
  return trigger

theorem performs_inPlace (period shift now : α) (u : Unit) :
    (inPlace period shift now u).Performs (step period shift now · u) := by
  intro s
  simp only [inPlace, step]
  cases isInstant period shift now with
  | false => simp
  | true => cases hfresh : isFresh s now <;> simp [hfresh]

def procedure (period shift : α) : Procedure α Unit (State α) Bool :=
  .timed "SampleTrigger" ⟨none⟩ (inPlace period shift)

theorem carries_procedure (period shift : α) :
    (procedure period shift).Carries (.timed "SampleTrigger" ⟨none⟩ (step period shift)) :=
  Procedure.carries_timed (performs_inPlace period shift)

end SampleTrigger

namespace Integrator

def inPlace (k now : α) (d : Input α) : Program α (State α) α := do
  if rising (← get).trigger d.trigger then
    modify fun s => { s with y := d.resetTo }
  else if let some last := (← get).last then
    let dt := now - last
    if 0 < dt then
      modify fun s => { s with y := s.y + k * d.u * dt }
  modify fun s => { s with last := some now }
  modify fun s => { s with trigger := d.trigger }
  return (← get).y

theorem performs_inPlace (k now : α) (d : Input α) :
    (inPlace k now d).Performs (step k now · d) := by
  rintro ⟨y, last, trigger⟩
  simp only [inPlace, step, value]
  cases hrise : rising trigger d.trigger with
  | true => simp [hrise]
  | false =>
    cases last with
    | none => simp [hrise]
    | some last => by_cases h : 0 < now - last <;> simp [hrise, h]

def procedure (k start : α) : Procedure α (Input α) (State α) α :=
  .timed "IntegratorWithReset" ⟨start, none, false⟩ (inPlace k)

theorem carries_procedure (k start : α) :
    (procedure k start).Carries (.timed "IntegratorWithReset" ⟨start, none, false⟩ (step k)) :=
  Procedure.carries_timed (performs_inPlace k)

end Integrator

namespace Derivative

def inPlace (limit start now u : α) : Program α (State α) α := do
  match (← get).last with
  | none => modify fun s => { s with y := start }
  | some (before, last) =>
    let dt := now - last
    if 0 < dt then
      modify fun s => { s with y := Scalar.clamp (-limit) limit ((u - before) / dt) }
  modify fun s => { s with last := some (u, now) }
  return (← get).y

theorem performs_inPlace (limit start now u : α) :
    (inPlace limit start now u).Performs (step limit start now · u) := by
  rintro ⟨y, last⟩
  simp only [inPlace, step, value]
  cases last with
  | none => simp
  | some last => by_cases h : 0 < now - last.2 <;> simp [h]

def procedure (limit start : α) : Procedure α α (State α) α :=
  .timed "Derivative" ⟨start, none⟩ (inPlace limit start)

theorem carries_procedure (limit start : α) :
    (procedure limit start).Carries (.timed "Derivative" ⟨start, none⟩ (step limit start)) :=
  Procedure.carries_timed (performs_inPlace limit start)

end Derivative

namespace SlewRate

def inPlace (up down now u : α) : Program α (State α) α := do
  match (← get).last with
  | none => modify fun s => { s with y := u }
  | some last =>
    let dt := now - last
    if 0 < dt then
      let change := Scalar.clamp (-down * dt) (up * dt) (u - (← get).y)
      modify fun s => { s with y := s.y + change }
  modify fun s => { s with last := some now }
  return (← get).y

theorem performs_inPlace (up down now u : α) :
    (inPlace up down now u).Performs (step up down now · u) := by
  rintro ⟨y, last⟩
  simp only [inPlace, step, value]
  cases last with
  | none => simp
  | some last => by_cases h : 0 < now - last <;> simp [h]

def procedure (up down : α) : Procedure α α (State α) α :=
  .timed "LimitSlewRate" ⟨0, none⟩ (inPlace up down)

theorem carries_procedure (up down : α) :
    (procedure up down).Carries (.timed "LimitSlewRate" ⟨0, none⟩ (step up down)) :=
  Procedure.carries_timed (performs_inPlace up down)

end SlewRate

namespace MovingAverage

def inPlace (delta now u : α) : Program α (State α) α := do
  modify fun s => { s with window := s.window ++ [(now, u)] }
  modify fun s => { s with window := s.window.dropWhile fun (t, _) => decide (t < now - delta) }
  let window := (← get).window
  if window.isEmpty then
    return u
  return mean window

theorem performs_inPlace (delta now u : α) :
    (inPlace delta now u).Performs (step delta now · u) := by
  rintro ⟨window⟩
  simp only [inPlace, step, extend, List.isEmpty_iff, EStateM.run_bind, EStateM.run_modify,
    EStateM.run_get, Program.run_ite, EStateM.run_pure]
  split <;> rfl

def procedure (delta : α) : Procedure α α (State α) α :=
  .timed "MovingAverage" ⟨[]⟩ (inPlace delta)

theorem carries_procedure (delta : α) :
    (procedure delta).Carries (.timed "MovingAverage" ⟨[]⟩ (step delta)) :=
  Procedure.carries_timed (performs_inPlace delta)

end MovingAverage

namespace Pid

def inPlace (c : Config α) (now : α) (d : Input α) : Program α (State α) α := do
  let error := c.error d
  let some last := (← get).last
    | modify fun s => { s with last := some now }
      modify fun s => { s with error := error }
      return c.limit (c.k * error)
  let dt := now - last
  if c.action.hasIntegral && decide (0 < dt) then
    modify fun s => { s with integral := s.integral + error * dt }
  if c.action.hasDerivative && decide (0 < dt) then
    let quotient := (error - (← get).error) / dt
    let alpha := dt / (c.td / c.nd + dt)
    modify fun s => { s with slope := s.slope + alpha * (quotient - s.slope) }
  let unlimited := c.unlimited error (← get).integral (← get).slope
  let y := c.limit unlimited
  if y != unlimited && c.action.hasIntegral && decide (0 < dt) then
    modify fun s => { s with integral := s.integral - (unlimited - y) / (c.k * c.ni) * dt }
  modify fun s => { s with error := error }
  modify fun s => { s with last := some now }
  return y

theorem performs_inPlace (c : Config α) (now : α) (d : Input α) :
    (inPlace c now d).Performs (step c now · d) := by
  rintro ⟨integral, error, slope, last⟩
  simp only [inPlace, step, Config.integral, Config.slope, Config.unwound]
  cases last with
  | none => simp
  | some last =>
    by_cases hdt : 0 < now - last
    · cases c.action.hasIntegral with
      | false => cases c.action.hasDerivative <;> simp [hdt]
      | true =>
        -- what is left to tell apart is whether the output was limited
        cases c.action.hasDerivative <;> simp [hdt] <;> split <;> rfl
    · simp [hdt]

def procedure (c : Config α) : Procedure α (Input α) (State α) α :=
  .timed "PID" ⟨c.integralStart, 0, c.slopeStart, none⟩ (inPlace c)

theorem carries_procedure (c : Config α) :
    (procedure c).Carries (.timed "PID" (initial c) (step c)) :=
  Procedure.carries_timed (performs_inPlace c)

end Pid

end ControlBlocks
