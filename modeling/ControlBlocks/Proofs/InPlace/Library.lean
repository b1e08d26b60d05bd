import ControlBlocks.Block.Catalogue
import ControlBlocks.Proofs.Block.Built
import ControlBlocks.Proofs.InPlace.Blocks

/-!
# The library in place

* `Block.InPlace` — which procedure belongs to a block of the library;
* `Block.InPlace.carries` — it does what the block does;
* `Design.exists_inPlace` — every block that can be built has one.
-/

set_option autoImplicit false

namespace ControlBlocks

variable {α : Type}

theorem Component.ofBuilt_eq_ok_iff {ι σ ο : Type} [OfDatum α ι] [OfDatum α σ] [ToDatum α σ]
    [ToDatum α ο] {built : Except (Fault α) (Block α ι σ ο)} {c : Component α} :
    ofBuilt built = .ok c ↔ ∃ b, built = .ok b ∧ (⟨b⟩ : Component α) = c := by
  cases built with
  | error e => simp [ofBuilt]
  | ok b => simp [ofBuilt]

variable [Elementary α]

/-! ## Blocks and their procedures -/

/-- The procedure of a block of the library.  The record that a reset stores is written out here or
in the procedure, and is found again in the block as the memory it starts with. -/
inductive Block.InPlace : {ι σ ο : Type} → Block α ι σ ο → Procedure α ι σ ο → Prop
  | memoryless {ι ο : Type} (b : Block α ι Unit ο) : InPlace b (.forgetful b)
  | detector {τ ο : Type} (name : String) (start : τ) (f : τ → τ → ο) :
    InPlace (Edges.detector name start f) (.steady ⟨start⟩ fun s u => (f s.input u, ⟨u⟩))
  | unitDelay (start : α) :
    InPlace (Edges.unitDelay start)
      (.steady ⟨start, true⟩ fun s u => (if s.isFirst then start else s.input, ⟨u, false⟩))
  | latch :
    InPlace Bistable.latch (.steady ⟨false, false, false⟩ (Bistable.step fun _ => true))
  | toggle :
    InPlace Bistable.toggle (.steady ⟨false, false, false⟩ (Bistable.step fun y => !y))
  | relay {ι : Type} (name : String) (start : Bool) (on stay : ι → Bool) :
    InPlace (Comparator.relay name start on stay)
      (.steady ⟨start⟩ fun s u =>
        (Comparator.next s.y (on u) (stay u), ⟨Comparator.next s.y (on u) (stay u)⟩))
  | triggeredMax : InPlace Triggered.max (.steady ⟨none, false⟩ Triggered.maxStep)
  | triggeredMean : InPlace Triggered.mean (.steady ⟨0, 0, false⟩ Triggered.meanStep)
  | triggeredSampler (start : α) :
    InPlace (Triggered.sampler start) (.steady ⟨start, false⟩ Triggered.sampleStep)
  | counter (start : Int) : InPlace (Counter.block start) (Counter.procedure start)
  | timer (threshold : α) :
    InPlace (.timed "Timer" (Timer.initial threshold) (Timer.step threshold))
      (Timer.procedure threshold)
  | timerAccumulating (threshold : α) :
    InPlace (.timed "TimerAccumulating" (Timer.Accumulating.initial threshold)
        (Timer.Accumulating.step threshold))
      (Timer.Accumulating.procedure threshold)
  | onDelay (delay : α) :
    InPlace (.timed "TrueDelay" OnDelay.initial (OnDelay.step delay)) (OnDelay.procedure delay)
  | dwellHold (whileTrue whileFalse : α) :
    InPlace (.timed "TrueFalseHold" DwellHold.initial (DwellHold.step whileTrue whileFalse))
      (DwellHold.procedure whileTrue whileFalse)
  | statusProof (testDelay stuckDelay : α) :
    InPlace (.timed "Proof" StatusProof.initial (StatusProof.step testDelay stuckDelay))
      (StatusProof.procedure testDelay stuckDelay)
  | variablePulse (period : α) :
    InPlace (.timed "VariablePulse" (VariablePulse.initial period) (VariablePulse.step period))
      (VariablePulse.procedure period)
  | stage (p : Stage.Settings α) : InPlace (Stage.ofSettings p) (Stage.procedure p)
  | sampler (g : Sampling.Grid α) :
    InPlace (.timed "Sampler" ⟨g.clock, 0, false⟩ Sampling.Sampler.step)
      (Sampling.Sampler.procedure g)
  | zeroOrderHold (g : Sampling.Grid α) :
    InPlace (.timed "ZeroOrderHold" ⟨g.clock, none⟩ Sampling.ZeroOrderHold.step)
      (Sampling.ZeroOrderHold.procedure g)
  | firstOrderHold (g : Sampling.Grid α) :
    InPlace (.timed "FirstOrderHold" ⟨g.clock, none, none, g.start⟩
        (Sampling.FirstOrderHold.step g.period))
      (Sampling.FirstOrderHold.procedure g)
  | sampleTrigger (period shift : α) :
    InPlace (.timed "SampleTrigger" ⟨none⟩ (SampleTrigger.step period shift))
      (SampleTrigger.procedure period shift)
  | integrator (k start : α) :
    InPlace (.timed "IntegratorWithReset" ⟨start, none, false⟩ (Integrator.step k))
      (Integrator.procedure k start)
  | derivative (limit start : α) :
    InPlace (.timed "Derivative" ⟨start, none⟩ (Derivative.step limit start))
      (Derivative.procedure limit start)
  | slewRate (up down : α) :
    InPlace (.timed "LimitSlewRate" ⟨0, none⟩ (SlewRate.step up down))
      (SlewRate.procedure up down)
  | movingAverage (delta : α) :
    InPlace (.timed "MovingAverage" ⟨[]⟩ (MovingAverage.step delta))
      (MovingAverage.procedure delta)
  | pid (c : Pid.Config α) :
    InPlace (.timed "PID" (Pid.initial c) (Pid.step c)) (Pid.procedure c)

section InPlace

variable {ι σ ο : Type} {b : Block α ι σ ο} {p : Procedure α ι σ ο}

/-- Every procedure of the library does what its block does. -/
theorem Block.InPlace.carries (h : b.InPlace p) : p.Carries b := by
  cases h with
  | memoryless => exact Procedure.carries_forgetful b
  | counter start => exact Counter.carries_procedure start
  | timer threshold => exact Timer.carries_procedure threshold
  | timerAccumulating threshold => exact Timer.Accumulating.carries_procedure threshold
  | onDelay delay => exact OnDelay.carries_procedure delay
  | dwellHold whileTrue whileFalse => exact DwellHold.carries_procedure whileTrue whileFalse
  | statusProof testDelay stuckDelay =>
    exact StatusProof.carries_procedure testDelay stuckDelay
  | variablePulse period => exact VariablePulse.carries_procedure period
  | stage p => exact Stage.carries_procedure p
  | sampler g => exact Sampling.Sampler.carries_procedure g
  | zeroOrderHold g => exact Sampling.ZeroOrderHold.carries_procedure g
  | firstOrderHold g => exact Sampling.FirstOrderHold.carries_procedure g
  | sampleTrigger period shift => exact SampleTrigger.carries_procedure period shift
  | integrator k start => exact Integrator.carries_procedure k start
  | derivative limit start => exact Derivative.carries_procedure limit start
  | slewRate up down => exact SlewRate.carries_procedure up down
  | movingAverage delta => exact MovingAverage.carries_procedure delta
  | pid c => exact Pid.carries_procedure c
  | _ => exact Procedure.carries_steady _ _ _

variable [OfDatum α ι] [OfDatum α σ] [ToDatum α σ] [ToDatum α ο] {c : Component α}

theorem Component.exists_inPlace_built {built : Except (Fault α) (Block α ι σ ο)}
    (hp : b.InPlace p) (hbuilt : ∀ b', built = .ok b' → b = b') (h : ofBuilt built = .ok c) :
    ∃ p, c.block.InPlace p := by
  obtain ⟨b', hb', rfl⟩ := ofBuilt_eq_ok_iff.1 h
  obtain rfl := hbuilt b' hb'
  exact ⟨p, hp⟩

theorem Component.exists_inPlace_memoryless [OfDatum α Unit] [ToDatum α Unit]
    {built : Except (Fault α) (Block α ι Unit ο)} (h : ofBuilt built = .ok c) :
    ∃ p, c.block.InPlace p := by
  obtain ⟨b, -, rfl⟩ := ofBuilt_eq_ok_iff.1 h
  exact ⟨_, .memoryless b⟩

end InPlace

/-! ## All blocks -/

open Component (exists_inPlace_built exists_inPlace_memoryless)

/-- **Every block that can be built has its procedure.** -/
theorem Design.exists_inPlace {d : Design α} {c : Component α} (h : d.component = .ok c) :
    ∃ p, c.block.InPlace p := by
  cases d
  case switch kind => cases kind <;> (cases h; exact ⟨_, .memoryless _⟩)
  case extractor kind _ => cases kind <;> exact exists_inPlace_memoryless h
  case extractSignal kind _ _ => cases kind <;> exact exists_inPlace_memoryless h
  case scalarReplicator kind _ => cases kind <;> exact exists_inPlace_memoryless h
  case vectorReplicator kind _ _ => cases kind <;> exact exists_inPlace_memoryless h
  case vectorFilter kind _ _ _ => cases kind <;> exact exists_inPlace_memoryless h
  case edge | fallingEdge | integerChange =>
    cases h
    exact ⟨_, .detector _ _ _⟩
  case change start =>
    cases h
    exact ⟨_, .detector "Change" start fun before u => u != before⟩
  case previous start =>
    cases h
    exact ⟨_, .detector "Pre" start fun before _ => before⟩
  case unitDelay start =>
    cases h
    exact ⟨_, .unitDelay start⟩
  case latch =>
    cases h
    exact ⟨_, .latch⟩
  case toggle =>
    cases h
    exact ⟨_, .toggle⟩
  case counter start =>
    cases h
    exact ⟨_, .counter start⟩
  case triggeredMax =>
    cases h
    exact ⟨_, .triggeredMax⟩
  case triggeredMean =>
    cases h
    exact ⟨_, .triggeredMean⟩
  case triggeredSampler start =>
    cases h
    exact ⟨_, .triggeredSampler start⟩
  case hysteresis low high start =>
    obtain ⟨b, hb, rfl⟩ := Component.ofBuilt_eq_ok_iff.1 h
    rw [Comparator.hysteresis] at hb
    split at hb
    · cases hb
    · cases hb
      exact ⟨_, .relay _ _ _ _⟩
  case greater | less | greaterThreshold | lessThreshold =>
    obtain ⟨b, hb, rfl⟩ := Component.ofBuilt_eq_ok_iff.1 h
    obtain ⟨band, -, rfl⟩ := map_eq_ok_iff.1 hb
    exact ⟨_, .relay _ _ _ _⟩
  case stage config =>
    obtain ⟨b, hb, rfl⟩ := Component.ofBuilt_eq_ok_iff.1 h
    obtain ⟨p, -, rfl⟩ := Stage.block_eq_ok_iff.1 hb
    exact ⟨_, .stage p⟩
  case timer threshold =>
    exact exists_inPlace_built (.timer threshold) (fun _ hb => (Timer.block_eq_ok_iff.1 hb).2) h
  case timerAccumulating threshold =>
    exact exists_inPlace_built (.timerAccumulating threshold)
      (fun _ hb => (Timer.accumulating_eq_ok_iff.1 hb).2) h
  case onDelay delay =>
    exact exists_inPlace_built (.onDelay delay) (fun _ hb => (OnDelay.block_eq_ok_iff.1 hb).2) h
  case dwellHold whileTrue whileFalse =>
    exact exists_inPlace_built (.dwellHold whileTrue whileFalse)
      (fun _ hb => (DwellHold.block_eq_ok_iff.1 hb).2) h
  case statusProof testDelay stuckDelay =>
    exact exists_inPlace_built (.statusProof testDelay stuckDelay)
      (fun _ hb => (StatusProof.block_eq_ok_iff.1 hb).2) h
  case variablePulse period =>
    exact exists_inPlace_built (.variablePulse period)
      (fun _ hb => (VariablePulse.block_eq_ok_iff.1 hb).2) h
  case sampler g =>
    exact exists_inPlace_built (.sampler g) (fun _ hb => (Sampling.sampler_eq_ok_iff.1 hb).2) h
  case zeroOrderHold g =>
    exact exists_inPlace_built (.zeroOrderHold g)
      (fun _ hb => (Sampling.zeroOrderHold_eq_ok_iff.1 hb).2) h
  case firstOrderHold g =>
    exact exists_inPlace_built (.firstOrderHold g)
      (fun _ hb => (Sampling.firstOrderHold_eq_ok_iff.1 hb).2) h
  case sampleTrigger period shift =>
    exact exists_inPlace_built (.sampleTrigger period shift)
      (fun _ hb => (SampleTrigger.block_eq_ok_iff.1 hb).2) h
  case integrator k start =>
    exact exists_inPlace_built (.integrator k start)
      (fun _ hb => (Integrator.block_eq_ok_iff.1 hb).2) h
  case derivative limit start =>
    exact exists_inPlace_built (.derivative limit start)
      (fun _ hb => (Derivative.block_eq_ok_iff.1 hb).2) h
  case slewRate up down =>
    exact exists_inPlace_built (.slewRate up down)
      (fun _ hb => (SlewRate.block_eq_ok_iff.1 hb).2) h
  case movingAverage delta =>
    exact exists_inPlace_built (.movingAverage delta)
      (fun _ hb => (MovingAverage.block_eq_ok_iff.1 hb).2) h
  case pid config =>
    exact exists_inPlace_built (.pid config) (fun _ hb => (Pid.block_eq_ok_iff.1 hb).2) h
  -- what is left has no memory
  all_goals first
    | (cases h; exact ⟨_, .memoryless _⟩)
    | exact exists_inPlace_memoryless h

end ControlBlocks
