import ControlBlocks.Block.Component
import ControlBlocks.Memoryless.Discrete
import ControlBlocks.Memoryless.RealMath
import ControlBlocks.Memoryless.Matrix
import ControlBlocks.Memoryless.Routing
import ControlBlocks.Memoryless.MoistAir
import ControlBlocks.Sequential.Edges
import ControlBlocks.Sequential.Bistable
import ControlBlocks.Sequential.Triggered
import ControlBlocks.Timed.Timer
import ControlBlocks.Timed.Hold
import ControlBlocks.Timed.StatusProof
import ControlBlocks.Timed.Sampling
import ControlBlocks.Timed.Stage
import ControlBlocks.Timed.Dynamics
import ControlBlocks.Timed.Pid
import ControlBlocks.Source.Wave
import ControlBlocks.Source.Interpolation
import ControlBlocks.Source.CalendarTime

/-!
# The catalogue

All blocks of the library with their parameters.

* `Design` — a block by kind and parameters, not yet checked;
* `Design.component` — the component, or the fault in its parameters.
-/

set_option autoImplicit false

namespace ControlBlocks

/-- The three families of signals. -/
inductive SignalKind where
  | boolean
  | integer
  | real
  deriving DecidableEq, Repr

/-- A block by kind and parameters. -/
inductive Design (α : Type) where
  -- gates
  | not
  | and
  | or
  | xor
  | nand
  | nor
  | multiAnd
  | multiOr
  | switch (kind : SignalKind)
  -- integers
  | integerAbs
  | integerAdd
  | integerSubtract
  | integerMultiply
  | integerMax
  | integerMin
  | integerEqual
  | integerLess
  | integerGreaterEqual
  | integerAddParameter (p : Int)
  | integerMultiSum (gains : List Int)
  | integerLessThreshold (t : Int)
  | integerGreaterEqualThreshold (t : Int)
  -- reals
  | abs
  | add
  | subtract
  | multiply
  | divide
  | modulo
  | average
  | max
  | min
  | addParameter (p : α)
  | multiplyByParameter (k : α)
  | round (places : Int)
  | multiSum (gains : List α)
  | multiMax
  | multiMin
  | limiter (p : RealMath.Limiter α)
  | line (p : RealMath.Line)
  | sqrt
  | exp
  | log
  | log10
  | sin
  | cos
  | tan
  | asin
  | acos
  | atan
  | atan2
  -- vectors and matrices
  | sort (ascending : Bool)
  | matrixGain (k : List (List α))
  | matrixMax (byRow : Bool)
  | matrixMin (byRow : Bool)
  -- routing
  | extractor (kind : SignalKind) (nin : Nat)
  | extractSignal (kind : SignalKind) (nin : Nat) (index : Int)
  | scalarReplicator (kind : SignalKind) (nout : Nat)
  | vectorReplicator (kind : SignalKind) (nin nrep : Nat)
  | vectorFilter (kind : SignalKind) (nin nout : Nat) (mask : Option (List Bool))
  -- conversions and warnings
  | booleanToReal (whenTrue whenFalse : α)
  | booleanToInteger (whenTrue whenFalse : Int)
  | integerToReal
  | realToInteger
  | assert (message : String)
  -- moist air
  | dewPoint
  | specificEnthalpy (pressure : α)
  | wetBulb (pressure : α)
  -- edges, bistables, counters
  | edge (start : Bool)
  | fallingEdge (start : Bool)
  | change (start : Bool)
  | previous (start : Bool)
  | integerChange (start : Int)
  | unitDelay (start : α)
  | latch
  | toggle
  | counter (start : Int)
  -- comparators
  | hysteresis (low high : α) (start : Bool)
  | greater (band : α) (start : Bool)
  | less (band : α) (start : Bool)
  | greaterThreshold (t band : α) (start : Bool)
  | lessThreshold (t band : α) (start : Bool)
  -- triggered blocks
  | triggeredMax
  | triggeredMean
  | triggeredSampler (start : α)
  -- timers, delays, holds
  | timer (threshold : α)
  | timerAccumulating (threshold : α)
  | onDelay (delay : α)
  | dwellHold (whileTrue whileFalse : α)
  | statusProof (testDelay stuckDelay : α)
  | variablePulse (period : α)
  | stage (c : Stage.Config α)
  -- sampling
  | sampler (g : Sampling.Grid α)
  | zeroOrderHold (g : Sampling.Grid α)
  | firstOrderHold (g : Sampling.Grid α)
  -- dynamics
  | integrator (k start : α)
  | derivative (limit start : α)
  | slewRate (up down : α)
  | movingAverage (delta : α)
  | pid (c : Pid.Config α)
  -- sources
  | booleanConstant (k : Bool)
  | integerConstant (k : Int)
  | realConstant (k : α)
  | booleanPulse (p : PulseShape α)
  | integerPulse (amplitude offset : Int) (p : PulseShape α)
  | realPulse (amplitude offset : α) (p : PulseShape α)
  | sampleTrigger (period shift : α)
  | ramp (p : Wave.Ramp α)
  | sine (p : Wave.Sine α)
  | modelTime
  | booleanTable (cells : List (List α)) (scale period : α)
  | integerTable (cells : List (List α)) (scale period : α)
  | realTable (cells : List (List α)) (c : Interpolation.Config α)
  | calendarTime (zero : CalendarTime.Zero) (offset : α)

namespace Design

open Component (ofBuilt)

variable {α : Type} [Elementary α]

/-- The component of a design, or the fault in its parameters. -/
def component : Design α → Except (Fault α) (Component α)
  | .not => .ok ⟨Logic.not⟩
  | .and => .ok ⟨Logic.and⟩
  | .or => .ok ⟨Logic.or⟩
  | .xor => .ok ⟨Logic.xor⟩
  | .nand => .ok ⟨Logic.nand⟩
  | .nor => .ok ⟨Logic.nor⟩
  | .multiAnd => .ok ⟨Logic.multiAnd⟩
  | .multiOr => .ok ⟨Logic.multiOr⟩
  | .switch .boolean => .ok ⟨Switch.block α Bool⟩
  | .switch .integer => .ok ⟨Switch.block α Int⟩
  | .switch .real => .ok ⟨Switch.block α α⟩
  | .integerAbs => .ok ⟨IntegerMath.abs⟩
  | .integerAdd => .ok ⟨IntegerMath.add⟩
  | .integerSubtract => .ok ⟨IntegerMath.subtract⟩
  | .integerMultiply => .ok ⟨IntegerMath.multiply⟩
  | .integerMax => .ok ⟨IntegerMath.max⟩
  | .integerMin => .ok ⟨IntegerMath.min⟩
  | .integerEqual => .ok ⟨IntegerMath.equal⟩
  | .integerLess => .ok ⟨IntegerMath.less⟩
  | .integerGreaterEqual => .ok ⟨IntegerMath.greaterEqual⟩
  | .integerAddParameter p => .ok ⟨IntegerMath.addParameter p⟩
  | .integerMultiSum gains => .ok ⟨IntegerMath.multiSum gains⟩
  | .integerLessThreshold t => .ok ⟨IntegerMath.lessThreshold t⟩
  | .integerGreaterEqualThreshold t => .ok ⟨IntegerMath.greaterEqualThreshold t⟩
  | .abs => .ok ⟨RealMath.abs⟩
  | .add => .ok ⟨RealMath.add⟩
  | .subtract => .ok ⟨RealMath.subtract⟩
  | .multiply => .ok ⟨RealMath.multiply⟩
  | .divide => .ok ⟨RealMath.divide⟩
  | .modulo => .ok ⟨RealMath.modulo⟩
  | .average => .ok ⟨RealMath.average⟩
  | .max => .ok ⟨RealMath.max⟩
  | .min => .ok ⟨RealMath.min⟩
  | .addParameter p => .ok ⟨RealMath.addParameter p⟩
  | .multiplyByParameter k => .ok ⟨RealMath.multiplyByParameter k⟩
  | .round places => .ok ⟨RealMath.round places⟩
  | .multiSum gains => .ok ⟨RealMath.multiSum gains⟩
  | .multiMax => .ok ⟨RealMath.multiMax⟩
  | .multiMin => .ok ⟨RealMath.multiMin⟩
  | .limiter p => ofBuilt p.build
  | .line p => .ok ⟨p.block⟩
  | .sqrt => .ok ⟨Functions.sqrt⟩
  | .exp => .ok ⟨Functions.exp⟩
  | .log => .ok ⟨Functions.log⟩
  | .log10 => .ok ⟨Functions.log10⟩
  | .sin => .ok ⟨Functions.sin⟩
  | .cos => .ok ⟨Functions.cos⟩
  | .tan => .ok ⟨Functions.tan⟩
  | .asin => .ok ⟨Functions.asin⟩
  | .acos => .ok ⟨Functions.acos⟩
  | .atan => .ok ⟨Functions.atan⟩
  | .atan2 => .ok ⟨Functions.atan2⟩
  | .sort ascending => .ok ⟨Matrix.sort α ascending⟩
  | .matrixGain k => ofBuilt (Matrix.gain k)
  | .matrixMax byRow => .ok ⟨Matrix.max byRow⟩
  | .matrixMin byRow => .ok ⟨Matrix.min byRow⟩
  | .extractor .boolean nin => ofBuilt (Routing.extractor Bool nin)
  | .extractor .integer nin => ofBuilt (Routing.extractor Int nin)
  | .extractor .real nin => ofBuilt (Routing.extractor α nin)
  | .extractSignal .boolean nin index => ofBuilt (Routing.extractSignal Bool nin index)
  | .extractSignal .integer nin index => ofBuilt (Routing.extractSignal Int nin index)
  | .extractSignal .real nin index => ofBuilt (Routing.extractSignal α nin index)
  | .scalarReplicator .boolean nout => ofBuilt (Routing.scalarReplicator Bool nout)
  | .scalarReplicator .integer nout => ofBuilt (Routing.scalarReplicator Int nout)
  | .scalarReplicator .real nout => ofBuilt (Routing.scalarReplicator α nout)
  | .vectorReplicator .boolean nin nrep => ofBuilt (Routing.vectorReplicator Bool nin nrep)
  | .vectorReplicator .integer nin nrep => ofBuilt (Routing.vectorReplicator Int nin nrep)
  | .vectorReplicator .real nin nrep => ofBuilt (Routing.vectorReplicator α nin nrep)
  | .vectorFilter .boolean nin nout mask => ofBuilt (Routing.vectorFilter Bool nin nout mask)
  | .vectorFilter .integer nin nout mask => ofBuilt (Routing.vectorFilter Int nin nout mask)
  | .vectorFilter .real nin nout mask => ofBuilt (Routing.vectorFilter α nin nout mask)
  | .booleanToReal whenTrue whenFalse => .ok ⟨Conversion.booleanToReal whenTrue whenFalse⟩
  | .booleanToInteger whenTrue whenFalse => .ok ⟨Conversion.booleanToInteger whenTrue whenFalse⟩
  | .integerToReal => .ok ⟨Conversion.integerToReal⟩
  | .realToInteger => .ok ⟨Conversion.realToInteger⟩
  | .assert message => .ok ⟨Conversion.assert message⟩
  | .dewPoint => .ok ⟨MoistAir.dewPoint⟩
  | .specificEnthalpy pressure => ofBuilt (MoistAir.specificEnthalpy pressure)
  | .wetBulb pressure => ofBuilt (MoistAir.wetBulb pressure)
  | .edge start => .ok ⟨Edges.edge start⟩
  | .fallingEdge start => .ok ⟨Edges.fallingEdge start⟩
  | .change start => .ok ⟨Edges.change start⟩
  | .previous start => .ok ⟨Edges.previous start⟩
  | .integerChange start => .ok ⟨Edges.integerChange start⟩
  | .unitDelay start => .ok ⟨Edges.unitDelay start⟩
  | .latch => .ok ⟨Bistable.latch⟩
  | .toggle => .ok ⟨Bistable.toggle⟩
  | .counter start => .ok ⟨Counter.block start⟩
  | .hysteresis low high start => ofBuilt (Comparator.hysteresis low high start)
  | .greater band start => ofBuilt (Comparator.greater band start)
  | .less band start => ofBuilt (Comparator.less band start)
  | .greaterThreshold t band start => ofBuilt (Comparator.greaterThreshold t band start)
  | .lessThreshold t band start => ofBuilt (Comparator.lessThreshold t band start)
  | .triggeredMax => .ok ⟨Triggered.max⟩
  | .triggeredMean => .ok ⟨Triggered.mean⟩
  | .triggeredSampler start => .ok ⟨Triggered.sampler start⟩
  | .timer threshold => ofBuilt (Timer.block threshold)
  | .timerAccumulating threshold => ofBuilt (Timer.accumulating threshold)
  | .onDelay delay => ofBuilt (OnDelay.block delay)
  | .dwellHold whileTrue whileFalse => ofBuilt (DwellHold.block whileTrue whileFalse)
  | .statusProof testDelay stuckDelay => ofBuilt (StatusProof.block testDelay stuckDelay)
  | .variablePulse period => ofBuilt (VariablePulse.block period)
  | .stage c => ofBuilt (Stage.block c)
  | .sampler g => ofBuilt (Sampling.sampler g)
  | .zeroOrderHold g => ofBuilt (Sampling.zeroOrderHold g)
  | .firstOrderHold g => ofBuilt (Sampling.firstOrderHold g)
  | .integrator k start => ofBuilt (Integrator.block k start)
  | .derivative limit start => ofBuilt (Derivative.block limit start)
  | .slewRate up down => ofBuilt (SlewRate.block up down)
  | .movingAverage delta => ofBuilt (MovingAverage.block delta)
  | .pid c => ofBuilt (Pid.block c)
  | .booleanConstant k => .ok ⟨Wave.constant k⟩
  | .integerConstant k => .ok ⟨Wave.constant k⟩
  | .realConstant k => .ok ⟨Wave.constant k⟩
  | .booleanPulse p => ofBuilt (Pulse.boolean p)
  | .integerPulse amplitude offset p => ofBuilt (Pulse.integer amplitude offset p)
  | .realPulse amplitude offset p => ofBuilt (Pulse.real amplitude offset p)
  | .sampleTrigger period shift => ofBuilt (SampleTrigger.block period shift)
  | .ramp p => ofBuilt p.block
  | .sine p => ofBuilt p.block
  | .modelTime => .ok ⟨Wave.modelTime⟩
  | .booleanTable cells scale period => ofBuilt (Table.booleans cells scale period)
  | .integerTable cells scale period => ofBuilt (Table.integers cells scale period)
  | .realTable cells c => ofBuilt (Interpolation.block cells c)
  | .calendarTime zero offset => ofBuilt (CalendarTime.block zero offset)

end Design

end ControlBlocks
