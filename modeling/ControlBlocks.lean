import ControlBlocks.Json.Writer
import ControlBlocks.Json.Reader
import ControlBlocks.Memoryless.Discrete
import ControlBlocks.Memoryless.RealMath
import ControlBlocks.Memoryless.Matrix
import ControlBlocks.Memoryless.Routing
import ControlBlocks.Memoryless.MoistAir
import ControlBlocks.Sequential.Edges
import ControlBlocks.Sequential.Bistable
import ControlBlocks.Sequential.Triggered
import ControlBlocks.Timed.Timer
import ControlBlocks.Timed.Hold
import ControlBlocks.Timed.StatusProof
import ControlBlocks.Timed.Sampling
import ControlBlocks.Timed.Stage
import ControlBlocks.Timed.Dynamics
import ControlBlocks.Timed.Pid
import ControlBlocks.Source.Wave
import ControlBlocks.Source.Interpolation
import ControlBlocks.Source.CalendarTime
import ControlBlocks.Block.Catalogue
import ControlBlocks.Network.Basic
import ControlBlocks.Network.Run
import ControlBlocks.Checkpoint.AutoSaver
import ControlBlocks.Proofs.Assembly.Resume
import ControlBlocks.Proofs.Assembly.Rollback
import ControlBlocks.Proofs.Run.Reference
import ControlBlocks.Proofs.Calls.Repetition
import ControlBlocks.Proofs.Controller.Windup
import ControlBlocks.Proofs.Controller.Repetition
import ControlBlocks.Proofs.Controller.Limits
import ControlBlocks.Proofs.Calls.MovingMean
import ControlBlocks.Proofs.Staging.Transition
import ControlBlocks.Proofs.Calls.Delays
import ControlBlocks.Proofs.Calls.Sampling
import ControlBlocks.Proofs.Calls.Translation
import ControlBlocks.Proofs.Checkpoint.Upkeep
import ControlBlocks.Proofs.Checkpoint.Schedule
import ControlBlocks.Proofs.InPlace.Faults
import ControlBlocks.Proofs.InPlace.Sessions
import ControlBlocks.Proofs.Table.Basic
import ControlBlocks.Proofs.Table.Stamps
import ControlBlocks.Proofs.Binary64.Order
import ControlBlocks.Proofs.Binary64.Bands
import ControlBlocks.Proofs.Binary64.Overflow
import ControlBlocks.Proofs.Calls.Relay
import ControlBlocks.Proofs.Calls.Triggering
import ControlBlocks.Proofs.Table.Recurrence
import ControlBlocks.Proofs.Calls.Counting
import ControlBlocks.Proofs.Calls.Integration
import ControlBlocks.Proofs.Calls.CatchingUp
import ControlBlocks.Proofs.Calls.Pulses
import ControlBlocks.Proofs.Calls.Extrapolation
import ControlBlocks.Proofs.Calls.Elapsed
import ControlBlocks.Proofs.Calls.Dwelling
import ControlBlocks.Proofs.Calls.Commands
import ControlBlocks.Proofs.Table.Ramps
import ControlBlocks.Proofs.Calendar.Reading
import ControlBlocks.Proofs.Calls.RecentInputs
import ControlBlocks.Proofs.Calls.Loading
import ControlBlocks.Proofs.Calls.RateLimits
import ControlBlocks.Proofs.Controller.Mirror
import ControlBlocks.Proofs.Controller.Accumulation
import ControlBlocks.Proofs.Calls.Windows
import ControlBlocks.Proofs.Staging.Memoryless
import ControlBlocks.Proofs.Table.Segments
import ControlBlocks.Proofs.Table.TimeAxis
import ControlBlocks.Proofs.Table.Reads
import ControlBlocks.Proofs.Table.WellFormed
import ControlBlocks.Proofs.Memoryless.WeightedSums
import ControlBlocks.Proofs.Memoryless.StableSorting
import ControlBlocks.Proofs.Memoryless.MatrixLines
import ControlBlocks.Proofs.Calls.PulseTrains
import ControlBlocks.Proofs.Memoryless.DecimalRounding
import ControlBlocks.Proofs.Memoryless.Remainders
import ControlBlocks.Proofs.Memoryless.DewPoint
import ControlBlocks.Proofs.Controller.Filtering
import ControlBlocks.Proofs.Checkpoint.Patches
