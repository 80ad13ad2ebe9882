import Servo.Bench.Basic
import Servo.Bench.Files
import Servo.Bench.Master
import Servo.Bench.Rule
import Servo.Bringup
import Servo.Bus
import Servo.Bytes
import Servo.Config
import Servo.Config.Section
import Servo.Config.Table
import Servo.Cyclic.Board
import Servo.Cyclic.Enabling
import Servo.Cyclic.Exchange
import Servo.DataObject
import Servo.Drive.ControlWord
import Servo.Drive.OperationMode
import Servo.Drive.State
import Servo.Drive.StatusWord
import Servo.Drive.Word
import Servo.Duration
import Servo.Field
import Servo.Layout
import Servo.Master
import Servo.Negotiation
import Servo.Packed
import Servo.Pdo
import Servo.Program
import Servo.Simulation.Dictionary
import Servo.Simulation.Segment
import Servo.Simulation.Slave
import Servo.Single
import Servo.Slave.AlState
import Servo.Slave.AlStatus
import Servo.StateControl
import Servo.Telemetry
import Servo.Text.Hex
import Servo.Toml.Document
import Servo.Toml.Literal
import Servo.Toml.Moment
import Servo.Toml.Reader
import Servo.Toml.Reader.Basic
import Servo.Toml.Reader.Text
import Servo.Toml.Value
import Servo.Proofs.Cyclic.Rules
import Servo.Proofs.Field
import Servo.Proofs.Field.Lens
import Servo.Proofs.Layout
import Servo.Proofs.Cyclic.Session
import Servo.Proofs.Cyclic.Interlock
import Servo.Proofs.Config
import Servo.Proofs.Cyclic.AfterFailure
import Servo.Proofs.Cyclic.Trust
import Servo.Proofs.Requests
import Servo.Proofs.Bringup.Failure
import Servo.Proofs.StateControl
import Servo.Proofs.StateControl.Overtaken
import Servo.Proofs.Bringup.Success
import Servo.Proofs.Bringup.Sizing
import Servo.Proofs.Bringup.SafeOutputs
import Servo.Proofs.Master.Release
import Servo.Proofs.Master.HandOver
import Servo.Proofs.Idle
import Servo.Proofs.Simulation.Torque
import Servo.Proofs.Simulation.Segment
import Servo.Proofs.Cyclic.Tame
import Servo.Proofs.Simulation.Dictionary
import Servo.Proofs.Negotiation
import Servo.Proofs.Bringup.Mapping
import Servo.Proofs.Simulation.Astray
import Servo.Proofs.Negotiation.Protocol
import Servo.Proofs.Negotiation.Failure
import Servo.Proofs.Simulation.Negotiated
import Servo.Proofs.Cyclic.Telemetry
import Servo.Proofs.Cyclic.FailedExchange
import Servo.Proofs.Cyclic.SafeStop
import Servo.Proofs.Simulation.Image
import Servo.Proofs.Simulation.Enabling
import Servo.Proofs.Cyclic.Reenable
import Servo.Proofs.Cyclic.Attempts
import Servo.Proofs.Simulation.Line
import Servo.Proofs.Simulation.Mailbox
import Servo.Proofs.Simulation.Rewriting
import Servo.Proofs.Simulation.Settling
import Servo.Proofs.Simulation.Stages
import Servo.Proofs.Simulation.NewSegment
import Servo.Proofs.Simulation.Operation
import Servo.Proofs.Master.Shutdown
import Servo.Proofs.Simulation.Protected
import Servo.Proofs.Cyclic.Setpoint
import Servo.Proofs.Simulation.Sequence
import Servo.Proofs.Simulation.Stubborn
import Servo.Proofs.Simulation.Counter
import Servo.Proofs.Simulation.ReadBack
import Servo.Proofs.Cyclic.Watch
import Servo.Proofs.Cyclic.InFlight
import Servo.Proofs.Bringup.Isolation
import Servo.Proofs.Simulation.Closed
import Servo.Proofs.Simulation.Packing
import Servo.Proofs.Seconds
import Servo.Proofs.Cyclic.Velocity
import Servo.Proofs.Duration
import Servo.Proofs.Config.Table
