/-
What the cyclic side tells the control side.

Telemetry is a snapshot: the last values that were published, without a
history. Each publication changes a few of its fields at once and leaves the
others, and there is no other way to change it, so what a snapshot shows is
determined by the publications before it. A publication carries the values that
its sender holds; that the state of the drive is the one that the status word
beside it reports is a matter of what is sent.
-/
import Servo.Drive.State
import Servo.Single

namespace Servo

/-- The values that a drive sent in one cycle, each if the image holds it. -/
structure Reading where
  /-- The status word, zero where the image does not hold it. -/
  statusword : UInt16
  modeDisplay : Option Int8
  position : Option Int32
  torque : Option Int16
  velocity : Option Int32
deriving DecidableEq, Repr, Inhabited

/-- The state of a drive and of the communication with it. -/
structure Telemetry where
  /-- The position in increments. -/
  position : Int32 := 0
  /-- The velocity in increments per second. -/
  velocity : Single := .zero
  /-- The torque in thousandths of the rated torque. -/
  torque : Int16 := 0
  modeDisplay : Int8 := 0
  statusword : UInt16 := 0
  /-- The control word that is being sent. -/
  controlword : UInt16 := 0
  /-- The state that the status word reports. -/
  drive : Drive.State := .notReady
  /-- Whether the last exchange had the expected working counter. -/
  communicationOk : Bool := false
  /-- Whether the slave was operational when it was last looked at. -/
  slaveOperational : Bool := false
  /-- Whether the last enabling sequence enabled the drive. -/
  enabled : Bool := false
  workingCounter : UInt16 := 0
  /-- The number of cycles so far. -/
  cycles : UInt64 := 0
  /-- The number of cycles with a working counter that was too low. -/
  degradedCycles : UInt64 := 0
deriving DecidableEq, Repr, Inhabited

/-- A group of fields that is published at once. -/
inductive Publication
  /-- The cyclic exchange starts. -/
  | started
  /-- A cycle brought valid inputs. -/
  | received (reading : Reading) (drive : Drive.State) (velocity : Single)
      (controlword workingCounter : UInt16)
  /-- A cycle had too low a working counter. -/
  | degraded (workingCounter : UInt16)
  /-- An attempt to enable the drive found a status word and answers it. -/
  | attempted (statusword : UInt16) (drive : Drive.State) (controlword : UInt16) (enabled : Bool)
  /-- The state of the slave was looked at. -/
  | watched (operational : Bool)
  /-- The cyclic exchange stopped, after a last control word. -/
  | stopped (controlword : UInt16)
deriving DecidableEq, Repr

/-- The telemetry after a publication. -/
def Telemetry.publish (t : Telemetry) : Publication → Telemetry
  | .started => { t with slaveOperational := true }
  | .received reading drive velocity controlword workingCounter =>
    { t with
      statusword := reading.statusword
      drive
      controlword
      modeDisplay := reading.modeDisplay.getD t.modeDisplay
      position := reading.position.getD t.position
      torque := reading.torque.getD t.torque
      velocity
      communicationOk := true
      workingCounter
      cycles := t.cycles + 1 }
  | .degraded workingCounter =>
    { t with
      communicationOk := false
      workingCounter
      cycles := t.cycles + 1
      degradedCycles := t.degradedCycles + 1 }
  | .attempted statusword drive controlword enabled =>
    { t with statusword, drive, controlword, enabled }
  | .watched operational => { t with slaveOperational := operational }
  | .stopped controlword => { t with controlword, enabled := false }

end Servo
