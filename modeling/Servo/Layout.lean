/-
Where the values of a drive lie in its process image. The default layout is
that of the default mappings, packed in their order; a drive with other
mappings needs only another layout.

`Layout.safeOutputs` is the one place that decides what an output image holds
before the drive may act on it: a shutdown command, the operation mode, and
zeros wherever else the layout reaches.
-/
import Servo.Field
import Servo.Drive.State

namespace Servo

/-- The fields of a drive in its output and input images. -/
structure Layout where
  controlword : Field UInt16
  mode : Field Int8
  targetTorque : Field Int16
  targetPosition : Field Int32
  statusword : Field UInt16
  modeDisplay : Field Int8
  position : Field Int32
  torque : Field Int16
  /-- The measured velocity, which many drives do not send. -/
  velocity : Option (Field Int32)
deriving DecidableEq, Repr

namespace Layout

/-- The layout of the default mappings. -/
def standard : Layout where
  controlword := .simple 0
  mode := .simple 2
  targetTorque := .simple 3
  targetPosition := .simple 5
  statusword := .simple 0
  modeDisplay := .simple 2
  position := .simple 3
  torque := .simple 7
  velocity := none

/-- The offset after the last output field. -/
def outputLen (l : Layout) : UInt64 :=
  [l.controlword.stop, l.mode.stop, l.targetTorque.stop, l.targetPosition.stop].foldl max 0

/-- The offset after the last input field. -/
def inputLen (l : Layout) : UInt64 :=
  [l.statusword.stop, l.modeDisplay.stop, l.position.stop, l.torque.stop,
    (l.velocity.map Field.stop).getD 0].foldl max 0

/-- The status word in the input bytes, zero where they do not hold it. -/
def statuswordIn (l : Layout) (inputs : Bytes) : UInt16 := (l.statusword.get? inputs).getD 0

/-- The image with every byte that the output fields reach set to zero. -/
def clearOutputs (l : Layout) (outputs : Bytes) : Bytes :=
  let reached := min l.outputLen.toNat outputs.length
  List.replicate reached 0 ++ outputs.drop reached

/-- Puts the outputs in a state that cannot move the motor. The controlword
must fit; the mode is left out where the image ends before its field does. The
image comes back in any case, as far as it was written. -/
def safeOutputs (l : Layout) (outputs : Bytes) (mode : Int8) :
    Bytes × Except PackingError Unit :=
  let cleared := l.clearOutputs outputs
  match l.controlword.set cleared Drive.Command.shutdown.bits with
  | .error e => (cleared, .error e)
  | .ok commanded =>
    if l.mode.stop.toNat ≤ outputs.length then
      match l.mode.set commanded mode with
      | .error e => (commanded, .error e)
      | .ok complete => (complete, .ok ())
    else (commanded, .ok ())

end Layout

end Servo
