/-
The sequence that brings a drive to operation enabled.

Each attempt decodes the status word of the last inputs, publishes it, and
puts the command that it calls for into the outputs together with a torque of
zero. A drive that is there already ends the sequence, with the command that
keeps it there left in the outputs; for any other one the outputs are
exchanged, and the next attempt looks at what came back. An exchange that
fails is not an error, the attempt was in vain.

The sequence fails when no attempt is left, or when the image has no room for
the control word.
-/
import Servo.Cyclic.Board
import Servo.Config
import Servo.Layout

namespace Servo.Enabling

/-- The drive was not enabled in time. -/
structure Error where
  slave : UInt16
  attempts : UInt32
  lastState : Drive.State
  statusword : UInt16
deriving DecidableEq, Repr

def Error.message (e : Error) : String :=
  "drive " ++ toString e.slave.toNat ++ " still in " ++ e.lastState.name ++ " (statusword 0x" ++
    Hex.padded 4 e.statusword.toNat ++ ") after " ++ toString e.attempts.toNat ++ " attempts"

/-- How a sequence ended. -/
structure Outcome where
  enabled : Bool
  /-- The status word of the last attempt, if there was one. -/
  statusword? : Option UInt16
deriving DecidableEq, Repr

/-- The success or the error that an outcome is. -/
def Outcome.result (o : Outcome) (slave : UInt16) (timing : Timing) : Except Error Unit :=
  if o.enabled then .ok ()
  else
    let statusword := o.statusword?.getD 0
    .error ⟨slave, timing.enableAttempts, .decode statusword, statusword⟩

/-- Makes attempts until the drive is enabled, the control word cannot be
written, or none is left. `last` is the status word of the attempt before. -/
def attempts (slave : UInt16) (layout : Layout) (left : Nat) (last : Option UInt16) :
    CyclicProgram Outcome := do
  match left with
  | 0 => return ⟨false, last⟩
  | left + 1 =>
    let statusword := layout.statuswordIn (← Cyclic.onBus (.inputs slave))
    let drive := Drive.State.decode statusword
    Cyclic.publish (.attempted statusword drive drive.controlword drive.next.isNone)
    let relaxed := layout.targetTorque.put (← Cyclic.onBus (.outputs slave)) 0
    match layout.controlword.set relaxed drive.controlword with
    | .error _ =>
      Cyclic.onBus (.setOutputs slave relaxed)
      return ⟨false, some statusword⟩
    | .ok commanded =>
      Cyclic.onBus (.setOutputs slave commanded)
      if drive.next.isNone then
        return ⟨true, some statusword⟩
      else
        let _ ← Cyclic.onBus .exchange
        attempts slave layout left (some statusword)

/-- The whole sequence. -/
def sequence (slave : UInt16) (layout : Layout) (timing : Timing) : CyclicProgram Outcome :=
  attempts slave layout timing.enableAttempts.toNat none

/-- Brings a drive to operation enabled. -/
def enable (slave : UInt16) (layout : Layout) (timing : Timing) :
    CyclicProgram (Except Error Unit) := do
  return (← sequence slave layout timing).result slave timing

end Servo.Enabling
