/-
The application state machine of a drive, seen from the master.

The state is never kept on its own: `State.decode` finds it from a status word
whenever it is asked for, and is defined on every word. Only the bits of
`State.mask` count. `State.next` is the one place that knows the way to
operation enabled:

                    notReady
                       |
                 switchOnDisabled  <----------- fault <--- faultReactionActive
                       | shutdown      faultReset
                 readyToSwitchOn
                       | switchOn
                   switchedOn
                       | enableOperation
                 operationEnabled

In a state without a way of its own the answer is `shutdown`, which is safe
everywhere; in operation enabled there is nothing left to command.
-/

namespace Servo.Drive

/-- A state of the application state machine. -/
inductive State
  | notReady
  | switchOnDisabled
  | readyToSwitchOn
  | switchedOn
  | operationEnabled
  | quickStopActive
  | faultReactionActive
  | fault
deriving DecidableEq, Repr, Inhabited

/-- What the master can ask of the state machine. -/
inductive Command
  /-- Voltage and no quick stop, leads to `readyToSwitchOn`. -/
  | shutdown
  /-- Leads to `switchedOn`. -/
  | switchOn
  /-- Leads to `operationEnabled`. -/
  | enableOperation
  /-- Leaves `fault` for `switchOnDisabled`. -/
  | faultReset
deriving DecidableEq, Repr, Inhabited

namespace Command

/-- The control word that carries the command. -/
def bits : Command → UInt16
  | shutdown => 0x0006
  | switchOn => 0x0007
  | enableOperation => 0x000f
  | faultReset => 0x0080

/-- All commands, in order. -/
def all : List Command := [shutdown, switchOn, enableOperation, faultReset]

end Command

namespace State

/-- All states, in order. -/
def all : List State :=
  [notReady, switchOnDisabled, readyToSwitchOn, switchedOn, operationEnabled,
    quickStopActive, faultReactionActive, fault]

/-- The name of the state in diagnostics. -/
def name : State → String
  | notReady => "NOT_READY"
  | switchOnDisabled => "SWITCH_ON_DISABLED"
  | readyToSwitchOn => "READY_TO_SWITCH_ON"
  | switchedOn => "SWITCHED_ON"
  | operationEnabled => "OPERATION_ENABLED"
  | quickStopActive => "QUICK_STOP_ACTIVE"
  | faultReactionActive => "FAULT_REACTION_ACTIVE"
  | fault => "FAULT"

/-- The bits of a status word that determine the state. -/
def mask : UInt16 := 0x006f

/-- The bit of a status word that reports a fault. -/
def faultBit : UInt16 := 0x0008

/-- The state that a status word reports. A pattern of the mask which no state
has is a fault where the fault bit is set, and not ready elsewhere. -/
def decode (statusword : UInt16) : State :=
  let pattern := statusword &&& mask
  if pattern = 0x00 then notReady
  else if pattern = 0x40 then switchOnDisabled
  else if pattern = 0x21 then readyToSwitchOn
  else if pattern = 0x23 then switchedOn
  else if pattern = 0x27 then operationEnabled
  else if pattern = 0x07 then quickStopActive
  else if pattern = 0x0f then faultReactionActive
  else if pattern = 0x08 then fault
  else if statusword &&& faultBit ≠ 0 then fault
  else notReady

/-- The command that brings a drive closer to operation enabled, none once it
is there. -/
def next : State → Option Command
  | fault => some .faultReset
  | readyToSwitchOn => some .switchOn
  | switchedOn => some .enableOperation
  | operationEnabled => none
  | notReady | switchOnDisabled | quickStopActive | faultReactionActive => some .shutdown

/-- The control word to send in a state: that of the next command, and once
operation is enabled the one that keeps it enabled. -/
def controlword (state : State) : UInt16 := (state.next.getD .enableOperation).bits

end State

end Servo.Drive
