/-
The cyclic exchange with one drive.

The exchange first waits for the master to be ready and touches no bus until
then. While it runs, each step sends the outputs, exchanges once, and looks at
the working counter: a cycle that reaches the expected one brings inputs that
are decoded and published, any other cycle leaves everything published as it
was. After a good cycle the enabling sequence runs if it is due, and at a
fixed period the state of the slave is looked at and asked for again if it is
lost. A stop puts a shutdown command and no torque into the outputs and
exchanges a last time.

The torque of a step is the setpoint only while the last valid status word
reported operation enabled, and zero in any other state.
-/
import Servo.Cyclic.Enabling

namespace Servo.Cyclic

/-- Where the exchange is. -/
inductive Phase
  | waiting
  | running
  | stopped
deriving DecidableEq, Repr, Inhabited

/-- What an exchange is told once. -/
structure Settings where
  slave : UInt16
  layout : Layout
  timing : Timing
  /-- The working counter of a cycle in which every slave took part. -/
  expectedWkc : UInt16
deriving DecidableEq, Repr

/-- What an exchange remembers between two steps. -/
structure State where
  phase : Phase := .waiting
  /-- The control word in the outputs. -/
  controlword : UInt16 := Drive.Command.shutdown.bits
  /-- The state of the drive by its last valid status word. -/
  drive : Drive.State := .notReady
  /-- Whether the enabling sequence runs at the next good cycle. -/
  enablePending : Bool := true
  /-- The number of steps so far. -/
  ticks : UInt64 := 0
  /-- The last position and when it was received. -/
  lastPosition : Option (Int32 × Duration) := none
  velocity : Single := .zero
deriving DecidableEq, Repr, Inhabited

/-- The values in the input bytes of a drive. -/
def readInputs (layout : Layout) (inputs : Bytes) : Reading where
  statusword := layout.statuswordIn inputs
  modeDisplay := layout.modeDisplay.get? inputs
  position := layout.position.get? inputs
  torque := layout.torque.get? inputs
  velocity := layout.velocity.bind (·.get? inputs)

/-- The torque to send to a drive, in thousandths of the rated torque. -/
def commandedTorque (drive : Drive.State) (setpoint : Single) : Int16 :=
  if drive = .operationEnabled then (setpoint.mul .thousand).toInt16 else 0

-- ============================================================ waiting

/-- Waits for the master, at most `polls` times. -/
def awaitReady (polls : Nat) (s : State) : CyclicProgram State := do
  match polls with
  | 0 => return { s with phase := .stopped }
  | polls + 1 =>
    if ← perform .isStopped then
      return { s with phase := .stopped }
    else if ← perform .isReady then
      publish .started
      return { s with phase := .running }
    else awaitReady polls s

/-- Waits for the master and tells whether it is ready. -/
def waitForMaster (c : Settings) (s : State) : CyclicProgram (Bool × State) := do
  let s ← awaitReady c.timing.masterReadyPolls.toNat s
  return (s.phase = .running, s)

-- ============================================================ stepping

/-- The working counter that an exchange answered; one that failed counts no
slave. -/
def counted : Except Bus.Fault UInt16 → UInt16
  | .ok wkc => wkc
  | .error _ => 0

/-- Sends outputs and exchanges. Values that the image has no room for are not
sent. -/
def send (c : Settings) (controlword : UInt16) (torque : Int16) : CyclicProgram UInt16 := do
  let outputs ← onBus (.outputs c.slave)
  let outputs := c.layout.controlword.put outputs controlword
  let outputs := c.layout.mode.put outputs OperationMode.torqueProfile.raw
  let outputs := c.layout.targetTorque.put outputs torque
  onBus (.setOutputs c.slave outputs)
  return counted (← onBus .exchange)

/-- The velocity at a position, and the position remembered for the next one.
Where no time went by since the last position, the velocity is kept. -/
def estimateVelocity (s : State) (position : Int32) (now : Duration) : State :=
  let velocity :=
    match s.lastPosition with
    | some (last, time) =>
      let elapsed := (now.since time).asSeconds
      if elapsed.sign? = some 1 then (Single.ofInt (position - last).toInt).div elapsed
      else s.velocity
    | none => .zero
  { s with velocity, lastPosition := some (position, now) }

/-- The velocity after a reading: measured, or estimated, or as it was. -/
def updateVelocity (s : State) (reading : Reading) : CyclicProgram State := do
  match reading.velocity, reading.position with
  | some speed, _ => return { s with velocity := .ofInt speed.toInt }
  | none, some position => return estimateVelocity s position (← perform .now)
  | none, none => return s

/-- Decodes and publishes the inputs of a good cycle. -/
def receive (c : Settings) (s : State) (wkc : UInt16) : CyclicProgram State := do
  let reading := readInputs c.layout (← onBus (.inputs c.slave))
  let s ← updateVelocity { s with drive := .decode reading.statusword } reading
  publish (.received reading s.drive s.velocity s.controlword wkc)
  return s

/-- The exchange of one step. Takes what the control side asks for, sends the
outputs, and decodes the inputs if the cycle was a good one, which it tells. -/
def cycle (c : Settings) (s : State) : CyclicProgram (Bool × State) := do
  let again ← perform .takeReenable
  let torque := commandedTorque s.drive (← perform .setpoint)
  let wkc ← send c s.controlword torque
  let s := { s with enablePending := s.enablePending || again, ticks := s.ticks + 1 }
  if c.expectedWkc ≤ wkc then
    return (true, ← receive c s wkc)
  else
    publish (.degraded wkc)
    return (false, s)

/-- What is remembered after an enabling sequence: what its last attempt
published is what the outputs hold from then on. -/
def State.settle (s : State) (outcome : Enabling.Outcome) : State :=
  let s := { s with enablePending := false }
  match outcome.statusword? with
  | some statusword =>
    let drive := Drive.State.decode statusword
    { s with drive, controlword := drive.controlword }
  | none => s

/-- Runs the enabling sequence if it is due, once the inputs are good. -/
def enableIfDue (c : Settings) (good : Bool) (s : State) : CyclicProgram State :=
  if good && s.enablePending then do
    return s.settle (← Enabling.sequence c.slave c.layout c.timing)
  else return s

/-- Whether an answer shows the slave operational. -/
def showsOperational : Except Bus.Fault Bus.Status → Bool
  | .ok status => status.state = some .operational
  | .error _ => false

/-- Looks at the state of the slave, and asks for operational if it is in any
other one. -/
def watchSlave (slave : UInt16) : CyclicProgram Unit := do
  let operational := showsOperational (← onBus (.state slave))
  publish (.watched operational)
  if !operational then
    let _ ← onBus (.setState slave .operational)

/-- Whether the state of the slave is looked at after so many steps. A period of
zero never comes round. -/
def watchDue (timing : Timing) (ticks : UInt64) : Bool :=
  timing.stateCheckPeriod ≠ 0 ∧ ticks % timing.stateCheckPeriod.toUInt64 = 0

/-- Looks at the slave if it is due. -/
def watchIfDue (c : Settings) (s : State) : CyclicProgram Unit :=
  if watchDue c.timing s.ticks then watchSlave c.slave else return ()

/-- One step, which tells whether its cycle was a good one. -/
def step (c : Settings) (s : State) : CyclicProgram (Bool × State) := do
  let (good, s) ← cycle c s
  let s ← enableIfDue c good s
  watchIfDue c s
  return (good, s)

-- ============================================================ stopping

/-- Sends a shutdown command without torque, a last time. -/
def stop (c : Settings) (s : State) : CyclicProgram State := do
  let controlword := Drive.Command.shutdown.bits
  let outputs ← onBus (.outputs c.slave)
  let outputs := c.layout.controlword.put outputs controlword
  let outputs := c.layout.targetTorque.put outputs 0
  onBus (.setOutputs c.slave outputs)
  let _ ← onBus .exchange
  publish (.stopped controlword)
  return { s with controlword, phase := .stopped }

/-- Steps until a stop is asked for. Nothing if that takes more than `bound`
steps. -/
def steps (c : Settings) (bound : Nat) (s : State) : CyclicProgram (Option State) := do
  match bound with
  | 0 => return none
  | bound + 1 =>
    if ← perform .isStopped then return some s
    let (_, s) ← step c s
    steps c bound s

/-- Steps until a stop is asked for, and stops. Nothing if that takes more than
`bound` steps. -/
def finish (c : Settings) (bound : Nat) (s : State) : CyclicProgram (Option State) := do
  match ← steps c bound s with
  | some s => return some (← stop c s)
  | none => return none

/-- The whole exchange, from waiting for the master to the stop. Nothing if it
runs for more than `bound` steps. -/
def run (c : Settings) (bound : Nat) (s : State) : CyclicProgram (Option State) := do
  let (ready, s) ← waitForMaster c s
  if ready then finish c bound s else return some s

/-- What is left of the exchange, wherever it is. -/
def resume (c : Settings) (bound : Nat) (s : State) : CyclicProgram (Option State) :=
  match s.phase with
  | .waiting => run c bound s
  | .running => finish c bound s
  | .stopped => return some s

end Servo.Cyclic
