/-
Bringing a segment up, from whatever state its slaves powered up in to the
exchange of process data.

1. open the interface, find the slaves, bring them to pre-operational
2. write the parameters of the drive, of which only the operation mode is
   mandatory
3. negotiate its mappings, and go on with the ones it has if it refuses
4. set up the distributed clocks, and go on without them if there are none
5. lay out the process image, and check that it is large enough
6. put safe outputs there
7. bring every slave to the safe state, feed the watchdogs by a few exchanges,
   and bring every slave to operational
8. check that every slave is

Whatever ends this early, every slave that was found is asked back to its
initial state, without waiting for it, and the bus is closed; the error is
that of the stage which failed. A success leaves the bus open and reports what
was tolerated on the way.

One end is neither: where the bytes to require cannot be computed in 64 bits,
everything comes down there and then, and nothing is given back.
-/
import Servo.Negotiation
import Servo.StateControl
import Servo.Cyclic.Enabling

namespace Servo.Bringup

-- ============================================================= errors

/-- A side of the process image, seen from the master. -/
inductive Direction
  | output
  | input
deriving DecidableEq, Repr

def Direction.name : Direction → String
  | output => "Output"
  | input => "Input"

/-- Why a segment or its process image is of no use as configured. -/
inductive SegmentError
  | noSlaves
  | missingSlave (slave count : UInt16)
  | undersizedImage (slave : UInt16) (direction : Direction) (required available : Nat)
  /-- A slave is in another state after all, none if it shows none. -/
  | notOperational (slave : UInt16) (state : Option AlState)
deriving DecidableEq, Repr

def SegmentError.message : SegmentError → String
  | noSlaves => "no slave found on the segment"
  | missingSlave slave count =>
    "slave " ++ toString slave.toNat ++ " is not on the segment (" ++ toString count.toNat ++
      " slaves found)"
  | undersizedImage slave direction required available =>
    direction.name ++ " process image of slave " ++ toString slave.toNat ++ " is " ++
      toString available ++ " bytes, " ++ toString required ++ " required"
  | notOperational slave state =>
    "slave " ++ toString slave.toNat ++ " is in state " ++
      (state.map AlState.name).getD "unknown" ++ " instead of OPERATIONAL"

/-- Why a drive could not be brought up. -/
inductive Error
  | bus (fault : Bus.Fault)
  | segment (error : SegmentError)
  | transition (error : StateControl.Error)
  | enabling (error : Enabling.Error)
  | config (error : Config.Error)
  /-- The cyclic side could not be started. -/
  | start (reason : String)
deriving DecidableEq, Repr

def Error.message : Error → String
  | bus fault => fault.message
  | segment error => error.message
  | transition error => error.message
  | enabling error => error.message
  | config error => error.message
  | start reason => "cannot start cyclic thread: " ++ reason

-- ============================================================ reports

/-- What became of a mapping. -/
inductive MappingOutcome
  /-- The drive has no assignment objects, and keeps its mapping. -/
  | unsupported
  /-- The drive keeps its mapping, as configured. -/
  | kept
  | negotiated (outcome : Negotiation.Outcome)
  /-- The negotiation failed, and the drive keeps what it has. -/
  | failed (error : Negotiation.Error)
deriving DecidableEq, Repr

/-- What a bring-up found. -/
structure Report where
  /-- The number of slaves on the segment. -/
  slaves : UInt16
  /-- The parameters that the drive refused, by name. -/
  parameterFailures : List (String × Bus.Fault)
  /-- The operation mode that the drive showed, if it could be read. -/
  modeDisplay : Option Int8
  rx : MappingOutcome
  tx : MappingOutcome
  distributedClocks : Bool
  image : Bus.ImageMap
  expectedWkc : UInt16
deriving DecidableEq, Repr

/-- Why a bring-up ends early. -/
inductive Stop
  /-- A stage failed. -/
  | failed (error : Error)
  /-- A number left its range, and everything came down. -/
  | panicked
deriving DecidableEq, Repr

/-- A stage, which can end everything early. -/
abbrev Stage := ExceptT Stop BusProgram

/-- Fails the stage. -/
def fail {α : Type} (error : Error) : Stage α := throw (.failed error)

/-- A program whose error, in the terms of the stage, fails it. -/
def failing {ε α : Type} (g : ε → Error) (p : BusProgram (Except ε α)) : Stage α :=
  ExceptT.mk do return (← p).mapError fun error => .failed (g error)

/-- A request whose fault fails the stage. -/
def require {α : Type} (p : BusProgram (Except Bus.Fault α)) : Stage α := failing .bus p

/-- A number to go on with; where there is none, everything comes down. -/
def computed {α : Type} : Option α → Stage α
  | some value => return value
  | none => throw .panicked

/-- The slaves of a segment, in order. -/
def slavesOf (count : UInt16) : List UInt16 :=
  (List.range count.toNat).map fun i => .ofNat (i + 1)

/-- Brings slaves to a state, one after the other. -/
def bringTo (timing : Timing) (target : AlState) : List UInt16 → Stage Unit
  | [] => return
  | slave :: rest => do
    failing .transition (StateControl.reach timing slave target)
    bringTo timing target rest

-- ========================================================= parameters

/-- A parameter of a drive that it may refuse: a name for diagnostics, and the
bytes to write to an address. -/
structure Parameter where
  name : String
  address : Address
  data : Bytes
deriving DecidableEq, Repr

/-- The value for an object of the dictionary. -/
def Parameter.ofObject {α : Type} [Packed α] (name : String) (object : DataObject α)
    (value : α) : Parameter :=
  ⟨name, object.address, Packed.bytes value⟩

open DataObject.Standard in
/-- The parameters that a drive may refuse, in the order they are written. -/
def optionalParameters (p : DriveParameters) : List Parameter :=
  [.ofObject "rated current" ratedCurrent p.ratedCurrent,
   .ofObject "max torque" maxTorque p.maxTorque,
   .ofObject "torque slope" torqueSlope p.torqueSlope,
   .ofObject "interpolation period" interpolationPeriod p.interpolationPeriod,
   .ofObject "interpolation index" interpolationIndex p.interpolationIndex,
   .ofObject "encoder increments" encoderIncrements p.encoderIncrements,
   .ofObject "gear ratio" gearRatio p.gearRatio]

/-- Writes parameters and gives the faults of those that were refused. -/
def writeOptional (slave : UInt16) : List Parameter → BusProgram (List (String × Bus.Fault))
  | [] => return []
  | parameter :: rest => do
    let result ← Bus.sdoWrite slave parameter.address parameter.data
    let failures ← writeOptional slave rest
    match result with
    | .ok () => return failures
    | .error fault => return (parameter.name, fault) :: failures

/-- Writes the parameters of the drive. Gives those it refused, and the mode it
then shows. -/
def writeParameters (c : Config) :
    Stage (List (String × Bus.Fault) × Option Int8) := do
  require (DataObject.Standard.modeOfOperation.write c.slave .torqueProfile)
  let failures ← writeOptional c.slave (optionalParameters c.parameters)
  let mode ← DataObject.Standard.modeDisplay.read c.slave
  return (failures, mode.toOption)

-- ============================================================ mappings

/-- Negotiates one mapping, and reads back what there is whatever came of it. -/
def negotiateOne (slave : UInt16) (pdo : Pdo) (target : List Pdo.Entry) :
    BusProgram MappingOutcome := do
  let result ← Negotiation.negotiate slave pdo target none
  let _ ← Negotiation.describe slave pdo.index
  match result with
  | .ok outcome => return .negotiated outcome
  | .error error => return .failed error

/-- Negotiates both mappings, if this is wanted and the drive has assignment
objects. -/
def negotiateMappings (c : Config) : BusProgram (MappingOutcome × MappingOutcome) := do
  if c.mapping.keepDefaults then return (.kept, .kept)
  match ← (Negotiation.count c.mapping.rxAssign).read c.slave with
  | .error _ => return (.unsupported, .unsupported)
  | .ok _ =>
    let rx ← negotiateOne c.slave c.mapping.rxPdo c.rxMapping
    let tx ← negotiateOne c.slave c.mapping.txPdo c.txMapping
    return (rx, tx)

-- =============================================================== image

/-- How many bytes each direction of the image must have: the bits rounded up.
Nothing where the sum on the way leaves 64 bits. -/
def requiredBytes? (c : Config) : Option UInt64 :=
  if c.minProcessBits.toNat + 7 < UInt64.size then some ((c.minProcessBits + 7) / 8) else none

/-- Fails if a direction of the image has fewer bytes than required. -/
def checkImage (c : Config) (required : Nat) (image : Bus.SlaveImage) :
    Except SegmentError Unit := do
  if image.outputBytes < required then
    throw (.undersizedImage c.slave .output required image.outputBytes)
  if image.inputBytes < required then
    throw (.undersizedImage c.slave .input required image.inputBytes)

/-- Lays out the process image and puts safe outputs there. -/
def prepareImage (c : Config) (layout : Layout) : Stage Bus.ImageMap := do
  let map ← require Bus.map
  let image := (map.slave? c.slave).getD ⟨0, 0⟩
  let required ← computed (requiredBytes? c)
  failing .segment (pure (checkImage c required.toNat image))
  let outputs ← Bus.outputs c.slave
  let (safe, result) := layout.safeOutputs outputs OperationMode.torqueProfile.raw
  Bus.setOutputs c.slave safe
  failing (fun e => .bus (.ofPacking e)) (pure result)
  return map

/-- Exchanges a number of times, whatever comes of it. -/
def exchangeTimes : Nat → BusProgram Unit
  | 0 => return
  | n + 1 => do
    let _ ← Bus.exchange
    exchangeTimes n

/-- Feeds the watchdogs of the slaves: a first exchange, and as many more as
configured. -/
def feedWatchdogs (timing : Timing) : BusProgram Unit :=
  exchangeTimes (timing.watchdogCycles.toNat + 1)

/-- Fails at the first slave that is not operational. -/
def checkOperational : List UInt16 → Stage Unit
  | [] => return
  | slave :: rest => do
    let state := (← Bus.state slave).toOption.bind Bus.Status.state
    if state ≠ some .operational then fail (.segment (.notOperational slave state))
    checkOperational rest

-- ============================================================ the whole

/-- Opens the bus and finds the slaves. -/
def openBus (interface : String) : Stage UInt16 := do
  require (Bus.init interface)
  require Bus.discover

/-- Everything after the slaves are found. -/
def stages (c : Config) (layout : Layout) (slaves : UInt16) : Stage Report := do
  if slaves = 0 then fail (.segment .noSlaves)
  if slaves < c.slave then fail (.segment (.missingSlave c.slave slaves))
  bringTo c.timing .init (slavesOf slaves)
  bringTo c.timing .preOperational (slavesOf slaves)
  let (parameterFailures, modeDisplay) ← writeParameters c
  let (rx, tx) ← negotiateMappings c
  let clocks ← Bus.clocks
  let image ← prepareImage c layout
  bringTo c.timing .safeOperational (slavesOf slaves)
  feedWatchdogs c.timing
  bringTo c.timing .operational (slavesOf slaves)
  checkOperational (slavesOf slaves)
  return {
    slaves
    parameterFailures
    modeDisplay
    rx
    tx
    distributedClocks := clocks.isOk
    image
    expectedWkc := image.expectedWkc }

/-- Asks slaves back to their initial state, without waiting for it. -/
def resetSlaves : List UInt16 → BusProgram Unit
  | [] => return
  | slave :: rest => do
    let _ ← Bus.setState slave .init
    resetSlaves rest

/-- Gives the bus back: resets every slave and closes. -/
def release (slaves : UInt16) : BusProgram Unit := do
  resetSlaves (slavesOf slaves)
  Bus.close

/-- Ends a bring-up early. What failed is given back first. -/
def abandon (slaves : UInt16) : Stop → BusProgram (Except Stop Report)
  | .failed error => do
    release slaves
    return .error (.failed error)
  | .panicked => return .error .panicked

/-- Brings a segment up on a network interface. -/
def run (c : Config) (layout : Layout) (interface : String) :
    BusProgram (Except Stop Report) := do
  match ← (openBus interface).run with
  | .error stop => abandon 0 stop
  | .ok slaves =>
    match ← (stages c layout slaves).run with
    | .error stop => abandon slaves stop
    | .ok report => return .ok report

end Servo.Bringup
