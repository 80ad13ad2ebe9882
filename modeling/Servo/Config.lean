/-
What a bring-up and the cyclic exchange after it need to be told.

Every value has a default that suits a drive on a loop of one kilohertz, so an
empty configuration is a valid one. Some combinations of well-typed values are
of no use all the same; `Config.flaw?` finds the first of them, in a fixed
order, and a configuration without a flaw is accepted by `Config.validate`.

The spans of `Timing` are pauses between requests. No answer depends on how
long a pause is, so the programs of this library keep none of them; what they
do keep are the numbers of attempts and polls.
-/
import Servo.Pdo
import Servo.Duration

namespace Servo

/-- The parameters written to a drive before it exchanges process data. -/
structure DriveParameters where
  /-- The rated current of the motor in milliamperes. -/
  ratedCurrent : UInt32 := 3000
  /-- The limit of the torque in thousandths of the rated torque. -/
  maxTorque : UInt16 := 1000
  /-- The slope of the torque in thousandths of the rated torque per second. -/
  torqueSlope : UInt32 := 10000
  /-- The mantissa of the interpolation period. -/
  interpolationPeriod : UInt8 := 1
  /-- The power of ten of the interpolation period. -/
  interpolationIndex : Int8 := -3
  encoderIncrements : UInt32 := 4096
  gearRatio : UInt32 := 1
deriving DecidableEq, Repr, Inhabited

/-- The mappings asked of a drive. -/
structure MappingConfig where
  /-- Whether the drive keeps the mappings it has. -/
  keepDefaults : Bool := false
  rxIndex : UInt16 := Pdo.receive.index
  rxAssign : UInt16 := Pdo.receive.assign
  txIndex : UInt16 := Pdo.transmit.index
  txAssign : UInt16 := Pdo.transmit.assign
  /-- What the drive receives. -/
  rx : List Pdo.Entry := Pdo.defaultReceive
  /-- What the drive transmits. -/
  tx : List Pdo.Entry := Pdo.defaultTransmit
deriving DecidableEq, Repr, Inhabited

namespace MappingConfig

def rxPdo (c : MappingConfig) : Pdo := ⟨c.rxIndex, c.rxAssign⟩

def txPdo (c : MappingConfig) : Pdo := ⟨c.txIndex, c.txAssign⟩

end MappingConfig

/-- Every pause and every bound on attempts. -/
structure Timing where
  /-- How often a change of state is attempted. -/
  stateAttempts : UInt32 := 5
  /-- Between a request for a state and its first poll. -/
  stateSettle : Duration := .ofMilliseconds 20
  /-- The same while a state is reached through another one. -/
  escalationSettle : Duration := .ofMilliseconds 200
  /-- Between two attempts. -/
  stateRetry : Duration := .ofMilliseconds 50
  /-- How often the state is polled in an attempt. -/
  statePolls : UInt32 := 200
  statePollInterval : Duration := .ofMilliseconds 10
  /-- After the parameters are written. -/
  parameterSettle : Duration := .ofMilliseconds 100
  /-- After each step of a negotiation. -/
  mappingStepDelay : Duration := .ofMilliseconds 50
  /-- After each entry of a mapping. -/
  mappingEntryDelay : Duration := .ofMilliseconds 20
  /-- After the first exchange that feeds the watchdog. -/
  watchdogPause : Duration := .ofMilliseconds 10
  /-- How many exchanges follow that pause. -/
  watchdogCycles : UInt32 := 10
  watchdogInterval : Duration := .ofMilliseconds 1
  /-- How often enabling the drive is attempted. -/
  enableAttempts : UInt32 := 50
  enableInterval : Duration := .ofMilliseconds 5
  /-- How often the cyclic side looks whether the master is ready. -/
  masterReadyPolls : UInt32 := 500
  masterReadyInterval : Duration := .ofMilliseconds 10
  /-- The period of the exchange. -/
  cyclePeriod : Duration := .ofMilliseconds 1
  /-- How many cycles lie between two looks at the state of the slave. -/
  stateCheckPeriod : UInt32 := 100
deriving DecidableEq, Repr, Inhabited

/-- No pause at all and few polls, for a bus that answers at once. -/
def Timing.immediate : Timing where
  stateSettle := .zero
  escalationSettle := .zero
  stateRetry := .zero
  statePolls := 2
  statePollInterval := .zero
  parameterSettle := .zero
  mappingStepDelay := .zero
  mappingEntryDelay := .zero
  watchdogPause := .zero
  watchdogInterval := .zero
  enableInterval := .zero
  masterReadyInterval := .zero
  cyclePeriod := .ofMicroseconds 100

/-- A configuration. -/
structure Config where
  /-- The drive's place on the segment, from one on. -/
  slave : UInt16 := 1
  /-- Whether the cyclic side asks for realtime scheduling. -/
  realtime : Bool := false
  /-- How many bits each direction of the image must have at least. -/
  minProcessBits : UInt64 := 13
  parameters : DriveParameters := {}
  mapping : MappingConfig := {}
  timing : Timing := {}
deriving DecidableEq, Repr, Inhabited

namespace Config

/-- What makes a well-typed configuration useless. -/
inductive Flaw
  | slaveZero
  | minProcessBitsZero
  /-- A mapping, by its key, has no entry or too many. -/
  | entryCount (key : String) (count : Nat)
  /-- A mapping, by its key, has an entry of no bits. -/
  | emptyEntry (key : String) (entry : Pdo.Entry)
  /-- A bound, by its key, allows no attempt. -/
  | zeroBound (key : String)
deriving DecidableEq, Repr

def Flaw.message : Flaw → String
  | slaveZero => "slave index starts from 1"
  | minProcessBitsZero => "min_process_bits cannot be 0"
  | entryCount key count =>
    key ++ " must have between 1 and " ++ toString Pdo.maxEntries ++ " entries, got " ++
      toString count
  | emptyEntry key entry => key ++ " entry " ++ entry.text ++ " has no length"
  | zeroBound key => key ++ " cannot be 0"

/-- Why a configuration cannot be had. -/
inductive Error
  /-- The file could not be read. -/
  | unreadable (path reason : String)
  /-- The text is no table of the right keys and types. -/
  | malformed
  | flawed (flaw : Flaw)
deriving DecidableEq, Repr

def Error.message : Error → String
  | unreadable path reason => "cannot read configuration file " ++ path ++ ": " ++ reason
  | malformed => "failed to parse configuration"
  | flawed flaw => "configuration validation failed: " ++ flaw.message

/-- The first flaw of a mapping that is known by a key. -/
def mappingFlaw? (key : String) (mapping : List Pdo.Entry) : Option Flaw :=
  if mapping = [] ∨ Pdo.maxEntries < mapping.length then
    some (.entryCount key mapping.length)
  else (mapping.find? (·.bits == 0)).map (.emptyEntry key)

/-- The bounds that may not be zero, by their keys. -/
def bounds (t : Timing) : List (String × UInt32) :=
  [("timing.state_attempts", t.stateAttempts),
   ("timing.state_polls", t.statePolls),
   ("timing.enable_attempts", t.enableAttempts),
   ("timing.master_ready_polls", t.masterReadyPolls),
   ("timing.state_check_period", t.stateCheckPeriod)]

/-- The first flaw of a configuration. -/
def flaw? (c : Config) : Option Flaw :=
  if c.slave = 0 then some .slaveZero
  else if c.minProcessBits = 0 then some .minProcessBitsZero
  else
    mappingFlaw? "mapping.rx" c.mapping.rx <|>
    mappingFlaw? "mapping.tx" c.mapping.tx <|>
    ((bounds c.timing).find? (·.2 == 0)).map (.zeroBound ·.1)

/-- Accepts a configuration without a flaw. -/
def validate (c : Config) : Except Error Unit :=
  match c.flaw? with
  | some flaw => .error (.flawed flaw)
  | none => .ok ()

/-- The mapping to negotiate for what the drive receives. -/
def rxMapping (c : Config) : List Pdo.Entry := c.mapping.rx.take Pdo.maxEntries

/-- The mapping to negotiate for what the drive transmits. -/
def txMapping (c : Config) : List Pdo.Entry := c.mapping.tx.take Pdo.maxEntries

end Config

end Servo
