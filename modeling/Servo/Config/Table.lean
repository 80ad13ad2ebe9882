/-
A configuration as a TOML table, and as the file that holds one.

Each field is found under one key; spans of time are whole microseconds and
their keys say so, entries of a mapping are their words. `Config.overlay`
replaces the fields that a table gives and keeps all others, in whatever order
the keys come and however many of them there are, and `Config.toTable` is the
table of all fields. Reading a file means decoding its bytes, reading the
document, laying its table over the defaults, and checking the outcome; each
of these can fail, in this order.
-/
import Servo.Config
import Servo.Config.Section
import Servo.Toml.Reader

namespace Servo

/-- A span of time, in whole microseconds. -/
def Key.span {σ : Type} (name : String) (get : σ → Duration) (set : Duration → σ → σ) : Key σ :=
  .word name UInt64.size (fun record => (get record).microseconds.toNat)
    (fun n => set (.ofMicroseconds (.ofNat n)))

/-- The entries of a mapping. -/
def Key.entries {σ : Type} (name : String) (get : σ → List Pdo.Entry)
    (set : List Pdo.Entry → σ → σ) : Key σ :=
  .words name UInt32.size (fun record => (get record).map fun e => e.raw.toNat)
    (fun ns => set (ns.map fun n => ⟨.ofNat n⟩))

namespace DriveParameters

def keys : List (Key DriveParameters) :=
  [.word "rated_current" UInt32.size (·.ratedCurrent.toNat) fun n p =>
    { p with ratedCurrent := .ofNat n },
   .word "max_torque" UInt16.size (·.maxTorque.toNat) fun n p => { p with maxTorque := .ofNat n },
   .word "torque_slope" UInt32.size (·.torqueSlope.toNat) fun n p =>
    { p with torqueSlope := .ofNat n },
   .word "interpolation_period" UInt8.size (·.interpolationPeriod.toNat) fun n p =>
    { p with interpolationPeriod := .ofNat n },
   .number "interpolation_index" (-128) 127 (·.interpolationIndex.toInt) fun n p =>
    { p with interpolationIndex := .ofInt n },
   .word "encoder_increments" UInt32.size (·.encoderIncrements.toNat) fun n p =>
    { p with encoderIncrements := .ofNat n },
   .word "gear_ratio" UInt32.size (·.gearRatio.toNat) fun n p => { p with gearRatio := .ofNat n }]

end DriveParameters

namespace MappingConfig

def keys : List (Key MappingConfig) :=
  [.truth "keep_defaults" (·.keepDefaults) fun b m => { m with keepDefaults := b },
   .word "rx_index" UInt16.size (·.rxIndex.toNat) fun n m => { m with rxIndex := .ofNat n },
   .word "rx_assign" UInt16.size (·.rxAssign.toNat) fun n m => { m with rxAssign := .ofNat n },
   .word "tx_index" UInt16.size (·.txIndex.toNat) fun n m => { m with txIndex := .ofNat n },
   .word "tx_assign" UInt16.size (·.txAssign.toNat) fun n m => { m with txAssign := .ofNat n },
   .entries "rx" (·.rx) fun es m => { m with rx := es },
   .entries "tx" (·.tx) fun es m => { m with tx := es }]

end MappingConfig

namespace Timing

def keys : List (Key Timing) :=
  [.word "state_attempts" UInt32.size (·.stateAttempts.toNat) fun n t =>
    { t with stateAttempts := .ofNat n },
   .span "state_settle_us" (·.stateSettle) fun d t => { t with stateSettle := d },
   .span "escalation_settle_us" (·.escalationSettle) fun d t => { t with escalationSettle := d },
   .span "state_retry_us" (·.stateRetry) fun d t => { t with stateRetry := d },
   .word "state_polls" UInt32.size (·.statePolls.toNat) fun n t =>
    { t with statePolls := .ofNat n },
   .span "state_poll_interval_us" (·.statePollInterval) fun d t =>
    { t with statePollInterval := d },
   .span "parameter_settle_us" (·.parameterSettle) fun d t => { t with parameterSettle := d },
   .span "mapping_step_delay_us" (·.mappingStepDelay) fun d t => { t with mappingStepDelay := d },
   .span "mapping_entry_delay_us" (·.mappingEntryDelay) fun d t =>
    { t with mappingEntryDelay := d },
   .span "watchdog_pause_us" (·.watchdogPause) fun d t => { t with watchdogPause := d },
   .word "watchdog_cycles" UInt32.size (·.watchdogCycles.toNat) fun n t =>
    { t with watchdogCycles := .ofNat n },
   .span "watchdog_interval_us" (·.watchdogInterval) fun d t => { t with watchdogInterval := d },
   .word "enable_attempts" UInt32.size (·.enableAttempts.toNat) fun n t =>
    { t with enableAttempts := .ofNat n },
   .span "enable_interval_us" (·.enableInterval) fun d t => { t with enableInterval := d },
   .word "master_ready_polls" UInt32.size (·.masterReadyPolls.toNat) fun n t =>
    { t with masterReadyPolls := .ofNat n },
   .span "master_ready_interval_us" (·.masterReadyInterval) fun d t =>
    { t with masterReadyInterval := d },
   .span "cycle_period_us" (·.cyclePeriod) fun d t => { t with cyclePeriod := d },
   .word "state_check_period" UInt32.size (·.stateCheckPeriod.toNat) fun n t =>
    { t with stateCheckPeriod := .ofNat n }]

end Timing

namespace Config

def keys : List (Key Config) :=
  [.word "slave" UInt16.size (·.slave.toNat) fun n c => { c with slave := .ofNat n },
   .truth "realtime" (·.realtime) fun b c => { c with realtime := b },
   .word "min_process_bits" UInt64.size (·.minProcessBits.toNat) fun n c =>
    { c with minProcessBits := .ofNat n },
   .group "parameters" DriveParameters.keys (·.parameters) fun p c => { c with parameters := p },
   .group "mapping" MappingConfig.keys (·.mapping) fun m c => { c with mapping := m },
   .group "timing" Timing.keys (·.timing) fun t c => { c with timing := t }]

/-- The configuration with the fields of a table replaced. -/
def overlay (table : Toml.Table) (base : Config) : Option Config :=
  Section.overlay keys table base

/-- The table of all fields. -/
def toTable (c : Config) : Toml.Table := Section.toTable keys c

/-- The configuration that a table gives over the defaults, if it is of use. -/
def ofTable (table : Toml.Table) : Except Error Config := do
  let some c := overlay table {} | throw .malformed
  c.validate
  return c

/-- The configuration that a TOML text gives. -/
def ofText (text : String) : Except Error Config :=
  match Toml.read? text with
  | some table => ofTable table
  | none => .error .malformed

/-- The configuration that the content of a file gives. The content is the
bytes, or the reason why there are none. -/
def ofFile (path : String) (content : Except String ByteArray) : Except Error Config :=
  match content with
  | .error reason => .error (.unreadable path reason)
  | .ok bytes =>
    match String.fromUTF8? bytes with
    | some text => ofText text
    | none => .error (.unreadable path "stream did not contain valid UTF-8")

end Config

end Servo
