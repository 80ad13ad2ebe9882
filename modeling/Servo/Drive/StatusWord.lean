/-
The status word of a drive: eleven of its bits have names here, the others
belong to the manufacturer or to the operation mode and are kept as they are.
-/
import Servo.Drive.State
import Servo.Drive.Word
import Servo.Packed

namespace Servo

/-- A status word, all its bits. -/
structure StatusWord where
  raw : UInt16
deriving DecidableEq, Repr

namespace StatusWord

/-- The bits with a name. -/
inductive Bit
  | readySwitchOn
  | switchedOn
  | operationEnabled
  | fault
  | voltageEnabled
  | quickStop
  | switchOnDisabled
  | warning
  | remote
  | targetReached
  | limitActive
deriving DecidableEq, Repr

namespace Bit

/-- The named bits from the lowest on. -/
def all : List Bit :=
  [readySwitchOn, switchedOn, operationEnabled, fault, voltageEnabled, quickStop,
    switchOnDisabled, warning, remote, targetReached, limitActive]

def position : Bit → UInt16
  | readySwitchOn => 0
  | switchedOn => 1
  | operationEnabled => 2
  | fault => 3
  | voltageEnabled => 4
  | quickStop => 5
  | switchOnDisabled => 6
  | warning => 7
  | remote => 9
  | targetReached => 10
  | limitActive => 11

def name : Bit → String
  | readySwitchOn => "ready_switch_on"
  | switchedOn => "switched_on"
  | operationEnabled => "operation_enabled"
  | fault => "fault"
  | voltageEnabled => "voltage_enabled"
  | quickStop => "quick_stop"
  | switchOnDisabled => "switch_on_disabled"
  | warning => "warning"
  | remote => "remote"
  | targetReached => "target_reached"
  | limitActive => "limit_active"

/-- The abbreviation that stands for the bit in a text. -/
def mark : Bit → String
  | readySwitchOn => "rtso"
  | switchedOn => "so"
  | operationEnabled => "oe"
  | fault => "f"
  | voltageEnabled => "ve"
  | quickStop => "qs"
  | switchOnDisabled => "sod"
  | warning => "w"
  | remote => "r"
  | targetReached => "tr"
  | limitActive => "la"

/-- The bit of a name, if there is one. -/
def ofName? (name : String) : Option Bit := all.find? (·.name == name)

end Bit

def test (w : StatusWord) (bit : Bit) : Bool := Word.test w.raw bit.position

/-- The word with one bit set or cleared and the others kept. -/
def assign (w : StatusWord) (bit : Bit) (value : Bool) : StatusWord :=
  ⟨Word.assign w.raw bit.position value⟩

/-- The state of the drive that reports this word. -/
def state (w : StatusWord) : Drive.State := .decode w.raw

def text (w : StatusWord) : String :=
  Word.grid "StatusWord" (Bit.all.map fun bit => (w.test bit, bit.mark))

instance : Packed StatusWord where
  size := 2
  word w := w.raw.toNat
  ofWord n := .ok ⟨.ofNat n⟩

instance : LawfulPacked StatusWord where
  word_lt w := w.raw.toNat_lt
  ofWord_word w := congrArg (Except.ok ∘ StatusWord.mk) (UInt16.ofNat_toNat (x := w.raw))
  word_of_ofWord hn h := by
    cases h
    exact UInt16.toNat_ofNat_of_lt' hn

end StatusWord

end Servo
