/-
The control word sent to a drive: seven of its bits have names here, and all
but the one specific to the operation mode are shown in its text.
-/
import Servo.Drive.State
import Servo.Drive.Word
import Servo.Packed

namespace Servo

/-- A control word, all its bits. -/
structure ControlWord where
  raw : UInt16
deriving DecidableEq, Repr

namespace ControlWord

/-- The bits with a name. -/
inductive Bit
  | switchOn
  | enableVoltage
  | quickStop
  | enableOperation
  | resetFault
  | halt
  | specific
deriving DecidableEq, Repr

namespace Bit

/-- The named bits from the lowest on. -/
def all : List Bit :=
  [switchOn, enableVoltage, quickStop, enableOperation, resetFault, halt, specific]

def position : Bit → UInt16
  | switchOn => 0
  | enableVoltage => 1
  | quickStop => 2
  | enableOperation => 3
  | resetFault => 7
  | halt => 8
  | specific => 9

def name : Bit → String
  | switchOn => "switch_on"
  | enableVoltage => "enable_voltage"
  | quickStop => "quick_stop"
  | enableOperation => "enable_operation"
  | resetFault => "reset_fault"
  | halt => "halt"
  | specific => "specific"

/-- The abbreviation that stands for the bit in a text, none for the bit whose
meaning the operation mode gives. -/
def mark? : Bit → Option String
  | switchOn => some "so"
  | enableVoltage => some "ev"
  | quickStop => some "qs"
  | enableOperation => some "eo"
  | resetFault => some "rf"
  | halt => some "h"
  | specific => none

/-- The bit of a name, if there is one. -/
def ofName? (name : String) : Option Bit := all.find? (·.name == name)

end Bit

def test (w : ControlWord) (bit : Bit) : Bool := Word.test w.raw bit.position

/-- The word with one bit set or cleared and the others kept. -/
def assign (w : ControlWord) (bit : Bit) (value : Bool) : ControlWord :=
  ⟨Word.assign w.raw bit.position value⟩

/-- The word that carries a command. -/
def ofCommand (command : Drive.Command) : ControlWord := ⟨command.bits⟩

def text (w : ControlWord) : String :=
  Word.grid "ControlWord" (Bit.all.filterMap fun bit => bit.mark?.map (w.test bit, ·))

instance : Packed ControlWord where
  size := 2
  word w := w.raw.toNat
  ofWord n := .ok ⟨.ofNat n⟩

instance : LawfulPacked ControlWord where
  word_lt w := w.raw.toNat_lt
  ofWord_word w := congrArg (Except.ok ∘ ControlWord.mk) (UInt16.ofNat_toNat (x := w.raw))
  word_of_ofWord hn h := by
    cases h
    exact UInt16.toNat_ofNat_of_lt' hn

end ControlWord

end Servo
