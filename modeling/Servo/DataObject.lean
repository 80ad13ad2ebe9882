/-
Objects of a slave's dictionary. An address names one item by index and
subindex; a data object is an address together with the type of the values
found there. `DataObject.Standard` holds the objects that bringing up a drive
needs.
-/
import Servo.Packed
import Servo.Drive.StatusWord
import Servo.Drive.ControlWord
import Servo.Drive.OperationMode
import Servo.Text.Hex

namespace Servo

/-- The place of an item in a dictionary. -/
structure Address where
  index : UInt16
  sub : UInt8
deriving DecidableEq, Repr, Inhabited

namespace Address

/-- The index as diagnostics write it, four digits at least. -/
def indexText (index : UInt16) : String := "0x" ++ Hex.padded 4 index.toNat

/-- The address as diagnostics write it. -/
def text (a : Address) : String := indexText a.index ++ ":" ++ toString a.sub.toNat

end Address

/-- An item of a dictionary that holds values of type `α`. -/
structure DataObject (α : Type) where
  address : Address
deriving DecidableEq, Repr

namespace DataObject

/-- The item at a subindex. -/
def item (α : Type) (index : UInt16) (sub : UInt8) : DataObject α := ⟨⟨index, sub⟩⟩

/-- The object at an index, as a whole. -/
def whole (α : Type) (index : UInt16) : DataObject α := item α index 0

def text {α : Type} (object : DataObject α) : String :=
  "Sdo \x7bindex: 0x" ++ Hex.text object.address.index.toNat ++
    ", sub: " ++ toString object.address.sub.toNat ++ "\x7d"

-- ================================================== standard objects

namespace Standard

def controlword : DataObject ControlWord := whole _ 0x6040
def statusword : DataObject StatusWord := whole _ 0x6041
def modeOfOperation : DataObject OperationMode := whole _ 0x6060
def modeDisplay : DataObject Int8 := whole _ 0x6061
def positionActual : DataObject Int32 := whole _ 0x6064
def velocityActual : DataObject Int32 := whole _ 0x606c
def targetTorque : DataObject Int16 := whole _ 0x6071
def maxTorque : DataObject UInt16 := whole _ 0x6072
def ratedCurrent : DataObject UInt32 := whole _ 0x6075
def torqueActual : DataObject Int16 := whole _ 0x6077
def targetPosition : DataObject Int32 := whole _ 0x607a
def torqueSlope : DataObject UInt32 := whole _ 0x6087
def encoderIncrements : DataObject UInt32 := item _ 0x608f 1
def gearRatio : DataObject UInt32 := item _ 0x608f 2
def interpolationPeriod : DataObject UInt8 := item _ 0x60c2 1
def interpolationIndex : DataObject Int8 := item _ 0x60c2 2

end Standard

end DataObject

end Servo
