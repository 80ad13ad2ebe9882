/-
The control loop that a drive runs, one byte of its dictionary. Not every byte
is a mode, so reading one can fail.
-/
import Servo.Packed

namespace Servo

/-- A control loop of a drive. -/
inductive OperationMode
  | off
  | profilePosition
  | velocity
  | profileVelocity
  | torqueProfile
  | homing
  | interpolatedPosition
  | synchronousPosition
  | synchronousVelocity
  | synchronousTorque
  | synchronousTorqueCommutation
deriving DecidableEq, Repr, Inhabited

namespace OperationMode

/-- The byte of a mode. -/
def code : OperationMode → UInt8
  | off => 0
  | profilePosition => 1
  | velocity => 2
  | profileVelocity => 3
  | torqueProfile => 4
  | homing => 6
  | interpolatedPosition => 7
  | synchronousPosition => 8
  | synchronousVelocity => 9
  | synchronousTorque => 10
  | synchronousTorqueCommutation => 11

/-- All modes, by ascending byte. -/
def all : List OperationMode :=
  [off, profilePosition, velocity, profileVelocity, torqueProfile, homing,
    interpolatedPosition, synchronousPosition, synchronousVelocity, synchronousTorque,
    synchronousTorqueCommutation]

/-- The mode of a byte, if it is one. -/
def ofCode? (code : UInt8) : Option OperationMode := all.find? (·.code == code)

/-- The mode as the signed byte a process image holds. -/
def raw (mode : OperationMode) : Int8 := mode.code.toInt8

theorem ofCode?_code (mode : OperationMode) : ofCode? mode.code = some mode := by
  cases mode <;> rfl

theorem code_of_ofCode? {code : UInt8} {mode : OperationMode}
    (h : ofCode? code = some mode) : mode.code = code := by
  simpa using List.find?_some h

instance : Packed OperationMode where
  size := 1
  word mode := mode.code.toNat
  ofWord n :=
    match ofCode? (.ofNat n) with
    | some mode => .ok mode
    | none => .error (.invalidValue "OperationMode")

instance : LawfulPacked OperationMode where
  word_lt mode := mode.code.toNat_lt
  ofWord_word mode := by simp [Packed.word, Packed.ofWord, ofCode?_code]
  word_of_ofWord {n mode} hn h := by
    simp only [Packed.ofWord] at h
    split at h
    · next found =>
      cases h
      show mode.code.toNat = n
      rw [code_of_ofCode? found]
      exact UInt8.toNat_ofNat_of_lt' hn
    · cases h

end OperationMode

end Servo
