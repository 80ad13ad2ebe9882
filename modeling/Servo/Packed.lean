/-
Values that are exchanged as a fixed number of bytes, always little endian.

A packed type says how many bytes its values take, which word each value
stands for, and which words are values. Some words may be no value of the
type, so reading can fail on the word as well as on the length. A lawful
packed type has words within its size, reads each value back from its own
word, and no value from a second one (`LawfulPacked`); packing and unpacking
are then inverse to each other (`unpack_bytes`).

Only the leading bytes are ever looked at or written: a longer buffer keeps
its tail, a shorter one is refused.
-/
import Servo.Bytes

namespace Servo

/-- Why a value cannot be packed or unpacked. -/
inductive PackingError
  /-- A buffer of `size` bytes does not do. -/
  | badSize (size : Nat) (text : String)
  /-- The bytes are no value of the type. -/
  | invalidValue (text : String)
deriving DecidableEq, Repr

namespace PackingError

def message : PackingError → String
  | badSize size text => "bad size " ++ toString size ++ ": " ++ text
  | invalidValue text => "invalid value: " ++ text

/-- The cause alone, without what kind of error it is. -/
def text : PackingError → String
  | badSize _ text => text
  | invalidValue text => text

/-- A buffer that is too short for the value. -/
def tooShort (size : Nat) : PackingError := badSize size "not enough bytes for number"

/-- A field that leaves the image. -/
def outOfBounds (size : Nat) : PackingError := badSize size "field out of image bounds"

end PackingError

/-- A type whose values are exchanged as `size` bytes. -/
class Packed (α : Type) where
  /-- How many bytes a value takes. -/
  size : Nat
  /-- The little endian word of a value. -/
  word : α → Nat
  /-- The value a word stands for. -/
  ofWord : Nat → Except PackingError α

/-- The words of a packed type are in range, and each value has exactly one. -/
class LawfulPacked (α : Type) [Packed α] : Prop where
  word_lt (v : α) : Packed.word v < Bytes.limit (Packed.size α)
  ofWord_word (v : α) : Packed.ofWord (Packed.word v) = .ok v
  word_of_ofWord {n : Nat} {v : α} :
    n < Bytes.limit (Packed.size α) → Packed.ofWord n = .ok v → Packed.word v = n

namespace Packed

variable {α : Type} [Packed α]

/-- How many bits a value takes. -/
def bits (α : Type) [Packed α] : Nat := 8 * size α

/-- The bytes of a value, as many as its type takes. -/
def bytes (v : α) : Bytes := Bytes.ofNat (size α) (word v)

/-- The value at the head of a byte string. -/
def unpack (src : Bytes) : Except PackingError α :=
  if src.length < size α then .error (.tooShort src.length)
  else ofWord (Bytes.toNat (src.take (size α)))

/-- The byte string with a value written at its head. -/
def pack (v : α) (dst : Bytes) : Except PackingError Bytes :=
  if dst.length < size α then .error (.tooShort dst.length)
  else .ok (Bytes.splice dst 0 (bytes v))

@[simp] theorem length_bytes (v : α) : (bytes v).length = size α := by
  simp [bytes]

/-- A value is read back from its own bytes, whatever follows them. -/
theorem unpack_bytes [LawfulPacked α] (v : α) (rest : Bytes) :
    unpack (bytes v ++ rest) = .ok v := by
  have hlen : ¬ (bytes v ++ rest).length < size α := by simp
  rw [unpack, if_neg hlen, ← length_bytes v, List.take_left, bytes,
    Bytes.toNat_ofNat (LawfulPacked.word_lt v)]
  exact LawfulPacked.ofWord_word v

end Packed

-- ============================================================ numbers

instance : Packed UInt8 where
  size := 1
  word v := v.toNat
  ofWord n := .ok (.ofNat n)

instance : Packed UInt16 where
  size := 2
  word v := v.toNat
  ofWord n := .ok (.ofNat n)

instance : Packed UInt32 where
  size := 4
  word v := v.toNat
  ofWord n := .ok (.ofNat n)

instance : Packed Int8 where
  size := 1
  word v := v.toUInt8.toNat
  ofWord n := .ok (UInt8.ofNat n).toInt8

instance : Packed Int16 where
  size := 2
  word v := v.toUInt16.toNat
  ofWord n := .ok (UInt16.ofNat n).toInt16

instance : Packed Int32 where
  size := 4
  word v := v.toUInt32.toNat
  ofWord n := .ok (UInt32.ofNat n).toInt32

instance : LawfulPacked UInt8 where
  word_lt v := v.toNat_lt
  ofWord_word v := congrArg Except.ok (UInt8.ofNat_toNat (x := v))
  word_of_ofWord hn h := by
    cases h
    exact UInt8.toNat_ofNat_of_lt' hn

instance : LawfulPacked UInt16 where
  word_lt v := v.toNat_lt
  ofWord_word v := congrArg Except.ok (UInt16.ofNat_toNat (x := v))
  word_of_ofWord hn h := by
    cases h
    exact UInt16.toNat_ofNat_of_lt' hn

instance : LawfulPacked UInt32 where
  word_lt v := v.toNat_lt
  ofWord_word v := congrArg Except.ok (UInt32.ofNat_toNat (x := v))
  word_of_ofWord hn h := by
    cases h
    exact UInt32.toNat_ofNat_of_lt' hn

instance : LawfulPacked Int8 where
  word_lt v := v.toUInt8.toNat_lt
  ofWord_word v := by simp [Packed.word, Packed.ofWord]
  word_of_ofWord hn h := by
    cases h
    exact (congrArg UInt8.toNat (UInt8.toUInt8_toInt8 _)).trans (UInt8.toNat_ofNat_of_lt' hn)

instance : LawfulPacked Int16 where
  word_lt v := v.toUInt16.toNat_lt
  ofWord_word v := by simp [Packed.word, Packed.ofWord]
  word_of_ofWord hn h := by
    cases h
    exact (congrArg UInt16.toNat (UInt16.toUInt16_toInt16 _)).trans (UInt16.toNat_ofNat_of_lt' hn)

instance : LawfulPacked Int32 where
  word_lt v := v.toUInt32.toNat_lt
  ofWord_word v := by simp [Packed.word, Packed.ofWord]
  word_of_ofWord hn h := by
    cases h
    exact (congrArg UInt32.toNat (UInt32.toUInt32_toInt32 _)).trans (UInt32.toNat_ofNat_of_lt' hn)

end Servo
