/-
Values inside a process image, located by byte offset and byte length.

A field carries no pointer into the image: reading and writing take the image
and check the bounds. Offset and length are 64 bit words, so the position
after the field (`stop`) wraps around; a field whose stop is before its start
lies in no image at all. A field may be longer than its type, the value is
then at its head, and one that is shorter can neither be read nor written.

`put` writes a value where it fits and leaves the image as it is where it does
not. It is how a value that an image may be too small for is sent.
-/
import Servo.Packed
import Servo.Text.Hex

namespace Servo

/-- The place of a value of type `α` in an image. -/
structure Field (α : Type) where
  /-- The offset of its first byte. -/
  byte : UInt64
  /-- How many bytes it covers. -/
  len : UInt64
deriving Repr

namespace Field

variable {α : Type}

instance : DecidableEq (Field α) := fun f g =>
  decidable_of_iff (f.byte = g.byte ∧ f.len = g.len) (by cases f; cases g; simp)

/-- The field at an offset which covers exactly the bytes of its type. -/
def simple [Packed α] (byte : UInt64) : Field α := ⟨byte, .ofNat (Packed.size α)⟩

/-- The offset after the field, which wraps around. -/
def stop (f : Field α) : UInt64 := f.byte + f.len

/-- Whether the field lies in an image of the given length. -/
def Fits (f : Field α) (length : Nat) : Prop :=
  f.byte ≤ f.stop ∧ f.stop.toNat ≤ length

instance (f : Field α) (length : Nat) : Decidable (f.Fits length) :=
  inferInstanceAs (Decidable (_ ∧ _))

variable [Packed α]

/-- The value in the image. -/
def get (f : Field α) (image : Bytes) : Except PackingError α :=
  if f.Fits image.length then
    Packed.unpack (Bytes.window image f.byte.toNat f.len.toNat)
  else .error (.outOfBounds image.length)

/-- The image with the value written. -/
def set (f : Field α) (image : Bytes) (v : α) : Except PackingError Bytes :=
  if f.Fits image.length then
    (Packed.pack v (Bytes.window image f.byte.toNat f.len.toNat)).map
      (Bytes.splice image f.byte.toNat)
  else .error (.outOfBounds image.length)

/-- The value in the image, if it can be read. -/
def get? (f : Field α) (image : Bytes) : Option α := (f.get image).toOption

/-- The image with the value written where it fits. -/
def put (f : Field α) (image : Bytes) (v : α) : Bytes :=
  match f.set image v with
  | .ok written => written
  | .error _ => image

/-- The offset and the length, as diagnostics write them. -/
def text (f : Field α) : String :=
  "Field\x7b0x" ++ Hex.text f.byte.toNat ++ ", " ++ toString f.len.toNat ++ "\x7d"

end Field

end Servo
