/-
Process data objects: which objects of the dictionary are exchanged in every
cycle, and in which order.

An entry packs the address of an object and its length in bits into the word
that a mapping object holds for it. A mapping is a list of entries, and is
limited to `Pdo.maxEntries`; nothing pads the entries, so the bits of a
mapping are the sum of theirs.
-/
import Servo.DataObject

namespace Servo

/-- A configurable process data object: where its mapping is written, and the
object that lists it for exchange. -/
structure Pdo where
  /-- The index of the mapping object. -/
  index : UInt16
  /-- The index of the assignment object that lists it. -/
  assign : UInt16
deriving DecidableEq, Repr

namespace Pdo

/-- An entry of a mapping: index in the high half, then subindex, then length
in bits. -/
structure Entry where
  raw : UInt32
deriving DecidableEq, Repr, Inhabited

namespace Entry

def make (index : UInt16) (sub bits : UInt8) : Entry :=
  ⟨(index.toUInt32 <<< 16) ||| (sub.toUInt32 <<< 8) ||| bits.toUInt32⟩

/-- The entry that maps an object at the length of its type. -/
def ofObject {α : Type} [Packed α] (object : DataObject α) : Entry :=
  make object.address.index object.address.sub (.ofNat (Packed.bits α))

def index (e : Entry) : UInt16 := (e.raw >>> 16).toUInt16

def sub (e : Entry) : UInt8 := (e.raw >>> 8).toUInt8

def bits (e : Entry) : UInt8 := e.raw.toUInt8

def text (e : Entry) : String :=
  Address.indexText e.index ++ ":" ++ Hex.padded 2 e.sub.toNat ++
    " (" ++ toString e.bits.toNat ++ " bits)"

instance : Packed Entry where
  size := 4
  word e := e.raw.toNat
  ofWord n := .ok ⟨.ofNat n⟩

instance : LawfulPacked Entry where
  word_lt e := e.raw.toNat_lt
  ofWord_word e := congrArg (Except.ok ∘ Entry.mk) (UInt32.ofNat_toNat (x := e.raw))
  word_of_ofWord hn h := by
    cases h
    exact UInt32.toNat_ofNat_of_lt' hn

end Entry

/-- The most entries that a mapping can have. -/
def maxEntries : Nat := 8

/-- How many bits a mapping takes. -/
def totalBits : (mapping : List Entry) → Nat
  | [] => 0
  | e :: rest => e.bits.toNat + totalBits rest

/-- The first receive object, from the master to the slave. -/
def receive : Pdo := ⟨0x1600, 0x1c12⟩

/-- The first transmit object, from the slave to the master. -/
def transmit : Pdo := ⟨0x1a00, 0x1c13⟩

open DataObject.Standard in
/-- What a drive receives by default. -/
def defaultReceive : List Entry :=
  [.ofObject controlword, .ofObject modeOfOperation, .ofObject targetTorque,
    .ofObject targetPosition]

open DataObject.Standard in
/-- What a drive transmits by default. -/
def defaultTransmit : List Entry :=
  [.ofObject statusword, .ofObject modeDisplay, .ofObject positionActual,
    .ofObject torqueActual]

end Pdo

end Servo
