/-
The bus as the programs of this library see it: an interface of requests.

A bus is whatever finds the slaves of a segment, carries transactions on their
dictionaries, and exchanges the process image. Slaves are numbered from one in
the order of the segment. Most requests can fail, and a failure is part of the
answer (`Bus.Fault`), so that a program decides itself what a failure means.

A slave's part of the process image lies with the bus. A program asks for the
output bytes, and hands back the bytes to be sent by the next exchange; the
input bytes are those that the last exchange received.
-/
import Servo.Program
import Servo.DataObject
import Servo.Slave.AlState
import Servo.Slave.AlStatus

namespace Servo

namespace Bus

/-- What went wrong on the bus. -/
inductive Fault
  /-- A cause outside this library. -/
  | io (text : String)
  /-- A slave refused a transaction on its dictionary. -/
  | sdo (slave : UInt16) (address : Address) (abort : UInt32)
  /-- A slave reported an error outside any transaction. -/
  | slaveError (slave : UInt16)
  /-- The bus cannot do this now. -/
  | master (text : String)
  /-- The communication is broken. -/
  | protocol (text : String)
  /-- Too much time went by. -/
  | timeout (text : String)
deriving DecidableEq, Repr

namespace Fault

def message : Fault → String
  | io text => "io: " ++ text
  | sdo slave address abort =>
    "sdo " ++ address.text ++ " on slave " ++ toString slave.toNat ++
      " failed (abort code 0x" ++ Hex.padded 8 abort.toNat ++ ")"
  | slaveError slave => "slave " ++ toString slave.toNat ++ " reported an error"
  | master text => "master: " ++ text
  | protocol text => "protocol: " ++ text
  | timeout text => "timeout: " ++ text

/-- A value that cannot be packed or unpacked is a fault of the protocol. -/
def ofPacking (e : PackingError) : Fault := protocol e.text

end Fault

/-- The state of a slave as read back from it. -/
structure Status where
  /-- The state, none for a mixed or undefined one. -/
  state : Option AlState
  alStatus : AlStatus
deriving DecidableEq, Repr, Inhabited

/-- The size of a slave's part of the process image. -/
structure SlaveImage where
  /-- How many bytes the master writes. -/
  outputBytes : Nat
  /-- How many bytes the master reads. -/
  inputBytes : Nat
deriving DecidableEq, Repr, Inhabited

/-- How the process image was laid out. -/
structure ImageMap where
  /-- The image of each slave, in the order of the segment. -/
  slaves : List SlaveImage
  /-- How many datagrams count when outputs are written. -/
  outputsWkc : UInt16
  /-- How many datagrams count when inputs are read. -/
  inputsWkc : UInt16
deriving DecidableEq, Repr, Inhabited

/-- The element of a list for a slave, which is numbered from one. -/
def ofSlave? {α : Type} (list : List α) (slave : UInt16) : Option α :=
  if slave = 0 then none else list[slave.toNat - 1]?

/-- The image of a slave, if it has one. -/
def ImageMap.slave? (map : ImageMap) (slave : UInt16) : Option SlaveImage :=
  ofSlave? map.slaves slave

/-- The working counter of a cycle in which every slave took part, stopping at
the largest word: a slave that is written to counts twice. -/
def ImageMap.expectedWkc (map : ImageMap) : UInt16 :=
  .ofNat (min (min (2 * map.outputsWkc.toNat) 65535 + map.inputsWkc.toNat) 65535)

/-- A request to the bus. -/
inductive Request
  /-- Open a network interface. -/
  | init (interface : String)
  /-- Find the slaves, and answer their number. -/
  | discover
  /-- Set up the distributed clocks. -/
  | clocks
  /-- Lay out the process image. -/
  | map
  /-- Ask a slave for a state, without waiting for it. -/
  | setState (slave : UInt16) (target : AlState)
  /-- Read the state of a slave. -/
  | state (slave : UInt16)
  /-- Forget the last refusal of a slave. -/
  | clearAl (slave : UInt16)
  /-- Send all outputs and receive all inputs, and answer the working counter. -/
  | exchange
  /-- Read an item of a dictionary into a buffer of `capacity` bytes, and answer
  the bytes that were received. -/
  | sdoRead (slave : UInt16) (address : Address) (capacity : Nat)
  /-- Write an item of a dictionary. -/
  | sdoWrite (slave : UInt16) (address : Address) (data : Bytes)
  /-- The output bytes of a slave as they stand. -/
  | outputs (slave : UInt16)
  /-- Replace the output bytes of a slave. -/
  | setOutputs (slave : UInt16) (bytes : Bytes)
  /-- The input bytes of a slave as last received. -/
  | inputs (slave : UInt16)
  /-- Give the network interface back. -/
  | close
deriving DecidableEq, Repr

/-- The answer to a request. -/
@[reducible] def Request.Answer : Request → Type
  | init _ => Except Fault Unit
  | discover => Except Fault UInt16
  | clocks => Except Fault Unit
  | map => Except Fault ImageMap
  | setState _ _ => Except Fault Unit
  | state _ => Except Fault Status
  | clearAl _ => Unit
  | exchange => Except Fault UInt16
  | sdoRead _ _ _ => Except Fault Bytes
  | sdoWrite _ _ _ => Except Fault Unit
  | outputs _ => Bytes
  | setOutputs _ _ => Unit
  | inputs _ => Bytes
  | close => Unit

/-- The requests to a bus and their answers. -/
@[reducible] def interface : Interface := ⟨Request, Request.Answer⟩

end Bus

/-- A program that talks to the bus and to nothing else. -/
abbrev BusProgram (α : Type) := Program Bus.interface α

namespace Bus

/-- The program that makes one request of the bus. -/
def perform (r : Request) : BusProgram r.Answer := Program.request r Program.done

def init (name : String) : BusProgram (Except Fault Unit) := perform (.init name)
def discover : BusProgram (Except Fault UInt16) := perform .discover
def clocks : BusProgram (Except Fault Unit) := perform .clocks
def map : BusProgram (Except Fault ImageMap) := perform .map
def setState (slave : UInt16) (target : AlState) : BusProgram (Except Fault Unit) :=
  perform (.setState slave target)
def state (slave : UInt16) : BusProgram (Except Fault Status) := perform (.state slave)
def clearAl (slave : UInt16) : BusProgram Unit := perform (.clearAl slave)
def exchange : BusProgram (Except Fault UInt16) := perform .exchange
def sdoRead (slave : UInt16) (address : Address) (capacity : Nat) :
    BusProgram (Except Fault Bytes) :=
  perform (.sdoRead slave address capacity)
def sdoWrite (slave : UInt16) (address : Address) (data : Bytes) :
    BusProgram (Except Fault Unit) :=
  perform (.sdoWrite slave address data)
def outputs (slave : UInt16) : BusProgram Bytes := perform (.outputs slave)
def setOutputs (slave : UInt16) (bytes : Bytes) : BusProgram Unit :=
  perform (.setOutputs slave bytes)
def inputs (slave : UInt16) : BusProgram Bytes := perform (.inputs slave)
def close : BusProgram Unit := perform .close

end Bus

namespace DataObject

variable {α : Type} [Packed α]

/-- Reads the object from a slave. A slave may send fewer bytes than the type
takes, the missing ones are zeros. -/
def read (object : DataObject α) (slave : UInt16) : BusProgram (Except Bus.Fault α) := do
  match ← Bus.sdoRead slave object.address (Packed.size α) with
  | .error fault => return .error fault
  | .ok received =>
    return (Packed.unpack (Bytes.fit (Packed.size α) received)).mapError Bus.Fault.ofPacking

/-- Writes the object of a slave. -/
def write (object : DataObject α) (slave : UInt16) (value : α) :
    BusProgram (Except Bus.Fault Unit) :=
  Bus.sdoWrite slave object.address (Packed.bytes value)

end DataObject

end Servo
