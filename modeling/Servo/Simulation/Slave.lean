/-
One simulated slave: a drive with its dictionary, its application layer state,
its part of the process image and its application state machine.

The process image is packed by the assigned mappings: each entry follows the
one before it, at whole bytes. At an exchange the drive reads the control word
and the target torque wherever its mapping puts them, makes one transition,
and applies the torque once it is enabled; then it writes its values wherever
the other mapping puts those.
-/
import Servo.Bus
import Servo.Drive.State
import Servo.Simulation.Dictionary

namespace Servo.Simulation

structure Slave where
  al : AlState := .init
  alStatus : AlStatus := .noError
  dictionary : Dictionary := .initial
  /-- The states that are refused, with the status code each leaves; the first
  one of a state counts. -/
  refused : List (AlState × AlStatus) := []
  /-- How many more requests for operational are ignored in pre-operational. -/
  stuckInPreop : UInt32 := 0
  /-- The size of the image, where it does not follow from the mappings. -/
  imageOverride : Option Bus.SlaveImage := none
  outputs : Bytes := []
  inputs : Bytes := []
  drive : Drive.State := .notReady
  /-- Whether every control word is ignored. -/
  frozen : Bool := false
  position : Int32 := 0
  torque : Int16 := 0
  /-- The control words received so far, the oldest first. -/
  controlwords : List UInt16 := []
  /-- The torque applied at the last exchange. -/
  appliedTorque : Int16 := 0
deriving DecidableEq, Repr, Inhabited

namespace Slave

-- ====================================================== process image

/-- How many whole bytes the image of a mapping takes. -/
def imageBytes (mapping : List Pdo.Entry) : Nat := (Pdo.totalBits mapping + 7) / 8

/-- The size of the slave's part of the process image. -/
def image (s : Slave) : Bus.SlaveImage :=
  s.imageOverride.getD
    ⟨imageBytes (s.dictionary.assigned Pdo.receive.assign),
      imageBytes (s.dictionary.assigned Pdo.transmit.assign)⟩

/-- How many whole bytes an entry takes in the image. -/
def entryBytes (e : Pdo.Entry) : Nat := e.bits.toNat / 8

/-- The entries of a mapping, each with the offset of its bytes. -/
def place (offset : Nat) : List Pdo.Entry → List (Pdo.Entry × Nat)
  | [] => []
  | e :: rest => (e, offset) :: place (offset + entryBytes e) rest

/-- The last word of two bytes that the image holds for an index. -/
def word? (mapping : List Pdo.Entry) (index : UInt16) (image : Bytes) : Option UInt16 :=
  ((place 0 mapping).filterMap fun (e, offset) =>
    if e.index = index ∧ entryBytes e = 2 ∧ offset + 2 ≤ image.length then
      some (UInt16.ofNat (Bytes.toNat (Bytes.window image offset 2)))
    else none).getLast?

-- ==================================================== state machine

/-- The status word of the drive. -/
def statusword (s : Slave) : UInt16 :=
  match s.drive with
  | .notReady => 0x0200
  | .switchOnDisabled => 0x0240
  | .readyToSwitchOn => 0x0221
  | .switchedOn => 0x0233
  | .operationEnabled => 0x0237
  | .quickStopActive => 0x0217
  | .faultReactionActive => 0x021f
  | .fault => 0x0208

/-- The state after a control word, one transition at most. -/
def transition (drive : Drive.State) (controlword : UInt16) : Drive.State :=
  let voltage := controlword &&& 0x0002 ≠ 0
  let command := controlword &&& 0x008f
  match drive with
  | .notReady => .switchOnDisabled
  | .fault | .faultReactionActive =>
    if controlword &&& Drive.Command.faultReset.bits ≠ 0 then .switchOnDisabled else .fault
  | .switchOnDisabled | .quickStopActive =>
    if !voltage then .switchOnDisabled
    else if command = 0x0006 then .readyToSwitchOn
    else drive
  | .readyToSwitchOn =>
    if !voltage then .switchOnDisabled
    else if command = 0x0007 then .switchedOn
    else if command = 0x000f then .operationEnabled
    else .readyToSwitchOn
  | .switchedOn =>
    if !voltage then .switchOnDisabled
    else if command = 0x000f then .operationEnabled
    else if command = 0x0006 then .readyToSwitchOn
    else .switchedOn
  | .operationEnabled =>
    if !voltage then .switchOnDisabled
    else if command = 0x0007 then .switchedOn
    else if command = 0x0006 then .readyToSwitchOn
    else .operationEnabled

-- ========================================================= exchanging

/-- The control words received, each run of equal ones once. -/
def distinctControlwords (s : Slave) : List UInt16 := s.controlwords.eraseReps

/-- The slave after it reacted to a control word. -/
def command (s : Slave) (controlword : UInt16) : Slave :=
  { s with
    controlwords := s.controlwords ++ [controlword]
    drive := if s.frozen then s.drive else transition s.drive controlword }

/-- The slave after it took its outputs. -/
def readOutputs (s : Slave) : Slave :=
  let mapping := s.dictionary.assigned Pdo.receive.assign
  let s :=
    match word? mapping 0x6040 s.outputs with
    | some controlword => s.command controlword
    | none => s
  let applied : Int16 :=
    if s.drive = .operationEnabled then
      ((word? mapping 0x6071 s.outputs).map UInt16.toInt16).getD 0
    else 0
  { s with
    appliedTorque := applied
    torque := applied
    position := s.position + applied.toInt32 / 10 }

/-- The bytes that the slave has for a mapped object, zeros for an object that
it knows nothing of. -/
def valueBytes (s : Slave) (e : Pdo.Entry) : Bytes :=
  if e.index = 0x6041 then Packed.bytes s.statusword
  else if e.index = 0x6061 then [s.dictionary.byte ⟨0x6060, 0⟩]
  else if e.index = 0x6064 then Packed.bytes s.position
  else if e.index = 0x606c then Packed.bytes (s.torque.toInt32 * 100)
  else if e.index = 0x6077 then Packed.bytes s.torque
  else List.replicate (entryBytes e) 0

/-- The image with the value of an entry at its place, if that is inside. -/
def writeEntry (s : Slave) (image : Bytes) (placed : Pdo.Entry × Nat) : Bytes :=
  let len := entryBytes placed.1
  if placed.2 + len ≤ image.length then
    Bytes.splice image placed.2 ((s.valueBytes placed.1).take len)
  else image

/-- The slave after it filled its inputs. -/
def writeInputs (s : Slave) : Slave :=
  let mapping := s.dictionary.assigned Pdo.transmit.assign
  { s with inputs := (place 0 mapping).foldl s.writeEntry s.inputs }

/-- The slave after an exchange, and what it adds to the working counter. -/
def exchange (s : Slave) : Slave × UInt16 :=
  match s.al with
  | .operational => (s.readOutputs.writeInputs, 3)
  | .safeOperational => (s.writeInputs, 1)
  | _ => (s, 0)

/-- The slave after the process image was laid out. -/
def mapImage (s : Slave) : Slave :=
  { s with
    outputs := List.replicate s.image.outputBytes 0
    inputs := List.replicate s.image.inputBytes 0 }

-- ===================================================== changing state

/-- The slave after a request for a state. Only the state that the slave gives
itself while it boots is no answer to a request. -/
def request (s : Slave) (mapped : Bool) (target : AlState) : Except Bus.Fault Unit × Slave :=
  match s.refused.lookup target with
  | some status => (.ok (), { s with alStatus := status })
  | none =>
    if target = .operational ∧ s.al = .preOperational ∧ s.stuckInPreop ≠ 0 then
      (.ok (), { s with stuckInPreop := s.stuckInPreop - 1, alStatus := ⟨0x0011⟩ })
    else if (target = .safeOperational ∨ target = .operational) ∧ !mapped then
      (.ok (), { s with alStatus := ⟨0x001d⟩ })
    else if target = .bootstrap then
      (.error (.protocol "bootstrap cannot be requested"), s)
    else (.ok (), { s with al := target })

-- ========================================================= dictionary

/-- The abort codes of refused transactions. -/
def objectMissing : UInt32 := 0x06020000
def subindexMissing : UInt32 := 0x06090011
def generalAbort : UInt32 := 0x08000000
def wrongState : UInt32 := 0x08000022

/-- There are no transactions in the initial state. -/
def noMailbox : Bus.Fault := .master "mailbox unavailable in INIT"

/-- The bytes of an item, as a transaction reads it. The shown operation mode
follows the requested one. -/
def readItem (s : Slave) (slave : UInt16) (a : Address) : Except Bus.Fault Bytes :=
  if s.al = .init then .error noMailbox
  else
    match s.dictionary.get? a with
    | some data => .ok (if a.index = 0x6061 then [s.dictionary.byte ⟨0x6060, 0⟩] else data)
    | none =>
      let abort := if s.dictionary.hasIndex a.index then subindexMissing else objectMissing
      .error (.sdo slave a abort)

/-- The assignment object that must be zero while a mapping object is changed. -/
def assignmentOf? (index : UInt16) : Option UInt16 :=
  if 0x1600 ≤ index ∧ index ≤ 0x17ff then some Pdo.receive.assign
  else if 0x1a00 ≤ index ∧ index ≤ 0x1bff then some Pdo.transmit.assign
  else none

/-- Whether an item can be written now. Mappings are changed in pre-operational
only, while they are not assigned, and their entries while they are disabled;
assignments are changed in pre-operational only. -/
def isWritable (s : Slave) (a : Address) : Bool :=
  match assignmentOf? a.index with
  | some assign =>
    s.al = .preOperational && s.dictionary.byte ⟨assign, 0⟩ = 0 &&
      (a.sub = 0 || s.dictionary.byte ⟨a.index, 0⟩ = 0)
  | none =>
    (a.index ≠ Pdo.receive.assign && a.index ≠ Pdo.transmit.assign) || s.al = .preOperational

/-- The slave after a transaction wrote an item. -/
def writeItem (s : Slave) (slave : UInt16) (a : Address) (data : Bytes) :
    Except Bus.Fault Unit × Slave :=
  if s.al = .init then (.error noMailbox, s)
  else if (s.dictionary.get? a).isNone then (.error (.sdo slave a objectMissing), s)
  else if !s.isWritable a then (.error (.sdo slave a wrongState), s)
  else (.ok (), { s with dictionary := s.dictionary.put a data })

end Slave

end Servo.Simulation
