/-
Giving a slave a mapping, by transactions on its dictionary.

A mapping may only be changed while it is disabled, its subindex 0 being zero,
and many drives refuse even that while the mapping is assigned. So a change
takes these steps:

1. disable the assignment
2. disable the mapping
3. write the entries
4. enable the mapping
5. restore the assignment
6. read the number of entries back

The slave must be in its pre-operational state. A slave that holds the wanted
mapping already is not written to at all. Any step can fail, and ends the
negotiation then: the failure names the step, and whatever was disabled by
then stays so.
-/
import Servo.Bus
import Servo.Pdo

namespace Servo.Negotiation

/-- A step of a negotiation. -/
inductive Step
  | readCurrent
  | disableAssignment
  | disableMapping
  /-- Writing the entry at a subindex. -/
  | writeEntry (sub : UInt8)
  | enableMapping
  | restoreAssignment
  | verify
deriving DecidableEq, Repr

def Step.name : Step → String
  | readCurrent => "ReadCurrent"
  | disableAssignment => "DisableAssignment"
  | disableMapping => "DisableMapping"
  | writeEntry sub => "WriteEntry(" ++ toString sub.toNat ++ ")"
  | enableMapping => "EnableMapping"
  | restoreAssignment => "RestoreAssignment"
  | verify => "Verify"

/-- Why a slave does not have the wanted mapping, or which it has is unknown. -/
inductive Error
  /-- A step failed. -/
  | failed (map : UInt16) (step : Step) (source : Bus.Fault)
  /-- Another number of entries was read back than written. -/
  | unverified (map : UInt16) (expected found : UInt8)
  /-- The mapping has more bits than there is room for. -/
  | tooLarge (map : UInt16) (bits capacity : Nat)
deriving DecidableEq, Repr

namespace Error

def message : Error → String
  | failed map step source =>
    "pdo mapping " ++ Address.indexText map ++ ": step " ++ step.name ++ " failed: " ++
      source.message
  | unverified map expected found =>
    "pdo mapping " ++ Address.indexText map ++ ": " ++ toString found.toNat ++
      " entries read back, " ++ toString expected.toNat ++ " written"
  | tooLarge map bits capacity =>
    "pdo mapping " ++ Address.indexText map ++ ": " ++ toString bits ++
      " bits exceeds the capacity of " ++ toString capacity ++ " bits"

/-- The fault behind the error, if there is one. -/
def source? : Error → Option Bus.Fault
  | failed _ _ source => some source
  | _ => none

end Error

/-- How a slave came to have the wanted mapping. -/
inductive Outcome
  /-- It was written and verified. -/
  | applied
  /-- The slave had it already, nothing was written. -/
  | unchanged
deriving DecidableEq, Repr, Inhabited

/-- The number of entries of a mapping or an assignment. -/
def count (index : UInt16) : DataObject UInt8 := .whole _ index

/-- The entry of a mapping at a subindex. -/
def entry (index : UInt16) (sub : UInt8) : DataObject Pdo.Entry := .item _ index sub

-- ============================================================ reading

/-- Whether a mapping holds the given entries from a subindex on. It is read up
to the first entry that differs or cannot be read. -/
def holds (slave map : UInt16) : UInt8 → List Pdo.Entry → BusProgram Bool
  | _, [] => return true
  | sub, wanted :: rest => do
    match ← (entry map sub).read slave with
    | .ok found => if found = wanted then holds slave map (sub + 1) rest else return false
    | .error _ => return false

/-- Whether a mapping is the wanted one already. -/
def isCurrent (slave map : UInt16) (target : List Pdo.Entry) : BusProgram Bool := do
  match ← (count map).read slave with
  | .ok current => if current = .ofNat target.length then holds slave map 1 target else return false
  | .error _ => return false

/-- The assignment to restore afterwards: the one that is there, or else an
assignment of this object alone. -/
def assignmentToRestore (slave assign : UInt16) : BusProgram UInt8 := do
  match ← (count assign).read slave with
  | .ok assignment => return if assignment = 0 then 1 else assignment
  | .error _ => return 1

-- ============================================================ writing

/-- A step whose fault ends the negotiation. -/
def attempt {α : Type} (map : UInt16) (step : Step) (p : BusProgram (Except Bus.Fault α)) :
    ExceptT Error BusProgram α :=
  ExceptT.mk do return (← p).mapError (.failed map step)

/-- Writes entries from a subindex on. -/
def writeEntries (slave map : UInt16) : UInt8 → List Pdo.Entry → ExceptT Error BusProgram Unit
  | _, [] => return
  | sub, value :: rest => do
    attempt map (.writeEntry sub) ((entry map sub).write slave value)
    writeEntries slave map (sub + 1) rest

/-- Writes a mapping and verifies it. -/
def replace (slave : UInt16) (pdo : Pdo) (target : List Pdo.Entry) :
    ExceptT Error BusProgram Unit := do
  let map := pdo.index
  let length : UInt8 := .ofNat target.length
  let assignment ← assignmentToRestore slave pdo.assign
  attempt map .disableAssignment ((count pdo.assign).write slave 0)
  attempt map .disableMapping ((count map).write slave 0)
  writeEntries slave map 1 target
  attempt map .enableMapping ((count map).write slave length)
  attempt map .restoreAssignment ((count pdo.assign).write slave assignment)
  let found ← attempt map .verify ((count map).read slave)
  if found ≠ length then throw (.unverified map length found)

/-- Gives a slave a mapping, unless it has it already. `capacity` is the number
of bits there are for it, where that is known. -/
def negotiate (slave : UInt16) (pdo : Pdo) (target : List Pdo.Entry) (capacity : Option Nat) :
    BusProgram (Except Error Outcome) := do
  let bits := Pdo.totalBits target
  let room := capacity.getD bits
  if Pdo.maxEntries < target.length ∨ room < bits then
    return .error (.tooLarge pdo.index bits room)
  if ← isCurrent slave pdo.index target then
    return .ok .unchanged
  return (← (replace slave pdo target).run).map fun _ => .applied

-- ========================================================== describing

/-- The entries of a mapping from a subindex on, `n` of them. -/
def entries (slave map : UInt16) : UInt8 → Nat → ExceptT Error BusProgram (List Pdo.Entry)
  | _, 0 => return []
  | sub, n + 1 => do
    let value ← attempt map .readCurrent ((entry map sub).read slave)
    return value :: (← entries slave map (sub + 1) n)

/-- The mapping that a slave has. -/
def describe (slave map : UInt16) : BusProgram (Except Error (List Pdo.Entry)) :=
  ExceptT.run do
    let length ← attempt map .readCurrent ((count map).read slave)
    entries slave map 1 (min length.toNat Pdo.maxEntries)

end Servo.Negotiation
