/-
A simulated segment: a line of simulated slaves behind one interface, which
answers every request to a bus.

The slaves must be found before they can be asked for anything, and the
process image must be laid out before it is exchanged; closing the bus takes
the interface and the image away. A working counter adds up what each slave
takes part in, in a word of sixteen bits. Writes to chosen items can be made
to fail, and a number of exchanges can be made to count one too few.

The segment keeps a log of the transactions and of the requests for states,
the oldest first. A transaction that fails is logged only if it writes.
-/
import Servo.Simulation.Slave

namespace Servo.Simulation

/-- A transaction on the dictionary of a slave. -/
structure Transaction where
  slave : UInt16
  address : Address
  /-- The bytes written, or the bytes of the item read. -/
  data : Bytes
  isWrite : Bool
deriving DecidableEq, Repr, Inhabited

structure Segment where
  slaves : List Slave
  /-- Whether an interface is open. -/
  isOpen : Bool := false
  discovered : Bool := false
  mapped : Bool := false
  closed : Bool := false
  /-- Whether some slave has a distributed clock. -/
  hasClocks : Bool := true
  exchanges : UInt64 := 0
  /-- How many more exchanges count one too few. -/
  degraded : UInt32 := 0
  /-- The items that cannot be written. -/
  failingWrites : List Address := []
  transactions : List Transaction := []
  stateRequests : List (UInt16 × AlState) := []
deriving DecidableEq, Repr, Inhabited

namespace Segment

/-- A segment of new slaves. -/
def ofCount (count : Nat) : Segment where
  slaves := List.replicate count {}

/-- The slave of a number. -/
def slave? (g : Segment) (slave : UInt16) : Option Slave := Bus.ofSlave? g.slaves slave

/-- The segment with a slave replaced. -/
def setSlave (g : Segment) (slave : UInt16) (s : Slave) : Segment :=
  { g with slaves := g.slaves.set (slave.toNat - 1) s }

/-- The slave of a number once the slaves are found. -/
def find (g : Segment) (slave : UInt16) : Except Bus.Fault Slave :=
  if !g.discovered then .error (.master "slaves not discovered")
  else
    match g.slave? slave with
    | some s => .ok s
    | none => .error (.slaveError slave)

-- ============================================================ requests

def init (g : Segment) : Except Bus.Fault Unit × Segment :=
  if g.closed then (.error (.master "transport closed"), g)
  else (.ok (), { g with isOpen := true })

def discover (g : Segment) : Except Bus.Fault UInt16 × Segment :=
  if !g.isOpen then (.error (.master "transport not initialized"), g)
  else (.ok (.ofNat g.slaves.length), { g with discovered := true })

def clocks (g : Segment) : Except Bus.Fault Unit :=
  if g.hasClocks then .ok () else .error (.master "no slave supporting distributed clocks")

def map (g : Segment) : Except Bus.Fault Bus.ImageMap × Segment :=
  if !g.discovered then (.error (.master "slaves not discovered"), g)
  else
    let count : UInt16 := .ofNat g.slaves.length
    (.ok ⟨g.slaves.map Slave.image, count, count⟩,
      { g with slaves := g.slaves.map Slave.mapImage, mapped := true })

def setState (g : Segment) (slave : UInt16) (target : AlState) :
    Except Bus.Fault Unit × Segment :=
  let g := { g with stateRequests := g.stateRequests ++ [(slave, target)] }
  match g.find slave with
  | .error fault => (.error fault, g)
  | .ok s =>
    let (result, s) := s.request g.mapped target
    (result, g.setSlave slave s)

def state (g : Segment) (slave : UInt16) : Except Bus.Fault Bus.Status :=
  (g.find slave).map fun s => ⟨some s.al, s.alStatus⟩

def clearAl (g : Segment) (slave : UInt16) : Segment :=
  match g.find slave with
  | .error _ => g
  | .ok s => g.setSlave slave { s with alStatus := .noError }

def exchange (g : Segment) : Except Bus.Fault UInt16 × Segment :=
  if !g.mapped then (.error (.master "process image not mapped"), g)
  else
    let results := g.slaves.map Slave.exchange
    let wkc := (results.map Prod.snd).foldl (· + ·) 0
    let g := { g with slaves := results.map Prod.fst, exchanges := g.exchanges + 1 }
    if g.degraded = 0 then (.ok wkc, g)
    else (.ok (if wkc = 0 then 0 else wkc - 1), { g with degraded := g.degraded - 1 })

def sdoRead (g : Segment) (slave : UInt16) (a : Address) (capacity : Nat) :
    Except Bus.Fault Bytes × Segment :=
  match (g.find slave).bind (·.readItem slave a) with
  | .error fault => (.error fault, g)
  | .ok data =>
    (.ok (data.take capacity),
      { g with transactions := g.transactions ++ [⟨slave, a, data, false⟩] })

def sdoWrite (g : Segment) (slave : UInt16) (a : Address) (data : Bytes) :
    Except Bus.Fault Unit × Segment :=
  let g := { g with transactions := g.transactions ++ [⟨slave, a, data, true⟩] }
  if a ∈ g.failingWrites then (.error (.sdo slave a Slave.generalAbort), g)
  else
    match g.find slave with
    | .error fault => (.error fault, g)
    | .ok s =>
      let (result, s) := s.writeItem slave a data
      (result, g.setSlave slave s)

def outputs (g : Segment) (slave : UInt16) : Bytes :=
  ((g.slave? slave).map Slave.outputs).getD []

def setOutputs (g : Segment) (slave : UInt16) (bytes : Bytes) : Segment :=
  match g.slave? slave with
  | none => g
  | some s => g.setSlave slave { s with outputs := Bytes.overwrite s.outputs bytes }

def inputs (g : Segment) (slave : UInt16) : Bytes :=
  ((g.slave? slave).map Slave.inputs).getD []

def close (g : Segment) : Segment :=
  { g with closed := true, mapped := false, isOpen := false }

/-- The answer to a request, and the segment after it. -/
def answer : (r : Bus.Request) → StateM Segment r.Answer
  | .init _ => init
  | .discover => discover
  | .clocks => fun g => (g.clocks, g)
  | .map => map
  | .setState slave target => fun g => g.setState slave target
  | .state slave => fun g => (g.state slave, g)
  | .clearAl slave => fun g => ((), g.clearAl slave)
  | .exchange => exchange
  | .sdoRead slave a capacity => fun g => g.sdoRead slave a capacity
  | .sdoWrite slave a data => fun g => g.sdoWrite slave a data
  | .outputs slave => fun g => (g.outputs slave, g)
  | .setOutputs slave bytes => fun g => ((), g.setOutputs slave bytes)
  | .inputs slave => fun g => (g.inputs slave, g)
  | .close => fun g => ((), g.close)

-- ========================================================== the probe

/-- What can be changed from outside, past all rules of the bus. Nothing where
there is no slave of that number. -/
def edit? (g : Segment) (slave : UInt16) (change : Slave → Slave) : Option Segment :=
  (g.slave? slave).map fun s => g.setSlave slave (change s)

/-- The writes among the transactions. -/
def writes (g : Segment) : List Transaction := g.transactions.filter Transaction.isWrite

/-- The segment with its logs emptied. -/
def clearLogs (g : Segment) : Segment :=
  { g with
    transactions := []
    stateRequests := []
    slaves := g.slaves.map fun s => { s with controlwords := [] } }

end Segment

namespace Slave

/-- The slave once it fell back to a state, as after its watchdog expired. -/
def dropTo (s : Slave) (state : AlState) : Slave := { s with al := state, alStatus := ⟨0x001b⟩ }

/-- The slave with every request for a state refused. -/
def refuse (s : Slave) (state : AlState) (status : AlStatus) : Slave :=
  { s with refused := (state, status) :: s.refused }

end Slave

end Servo.Simulation
