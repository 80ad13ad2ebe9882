/-
A test bench: a simulated segment, rules that make it misbehave, and a board
to talk to a cyclic exchange over.

The bench is one value, and everything that happens on it is a function from
it to an answer and the next bench. It stands between the programs of this
library and the simulation: it records each request, applies the first rule
that does, and asks the simulation otherwise. The bus is at hand on the bench,
or belongs to an exchange or to a master that was given it, or is lost.

Something that breaks down, because a rule says so or because a slave is named
that does not exist, ends what is being done but keeps the bench as it is then.
-/
import Servo.Bench.Rule
import Servo.Simulation.Segment
import Servo.Master

namespace Servo

namespace Bench

/-- A cyclic side that was given the bus: what it was told, and where it is. -/
structure Runner where
  settings : Cyclic.Settings
  state : Cyclic.State
deriving DecidableEq, Repr

/-- A master on the bench, with a board of its own. -/
structure Station where
  runner : Runner
  board : Board := {}
  /-- Whether the cyclic side broke down. -/
  broken : Bool := false
  /-- The number of slaves that were found. -/
  slaves : UInt16 := 0
deriving DecidableEq, Repr

/-- Who has the bus. -/
inductive Holder
  | bench
  /-- An exchange; it keeps the flags it was made with if the bench has new ones. -/
  | exchange (runner : Runner) (flags : Option Control)
  | master (station : Station)
  | nobody
deriving DecidableEq, Repr

/-- What a step needs and does not find. -/
inductive Missing
  | transport
  | exchange
  | master
deriving DecidableEq, Repr

def Missing.message : Missing → String
  | transport => "no transport"
  | exchange => "no cyclic exchange"
  | master => "no master"

/-- Why a step has no answer of its own. -/
inductive Halt
  | panic
  | missing (what : Missing)
deriving DecidableEq, Repr

end Bench

structure Bench where
  segment : Simulation.Segment
  rules : List Bench.Rule
  /-- The requests so far that rules can see, the oldest first. -/
  calls : List Bus.Request
  /-- The inputs that a rule shows in place of those of a slave. -/
  shown : Option (UInt16 × Bytes)
  board : Board
  /-- The time in nanoseconds. -/
  clock : Nat
  holder : Bench.Holder
  config : Config
  layout : Layout
deriving DecidableEq, Repr

/-- Something done on the bench. -/
abbrev BenchM := ExceptT Bench.Halt (StateM Bench)

namespace Bench

/-- A bench with a segment of new slaves. -/
def make (slaves : Nat) (config : Config) (layout : Layout) : Bench where
  segment := .ofCount slaves
  rules := []
  calls := []
  shown := none
  board := {}
  clock := 0
  holder := .bench
  config
  layout

-- ======================================================= the segment

/-- Does something with the segment. -/
def onSegment {α : Type} (p : StateM Simulation.Segment α) : BenchM α := do
  let bench ← get
  let (result, segment) := p.run bench.segment
  set { bench with segment }
  return result

/-- Changes a slave past the bus, and breaks down if there is no such slave. -/
def editSlave (slave : UInt16) (change : Simulation.Slave → Simulation.Slave) : BenchM Unit := do
  let bench ← get
  match bench.segment.edit? slave change with
  | some segment => set { bench with segment }
  | none => throw .panic

/-- The slave of a number, or a breakdown if there is none. -/
def slave (slave : UInt16) : BenchM Simulation.Slave := do
  match (← get).segment.slave? slave with
  | some s => return s
  | none => throw .panic

/-- Changes the segment past the bus. -/
def editSegment (change : Simulation.Segment → Simulation.Segment) : BenchM Unit :=
  modify fun bench => { bench with segment := change bench.segment }

-- ============================================================== rules

/-- The effect of a rule on the bench. -/
def applyEffect : Effect → BenchM Unit
  | .fault slave => editSlave slave fun s => { s with drive := .fault }
  | .dropTo slave state => editSlave slave (·.dropTo state)
  | .degrade exchanges => editSegment fun g => { g with degraded := exchanges }
  | .stop => modify fun bench => { bench with board := bench.board.act .raiseStop }
  | .reenable => modify fun bench => { bench with board := bench.board.act .reenable }
  | .torque setpoint =>
    modify fun bench => { bench with board := bench.board.act (.setTargetTorque setpoint) }

/-- Records a request, and finds out what becomes of it. -/
def judge (r : Bus.Request) : BenchM Verdict := do
  match Subject.of? r with
  | none => return .change .nothing
  | some subject =>
    let bench ← get
    let (rule, rules) := Rule.select subject bench.rules
    set { bench with calls := bench.calls ++ [r], rules }
    match rule with
    | none => return .change .nothing
    | some rule =>
      rule.before.forM applyEffect
      return rule.verdict

/-- The answer to a request under a change. -/
def changed (change : Change) : (r : Bus.Request) → BenchM r.Answer
  | .discover => do
    let result ← onSegment (Simulation.Segment.answer .discover)
    match change with
    | .found slaves => return result.map fun _ => slaves
    | _ => return result
  | .map => do
    let result ← onSegment (Simulation.Segment.answer .map)
    match change with
    | .image map => return result.map fun _ => map
    | _ => return result
  | .setState slave target =>
    match change with
    | .ignored => return .ok ()
    | _ => onSegment (Simulation.Segment.answer (.setState slave target))
  | .state slave => do
    let result ← onSegment (Simulation.Segment.answer (.state slave))
    match change with
    | .status status => return result.map fun _ => status
    | _ => return result
  | .exchange => do
    modify fun bench => { bench with shown := none }
    let result ← onSegment (Simulation.Segment.answer .exchange)
    match change, result with
    | .exchanged wkc inputs, .ok counted => do
      modify fun bench => { bench with shown := inputs }
      return .ok (wkc.getD counted)
    | _, _ => return result
  | .sdoRead slave a capacity =>
    match change with
    | .data bytes => return .ok (bytes.take capacity)
    | _ => onSegment (Simulation.Segment.answer (.sdoRead slave a capacity))
  | .sdoWrite slave a data =>
    match change with
    | .ignored => return .ok ()
    | _ => onSegment (Simulation.Segment.answer (.sdoWrite slave a data))
  | .inputs slave => do
    match (← get).shown with
    | some (shown, bytes) =>
      if shown = slave then return bytes
      else onSegment (Simulation.Segment.answer (.inputs slave))
    | none => onSegment (Simulation.Segment.answer (.inputs slave))
  | r => onSegment (Simulation.Segment.answer r)

/-- The answer that a fault is, where a request can fail. -/
def failed (fault : Bus.Fault) : (r : Bus.Request) → Option r.Answer
  | .init _ => some (.error fault)
  | .discover => some (.error fault)
  | .clocks => some (.error fault)
  | .map => some (.error fault)
  | .setState _ _ => some (.error fault)
  | .state _ => some (.error fault)
  | .exchange => some (.error fault)
  | .sdoRead _ _ _ => some (.error fault)
  | .sdoWrite _ _ _ => some (.error fault)
  | .clearAl _ | .close | .outputs _ | .setOutputs _ _ | .inputs _ => none

/-- The answer of the bench to a request. -/
def answer (r : Bus.Request) : BenchM r.Answer := do
  match ← judge r with
  | .panic => throw .panic
  | .fail fault =>
    match failed fault r with
    | some result => return result
    | none => changed .nothing r
  | .change change => changed change r

-- =========================================================== programs

/-- Runs a program of the bus, whoever has it. -/
def onBus {α : Type} (p : BusProgram α) : BenchM α := p.run answer

/-- The time, which goes on whenever it is looked at. -/
def tick : BenchM Duration := do
  let bench ← get
  set { bench with clock := bench.clock + 1 }
  return .ofNanoseconds (bench.clock + 1)

/-- The board of the bench, with the flags that the exchange there knows. -/
def ownSeat : Cyclic.Seat BenchM where
  board := do
    let bench ← get
    match bench.holder with
    | .exchange _ (some flags) => return { bench.board with control := flags }
    | _ => return bench.board
  setBoard board := modify fun bench =>
    match bench.holder with
    | .exchange runner (some _) =>
      { bench with
        holder := .exchange runner (some board.control)
        board.register := board.register }
    | _ => { bench with board }
  now := tick

/-- The master on the bench. -/
def station : BenchM Station := do
  match (← get).holder with
  | .master station => return station
  | _ => throw (.missing .master)

/-- Changes the master on the bench. -/
def editStation (change : Station → Station) : BenchM Unit :=
  modify fun bench =>
    match bench.holder with
    | .master station => { bench with holder := .master (change station) }
    | _ => bench

/-- The board of the master. -/
def masterSeat : Cyclic.Seat BenchM where
  board := return (← station).board
  setBoard board := editStation ({ · with board })
  now := tick

/-- Runs a program of the cyclic side on a board. -/
def onSeat {α : Type} (seat : Cyclic.Seat BenchM) (p : CyclicProgram α) : BenchM α :=
  p.run (Cyclic.answer answer seat)

-- ======================================================== who has it

/-- Whether the bus is at hand, on the bench or with an exchange there. -/
def hasBus : BenchM Bool := do
  match (← get).holder with
  | .bench | .exchange _ _ => return true
  | .master _ | .nobody => return false

/-- Fails unless the bus is at hand. -/
def needBus : BenchM Unit := do
  unless ← hasBus do throw (.missing .transport)

/-- The exchange on the bench. -/
def runner : BenchM Runner := do
  match (← get).holder with
  | .exchange runner _ => return runner
  | _ => throw (.missing .exchange)

/-- Changes where the exchange on the bench is. -/
def setState (state : Cyclic.State) : BenchM Unit :=
  modify fun bench =>
    match bench.holder with
    | .exchange runner flags => { bench with holder := .exchange { runner with state } flags }
    | _ => bench

/-- Gives the bus to a new exchange. -/
def startExchange (expectedWkc : UInt16) : BenchM Unit := do
  let bench ← get
  match bench.holder with
  | .bench =>
    let settings := ⟨bench.config.slave, bench.layout, bench.config.timing, expectedWkc⟩
    set { bench with holder := .exchange ⟨settings, {}⟩ none }
  | _ => throw (.missing .transport)

/-- Takes the bus back from the exchange. -/
def endExchange : BenchM Unit := do
  let _ ← runner
  modify fun bench => { bench with holder := .bench }

/-- Lays new flags on the bench. An exchange that was made before keeps its own. -/
def renewControl : BenchM Unit :=
  modify fun bench =>
    let holder :=
      match bench.holder with
      | .exchange runner none => .exchange runner (some bench.board.control)
      | holder => holder
    { bench with holder, board.control := {} }

/-- Runs a program of the exchange on the bench, and keeps where it is then. -/
def advance {α : Type} (p : Cyclic.Settings → Cyclic.State → CyclicProgram (α × Cyclic.State)) :
    BenchM α := do
  let r ← runner
  let (result, state) ← onSeat ownSeat (p r.settings r.state)
  setState state
  return result

/-- The most steps that an exchange makes here before it is stopped. -/
def patience : Nat := 1000000000

/-- Runs the exchange on the bench until it stops, and takes the bus back. -/
def runExchange : BenchM Unit := do
  let r ← runner
  let _ ← onSeat ownSeat (Cyclic.run r.settings patience r.state)
  endExchange

end Bench

end Servo
