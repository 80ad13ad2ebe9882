/-
A master on the bench.

The cyclic side of a master runs beside the one that made it, but nothing that
the bench shows depends on which of the two comes first. So the bench runs the
cyclic side when it is waited for: it makes as many steps as are waited for,
and what is left of the exchange when it is stopped. A cyclic side that breaks
down stays as it is then, and takes the bus with it.
-/
import Servo.Bench.Basic

namespace Servo.Bench

/-- Runs a program of the master's cyclic side, unless it broke down before. -/
def onCyclicSide (p : Cyclic.Settings → Cyclic.State → CyclicProgram Cyclic.State) :
    BenchM Unit := do
  let s ← station
  if s.broken then return
  try
    let state ← onSeat masterSeat (p s.runner.settings s.runner.state)
    editStation fun s => { s with runner := { s.runner with state } }
  catch
    | .panic => editStation ({ · with broken := true })
    | halt => throw halt

/-- Runs what is left of the exchange, and tells how it ended. -/
def joinCyclicSide : BenchM Master.Ending := do
  onCyclicSide fun settings state => do
    return (← Cyclic.resume settings patience state).getD state
  return if (← station).broken then .panicked else .returned

/-- The answer of the bench to a request of a master. -/
def answerMaster : (r : Master.Request) → BenchM r.Answer
  | .bus r => answer r
  | .start => return .ok ()
  | .handOver settings => do
    modify fun bench => { bench with holder := .master { runner := ⟨settings, {}⟩ } }
    return true
  | .raiseReady => editStation fun s => { s with board := s.board.act .raiseReady }
  | .raiseStop => editStation fun s => { s with board := s.board.act .raiseStop }
  | .join => joinCyclicSide

/-- Runs a program of a master. -/
def onMaster {α : Type} (p : MasterProgram α) : BenchM α := p.run answerMaster

/-- A bring-up that broke down breaks down whatever it was part of. -/
def unbroken {α : Type} : Except Bringup.Stop α → BenchM (Except Bringup.Error α)
  | .ok value => return .ok value
  | .error (.failed error) => return .error error
  | .error .panicked => throw .panic

/-- Brings the segment up for whoever has the bus. -/
def bringUpSegment (interface : String) : BenchM (Except Bringup.Error Bringup.Report) := do
  needBus
  let bench ← get
  unbroken (← onBus (Bringup.run bench.config bench.layout interface))

/-- Makes a master of the configuration on the bench, which takes the bus. A
bring-up that fails takes it as well. -/
def bringUpMaster (interface : String) : BenchM (Except Bringup.Error Bringup.Report) := do
  match (← get).holder with
  | .bench =>
    let result ← onMaster (Master.bringUp (← get).config interface)
    match result with
    | .ok report =>
      editStation ({ · with slaves := report.slaves })
      onCyclicSide fun settings state => return (← Cyclic.waitForMaster settings state).2
    | .error _ => modify fun bench => { bench with holder := .nobody }
    unbroken result
  | _ => throw (.missing .transport)

/-- Does something on the board: the master's, where there is one. -/
def act (a : Board.Act) : BenchM Unit :=
  modify fun bench =>
    match bench.holder with
    | .master s => { bench with holder := .master { s with board := s.board.act a } }
    | _ => { bench with board := bench.board.act a }

/-- Waits for a number of cycles of the master. -/
def waitCycles : Nat → BenchM Unit
  | 0 => discard station
  | n + 1 => do
    onCyclicSide fun settings state => return (← Cyclic.step settings state).2
    waitCycles n

/-- Waits until no rule applies any more, or the cyclic side broke down; for at
most so many cycles. A master is needed only where there is a rule to wait for. -/
def waitRules (bound : Nat) : BenchM Unit := do
  match bound with
  | 0 => return
  | bound + 1 =>
    if (← get).rules.all (·.count == 0) then return
    if (← station).broken then return
    onCyclicSide fun settings state => return (← Cyclic.step settings state).2
    waitRules bound

/-- Shuts the master down, which gives the bus up for good. -/
def shutdownMaster : BenchM (Except Bus.Fault Unit) := do
  let s ← station
  let result ← onMaster (Master.shutdown s.runner.settings.timing s.slaves)
  modify fun bench => { bench with holder := .nobody }
  return result

/-- Stops the master's cyclic side and leaves the segment as it is then. -/
def dropMaster : BenchM Unit := do
  let _ ← station
  let _ ← onMaster Master.halt
  modify fun bench => { bench with holder := .nobody }

end Servo.Bench
