/-
Bringing a slave to a state of its application layer.

Drives take their time, and some ignore a request while they are still busy,
or refuse to become operational straight from pre-operational. `reach` hides
that: it asks for the state and polls it, and does so again until the slave is
there or the attempts are used up. A slave that stays pre-operational when
operational is wanted is led once through the safe state between, with twice
as many polls.

A request that is refused and a poll that cannot be read count as a state not
reached; what the slave showed last is kept across attempts for the error.
-/
import Servo.Bus
import Servo.Config

namespace Servo.StateControl

/-- A slave failed to reach a state. -/
structure Error where
  slave : UInt16
  target : AlState
  /-- The last state it showed, if it showed any. -/
  observed : Option AlState
  alStatus : AlStatus
  attempts : UInt32
deriving DecidableEq, Repr

def Error.message (e : Error) : String :=
  "slave " ++ toString e.slave.toNat ++ " failed to reach " ++ e.target.name ++ " after " ++
    toString e.attempts.toNat ++ " attempts, stuck in " ++
    (e.observed.map AlState.name).getD "unknown state" ++ " with AL status " ++ e.alStatus.text

/-- Polls a slave until it shows the target, at most `polls` times. The status
is the last one shown, `last` if none is. -/
def poll (slave : UInt16) (target : AlState) (polls : Nat) (last : Bus.Status) :
    BusProgram (Bool × Bus.Status) := do
  match polls with
  | 0 => return (false, last)
  | polls + 1 =>
    match ← Bus.state slave with
    | .ok status =>
      if status.state = some target then return (true, status)
      else poll slave target polls status
    | .error _ => poll slave target polls last

/-- Asks a slave for a state, and polls it if the request is taken. -/
def ask (slave : UInt16) (target : AlState) (polls : Nat) (last : Bus.Status) :
    BusProgram (Bool × Bus.Status) := do
  match ← Bus.setState slave target with
  | .ok () => poll slave target polls last
  | .error _ => return (false, last)

/-- Twice as many polls, as far as a word of 32 bits counts. -/
def doubled (polls : UInt32) : Nat := min (2 * polls.toNat) (UInt32.size - 1)

/-- Leads a slave to operational through the safe state. -/
def escalate (timing : Timing) (slave : UInt16) (last : Bus.Status) :
    BusProgram (Bool × Bus.Status) := do
  let (safe, last) ← ask slave .safeOperational (doubled timing.statePolls) last
  if safe then ask slave .operational (doubled timing.statePolls) last
  else return (false, last)

/-- Attempts to reach the target until it is reached or no attempt is left, and
gives the last status shown. -/
def attempts (timing : Timing) (slave : UInt16) (target : AlState) (left : Nat)
    (escalated : Bool) (last : Bus.Status) : BusProgram (Bool × Bus.Status) := do
  match left with
  | 0 => return (false, last)
  | left + 1 =>
    Bus.clearAl slave
    let (reached, last) ← ask slave target timing.statePolls.toNat last
    if reached then return (true, last)
    if !escalated ∧ target = .operational ∧ last.state = some .preOperational then
      let (reached, last) ← escalate timing slave last
      if reached then return (true, last)
      attempts timing slave target left true last
    else attempts timing slave target left escalated last

/-- Brings a slave to a state. -/
def reach (timing : Timing) (slave : UInt16) (target : AlState) :
    BusProgram (Except Error Unit) := do
  let (reached, last) ←
    attempts timing slave target timing.stateAttempts.toNat false ⟨none, .noError⟩
  if reached then return .ok ()
  return .error ⟨slave, target, last.state, last.alStatus, timing.stateAttempts⟩

end Servo.StateControl
