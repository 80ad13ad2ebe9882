/-
A master: a drive that was brought up, and the cyclic side that keeps it in
torque control.

Bringing a master up checks the configuration, brings the segment up, starts
the cyclic side, hands the exchange over to it, and only then says that the
master is ready. From the hand-over on, the bus belongs to the cyclic side. It
comes back when that side stops: an orderly shutdown then leads every slave
through the safe state to its initial one, as far as they go, and closes the
bus.

Starting the cyclic side, handing over and waiting for its end are requests
too (`Master.interface`), since each of them can go wrong.
-/
import Servo.Bringup
import Servo.Cyclic.Exchange

namespace Servo

namespace Master

/-- How the cyclic side ended. -/
inductive Ending
  /-- It gave the bus back. -/
  | returned
  /-- It never got the exchange. -/
  | neverReceived
  | panicked
deriving DecidableEq, Repr

/-- A request of the master. -/
inductive Request
  | bus (request : Bus.Request)
  /-- Start the cyclic side. -/
  | start
  /-- Hand it the exchange, and the bus with it. -/
  | handOver (settings : Cyclic.Settings)
  | raiseReady
  | raiseStop
  /-- Wait until the cyclic side has ended. -/
  | join
deriving DecidableEq, Repr

/-- The answer to a request. A start can fail for a reason; a hand-over fails if
the other side is gone. -/
@[reducible] def Request.Answer : Request → Type
  | bus request => request.Answer
  | start => Except String Unit
  | handOver _ => Bool
  | raiseReady => Unit
  | raiseStop => Unit
  | join => Ending

@[reducible] def interface : Interface := ⟨Request, Request.Answer⟩

end Master

/-- A program of the master. -/
abbrev MasterProgram (α : Type) := Program Master.interface α

namespace Master

/-- The program that makes one request. -/
def perform (r : Request) : MasterProgram r.Answer := Program.request r Program.done

/-- A program that only talks to the bus. -/
def onBus {α : Type} (p : BusProgram α) : MasterProgram α :=
  p.run fun r => perform (.bus r)

/-- Brings a drive up and starts the cyclic exchange with it. -/
def bringUp (c : Config) (interface : String) :
    MasterProgram (Except Bringup.Stop Bringup.Report) := do
  match c.validate with
  | .error error => return .error (.failed (.config error))
  | .ok () =>
    match ← onBus (Bringup.run c .standard interface) with
    | .error stop => return .error stop
    | .ok report =>
      match ← perform .start with
      | .error reason =>
        onBus (Bringup.release report.slaves)
        return .error (.failed (.start reason))
      | .ok () =>
        if ← perform (.handOver ⟨c.slave, .standard, c.timing, report.expectedWkc⟩) then
          perform .raiseReady
          return .ok report
        else
          onBus (Bringup.release report.slaves)
          return .error (.failed (.bus (.master "cyclic thread exited before start")))

/-- Leads slaves to a state one after the other, whatever comes of it. -/
def leadTo (timing : Timing) (target : AlState) : List UInt16 → BusProgram Unit
  | [] => return
  | slave :: rest => do
    let _ ← StateControl.reach timing slave target
    leadTo timing target rest

/-- Leads every slave back to its initial state and closes the bus. -/
def retire (timing : Timing) (slaves : UInt16) : BusProgram Unit := do
  leadTo timing .safeOperational (Bringup.slavesOf slaves)
  leadTo timing .init (Bringup.slavesOf slaves)
  Bus.close

/-- Stops the cyclic side and waits for its end. -/
def halt : MasterProgram Ending := do
  perform .raiseStop
  perform .join

/-- Stops the exchange and shuts the segment down. -/
def shutdown (timing : Timing) (slaves : UInt16) : MasterProgram (Except Bus.Fault Unit) := do
  match ← halt with
  | .returned =>
    onBus (retire timing slaves)
    return .ok ()
  | .neverReceived => return .error (.master "cyclic thread never received the transport")
  | .panicked => return .error (.master "cyclic thread panicked")

end Master

end Servo
