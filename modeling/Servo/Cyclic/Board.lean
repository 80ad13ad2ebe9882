/-
What the control side and the cyclic side share.

The control side sets the torque and raises three flags; the cyclic side reads
these and publishes telemetry. Each part has one side that writes it, but for
the request to enable again, which the cyclic side takes away as it reads it.
All of it can change between any two requests of the cyclic side, so to a
cyclic program the board is one more thing to ask (`Cyclic.interface`), next
to the bus and the clock.
-/
import Servo.Bus
import Servo.Duration
import Servo.Telemetry

namespace Servo

/-- The flags that the control side raises. -/
structure Control where
  /-- The exchange may start. -/
  ready : Bool := false
  /-- The exchange is to stop. -/
  stop : Bool := false
  /-- The drive is to be enabled again. -/
  reenable : Bool := false
deriving DecidableEq, Repr, Inhabited

/-- The shared values. -/
structure Register where
  /-- The torque to apply, in multiples of the rated torque. -/
  setpoint : Single := .zero
  telemetry : Telemetry := {}
deriving DecidableEq, Repr, Inhabited

/-- All that is shared. -/
structure Board where
  control : Control := {}
  register : Register := {}
deriving DecidableEq, Repr, Inhabited

namespace Board

/-- What the control side does. -/
inductive Act
  | raiseReady
  | raiseStop
  | reenable
  | setTargetTorque (torque : Single)
deriving DecidableEq, Repr

/-- The board after the control side did something. -/
def act (b : Board) : Act → Board
  | .raiseReady => { b with control.ready := true }
  | .raiseStop => { b with control.stop := true }
  | .reenable => { b with control.reenable := true }
  | .setTargetTorque torque => { b with register.setpoint := torque }

end Board

namespace Cyclic

/-- A request of the cyclic side. -/
inductive Request
  | bus (request : Bus.Request)
  /-- Whether the exchange may start. -/
  | isReady
  /-- Whether the exchange is to stop. -/
  | isStopped
  /-- Whether the drive is to be enabled again; asking takes the request away. -/
  | takeReenable
  | setpoint
  | publish (publication : Publication)
  /-- What time it is. -/
  | now
deriving DecidableEq, Repr

/-- The answer to a request. -/
@[reducible] def Request.Answer : Request → Type
  | bus request => request.Answer
  | isReady => Bool
  | isStopped => Bool
  | takeReenable => Bool
  | setpoint => Single
  | publish _ => Unit
  | now => Duration

/-- The bus, the board and the clock. -/
@[reducible] def interface : Interface := ⟨Request, Request.Answer⟩

end Cyclic

/-- A program of the cyclic side. -/
abbrev CyclicProgram (α : Type) := Program Cyclic.interface α

namespace Cyclic

/-- The program that makes one request. -/
def perform (r : Request) : CyclicProgram r.Answer := Program.request r Program.done

/-- The program that makes one request of the bus. -/
def onBus (r : Bus.Request) : CyclicProgram r.Answer := perform (.bus r)

def publish (publication : Publication) : CyclicProgram Unit := perform (.publish publication)

-- ========================================================== answering

/-- Where the cyclic side finds a board and a clock. -/
structure Seat (m : Type → Type) where
  board : m Board
  setBoard : Board → m Unit
  now : m Duration

/-- Answers the cyclic side from a bus and from a board. -/
def answer {m : Type → Type} [Monad m] (bus : (r : Bus.Request) → m r.Answer) (seat : Seat m) :
    (r : Request) → m r.Answer
  | .bus request => bus request
  | .isReady => do return (← seat.board).control.ready
  | .isStopped => do return (← seat.board).control.stop
  | .takeReenable => do
    let board ← seat.board
    seat.setBoard { board with control.reenable := false }
    return board.control.reenable
  | .setpoint => do return (← seat.board).register.setpoint
  | .publish publication => do
    let board ← seat.board
    seat.setBoard
      { board with register.telemetry := board.register.telemetry.publish publication }
  | .now => seat.now

end Cyclic

end Servo
