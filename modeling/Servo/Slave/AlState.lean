/-
The application layer state of a slave: how far the slave goes in exchanging
data. Only five of the sixteen codes of the state register are states, any
other one is a mixed or undefined state (`AlState.ofCode?`).
-/

namespace Servo

/-- A state of the application layer. -/
inductive AlState
  /-- The slave is booting, it can be asked for nothing. -/
  | bootstrap
  /-- Communication registers only. -/
  | init
  /-- Transactions on the dictionary, and no process data. -/
  | preOperational
  /-- Inputs are exchanged, outputs are ignored. -/
  | safeOperational
  /-- Inputs and outputs are exchanged. -/
  | operational
deriving DecidableEq, Repr, Inhabited

namespace AlState

/-- The code of a state in the control and status registers. -/
def code : AlState → UInt8
  | init => 1
  | preOperational => 2
  | bootstrap => 3
  | safeOperational => 4
  | operational => 8

/-- All states, by ascending code. -/
def all : List AlState := [init, preOperational, bootstrap, safeOperational, operational]

/-- The state of a code, none for a mixed or undefined one. -/
def ofCode? (code : UInt8) : Option AlState := all.find? (·.code == code)

/-- The name of the state in diagnostics. -/
def name : AlState → String
  | bootstrap => "BOOT"
  | init => "INIT"
  | preOperational => "PRE_OP"
  | safeOperational => "SAFE_OP"
  | operational => "OPERATIONAL"

theorem ofCode?_code (state : AlState) : ofCode? state.code = some state := by
  cases state <;> rfl

end AlState

end Servo
