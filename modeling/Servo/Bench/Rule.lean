/-
Rules that make a bus misbehave.

A rule waits for one kind of request, and may ask for a slave, an index or a
subindex as well. It lets a number of such requests pass, and then applies to a
number of them. The first rule that applies to a request is the one that does:
it has its effects on the bench, and then the request breaks down, or fails
with a fault, or is answered otherwise than the bus would.
-/
import Servo.Bus
import Servo.Single

namespace Servo.Bench

/-- A kind of request that rules can wait for. -/
inductive Method
  | init
  | discover
  | clocks
  | map
  | setState
  | state
  | clearAl
  | exchange
  | sdoRead
  | sdoWrite
  | close
deriving DecidableEq, Repr

namespace Method

/-- All kinds of requests. -/
def all : List Method :=
  [init, discover, clocks, map, setState, state, clearAl, exchange, sdoRead, sdoWrite, close]

def name : Method → String
  | init => "init"
  | discover => "discover"
  | clocks => "clocks"
  | map => "map"
  | setState => "set_state"
  | state => "state"
  | clearAl => "clear_al"
  | exchange => "exchange"
  | sdoRead => "sdo_read"
  | sdoWrite => "sdo_write"
  | close => "close"

/-- The kind of a name, if there is one. -/
def ofName? (name : String) : Option Method := all.find? (·.name == name)

end Method

/-- What a rule does to the bench before the request. -/
inductive Effect
  | fault (slave : UInt16)
  | dropTo (slave : UInt16) (state : AlState)
  | degrade (exchanges : UInt32)
  | stop
  | reenable
  | torque (setpoint : Single)
deriving DecidableEq, Repr

/-- How a request is answered otherwise. -/
inductive Change
  | nothing
  /-- Another number of slaves is found. -/
  | found (slaves : UInt16)
  | image (map : Bus.ImageMap)
  /-- Another working counter is answered, and a slave has other inputs until
  the next exchange. -/
  | exchanged (wkc : Option UInt16) (inputs : Option (UInt16 × Bytes))
  | status (status : Bus.Status)
  /-- Other bytes are received, and the bus is not asked. -/
  | data (bytes : Bytes)
  /-- The request succeeds without the bus being asked. -/
  | ignored
deriving DecidableEq, Repr

/-- What comes of a request that a rule applies to. -/
inductive Verdict
  /-- Whoever made the request breaks down. -/
  | panic
  | fail (fault : Bus.Fault)
  | change (change : Change)
deriving DecidableEq, Repr

structure Rule where
  /-- None stands for a kind that no request is of. -/
  method : Option Method
  slave : Option UInt16
  index : Option UInt16
  sub : Option UInt8
  /-- How many matching requests still pass. -/
  skip : Nat
  /-- How many it still applies to after that. -/
  count : Nat
  before : List Effect
  verdict : Verdict
deriving DecidableEq, Repr

/-- What rules can see of a request. -/
structure Subject where
  method : Method
  slave : Option UInt16
  address : Option Address
deriving DecidableEq, Repr

/-- The subject of a request, none for the process image, which is always at
hand. -/
def Subject.of? : Bus.Request → Option Subject
  | .init _ => some ⟨.init, none, none⟩
  | .discover => some ⟨.discover, none, none⟩
  | .clocks => some ⟨.clocks, none, none⟩
  | .map => some ⟨.map, none, none⟩
  | .setState slave _ => some ⟨.setState, slave, none⟩
  | .state slave => some ⟨.state, slave, none⟩
  | .clearAl slave => some ⟨.clearAl, slave, none⟩
  | .exchange => some ⟨.exchange, none, none⟩
  | .sdoRead slave a _ => some ⟨.sdoRead, slave, a⟩
  | .sdoWrite slave a _ => some ⟨.sdoWrite, slave, a⟩
  | .close => some ⟨.close, none, none⟩
  | .outputs _ | .setOutputs _ _ | .inputs _ => none

namespace Rule

/-- Whether what a rule asks for, if it does, is what a request has. -/
def agrees {α : Type} [DecidableEq α] (wanted actual : Option α) : Bool :=
  wanted.isNone || wanted = actual

/-- Whether a rule waits for such a request. -/
def isFor (r : Rule) (s : Subject) : Bool :=
  r.method = some s.method && agrees r.slave s.slave &&
    agrees r.index (s.address.map Address.index) && agrees r.sub (s.address.map Address.sub)

/-- The first rule that applies to a request, and the rules after it: those
that let the request pass have one less to let pass, and the one that applies
one less to apply to. -/
def select (s : Subject) : List Rule → Option Rule × List Rule
  | [] => (none, [])
  | r :: rest =>
    if r.isFor s ∧ r.count ≠ 0 then
      if r.skip = 0 then (some r, { r with count := r.count - 1 } :: rest)
      else
        let (chosen, rest) := select s rest
        (chosen, { r with skip := r.skip - 1 } :: rest)
    else
      let (chosen, rest) := select s rest
      (chosen, r :: rest)

end Rule

end Servo.Bench
