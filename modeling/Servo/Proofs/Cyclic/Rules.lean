/-
What each program of the cyclic side can do, as rules.

A rule names the answers of one way through a program and gives the requests in
full, so that a proof about runs splits along the rules and never opens a
program again:

- `Attempts`, the enabling sequence: no attempt left, no room for the control
  word, the drive is there, or one attempt and the rest;
- `Cycled`, the exchange of a step: a degraded cycle, or a good one;
- `Watched`, a look at the state of the slave: operational, or asked back there;
- `Awaited`, waiting for the master.

Each comes with the theorem that every run of its program is an instance of it
(`runs_attempts`, `runs_cycle`, ...). A stop has one way through, which
`runs_stop` gives directly.
-/
import Servo.Cyclic.Exchange
import Servo.Proofs.Trace

namespace Servo

namespace Cyclic

open Program

/-- A request of the cyclic side, and its answer. -/
abbrev Event := (r : Request) × r.Answer

/-- What the cyclic side requested, and the answers. -/
abbrev Trace := List Event

variable {β : Type} {c : Settings} {s : State} {t : Trace}

-- ============================================================ requests

theorem runs_perform_bind_iff {r : Request} {f : r.Answer → CyclicProgram β} {b : β} :
    Runs (perform r >>= f) t b ↔ ∃ answer u, t = ⟨r, answer⟩ :: u ∧ Runs (f answer) u b :=
  runs_request_bind_iff

theorem runs_onBus_bind_iff {r : Bus.Request} {f : r.Answer → CyclicProgram β} {b : β} :
    Runs (onBus r >>= f) t b ↔ ∃ answer u, t = ⟨.bus r, answer⟩ :: u ∧ Runs (f answer) u b :=
  runs_request_bind_iff

theorem runs_publish_bind_iff {p : Publication} {f : Unit → CyclicProgram β} {b : β} :
    Runs (publish p >>= f) t b ↔ ∃ u, t = ⟨.publish p, ()⟩ :: u ∧ Runs (f ()) u b := by
  constructor
  · intro h
    obtain ⟨_, u, rfl, hf⟩ := runs_request_bind_iff.1 h
    exact ⟨u, rfl, hf⟩
  · intro h
    obtain ⟨u, rfl, hf⟩ := h
    exact runs_request_bind_iff.2 ⟨(), u, rfl, hf⟩

end Cyclic

-- ========================================================== enabling

/-- Nothing is left to command in operation enabled, and only there. -/
theorem Drive.State.next_eq_none_iff {state : Drive.State} :
    state.next = none ↔ state = .operationEnabled := by
  cases state <;> simp [Drive.State.next]

/-- What an attempt publishes of the status word that it found. -/
def Publication.answering (statusword : UInt16) : Publication :=
  let drive := Drive.State.decode statusword
  .attempted statusword drive drive.controlword drive.next.isNone

@[simp] theorem Telemetry.publish_answering (m : Telemetry) (statusword : UInt16) :
    m.publish (.answering statusword)
      = { m with
          statusword
          drive := .decode statusword
          controlword := (Drive.State.decode statusword).controlword
          enabled := (Drive.State.decode statusword).next.isNone } := rfl

namespace Enabling

open Program Cyclic

variable {slave : UInt16} {layout : Layout} {left : Nat} {last : Option UInt16}

/-- The requests of one attempt, up to handing the outputs over. -/
def attemptTrace (slave : UInt16) (layout : Layout) (inputs outputs sent : Bytes) : Trace :=
  [⟨.bus (.inputs slave), inputs⟩,
   ⟨.publish (.answering (layout.statuswordIn inputs)), ()⟩,
   ⟨.bus (.outputs slave), outputs⟩,
   ⟨.bus (.setOutputs slave sent), ()⟩]

/-- What a sequence with so many attempts left can do, `last` being the status
word of the attempt before. -/
inductive Attempts (slave : UInt16) (layout : Layout) :
    Nat → Option UInt16 → Trace → Outcome → Prop
  | exhausted (last : Option UInt16) : Attempts slave layout 0 last [] ⟨false, last⟩
  /-- The control word cannot be written, only the torque is. -/
  | noRoom {left : Nat} {last : Option UInt16} (inputs outputs : Bytes) {e : PackingError} :
      layout.controlword.set (layout.targetTorque.put outputs 0)
          (Drive.State.decode (layout.statuswordIn inputs)).controlword = .error e →
      Attempts slave layout (left + 1) last
        (attemptTrace slave layout inputs outputs (layout.targetTorque.put outputs 0))
        ⟨false, some (layout.statuswordIn inputs)⟩
  /-- The drive is there already. -/
  | there {left : Nat} {last : Option UInt16} (inputs outputs : Bytes) {sent : Bytes} :
      layout.controlword.set (layout.targetTorque.put outputs 0)
          (Drive.State.decode (layout.statuswordIn inputs)).controlword = .ok sent →
      (Drive.State.decode (layout.statuswordIn inputs)).next = none →
      Attempts slave layout (left + 1) last
        (attemptTrace slave layout inputs outputs sent)
        ⟨true, some (layout.statuswordIn inputs)⟩
  /-- A command is sent, and the next attempt looks at what came back. -/
  | again {left : Nat} {last : Option UInt16} (inputs outputs : Bytes) {sent : Bytes}
      (answer : Except Bus.Fault UInt16) {t : Trace} {o : Outcome} :
      layout.controlword.set (layout.targetTorque.put outputs 0)
          (Drive.State.decode (layout.statuswordIn inputs)).controlword = .ok sent →
      (Drive.State.decode (layout.statuswordIn inputs)).next ≠ none →
      Attempts slave layout left (some (layout.statuswordIn inputs)) t o →
      Attempts slave layout (left + 1) last
        (attemptTrace slave layout inputs outputs sent ++ ⟨.bus .exchange, answer⟩ :: t) o

theorem runs_attempts {t : Trace} {o : Outcome} (h : Runs (attempts slave layout left last) t o) :
    Attempts slave layout left last t o := by
  induction left generalizing last t with
  | zero =>
    unfold attempts at h
    obtain ⟨rfl, rfl⟩ := runs_pure_iff.1 h
    exact .exhausted last
  | succ left ih =>
    unfold attempts at h
    rw [runs_onBus_bind_iff] at h
    obtain ⟨inputs, u, rfl, h⟩ := h
    dsimp only at h
    rw [runs_publish_bind_iff] at h
    obtain ⟨u, rfl, h⟩ := h
    rw [runs_onBus_bind_iff] at h
    obtain ⟨outputs, u, rfl, h⟩ := h
    split at h
    next e hset =>
      rw [runs_onBus_bind_iff] at h
      obtain ⟨_, u, rfl, h⟩ := h
      obtain ⟨rfl, rfl⟩ := runs_pure_iff.1 h
      exact .noRoom inputs outputs hset
    next sent hset =>
      rw [runs_onBus_bind_iff] at h
      obtain ⟨_, u, rfl, h⟩ := h
      split at h
      next hnext =>
        obtain ⟨rfl, rfl⟩ := runs_pure_iff.1 h
        exact .there inputs outputs hset (Option.isNone_iff_eq_none.1 hnext)
      next hnext =>
        rw [runs_onBus_bind_iff] at h
        obtain ⟨answer, u, rfl, h⟩ := h
        refine .again inputs outputs answer hset ?_ (ih h)
        intro hnone
        exact hnext (Option.isNone_iff_eq_none.2 hnone)

end Enabling

namespace Cyclic

open Program

variable {c : Settings} {s s' : State} {t : Trace}

-- ============================================================== a cycle

/-- The state as a step takes it up. -/
def State.begun (s : State) (again : Bool) : State :=
  { s with enablePending := s.enablePending || again, ticks := s.ticks + 1 }

/-- The outputs that a cycle hands over in place of those it finds. -/
def State.commanded (c : Settings) (s : State) (setpoint : Single) (outputs : Bytes) : Bytes :=
  c.layout.targetTorque.put
    (c.layout.mode.put (c.layout.controlword.put outputs s.controlword)
      OperationMode.torqueProfile.raw)
    (commandedTorque s.drive setpoint)

/-- The requests of a cycle, up to its exchange. -/
def sendTrace (c : Settings) (s : State) (again : Bool) (setpoint : Single) (outputs : Bytes)
    (answer : Except Bus.Fault UInt16) : Trace :=
  [⟨.takeReenable, again⟩,
   ⟨.setpoint, setpoint⟩,
   ⟨.bus (.outputs c.slave), outputs⟩,
   ⟨.bus (.setOutputs c.slave (s.commanded c setpoint outputs)), ()⟩,
   ⟨.bus .exchange, answer⟩]

/-- What the exchange of a step can do. -/
inductive Cycled (c : Settings) (s : State) : Trace → Bool × State → Prop
  | degraded (again : Bool) (setpoint : Single) (outputs : Bytes)
      (answer : Except Bus.Fault UInt16) :
      ¬ c.expectedWkc ≤ counted answer →
      Cycled c s
        (sendTrace c s again setpoint outputs answer
          ++ [⟨.publish (.degraded (counted answer)), ()⟩])
        (false, s.begun again)
  /-- The inputs are decoded and published. The clock may be looked at for the
  velocity. -/
  | good (again : Bool) (setpoint : Single) (outputs : Bytes)
      (answer : Except Bus.Fault UInt16) (inputs : Bytes) {clock : Trace} {s' : State} :
      c.expectedWkc ≤ counted answer →
      Runs (updateVelocity
          { s.begun again with drive := .decode (c.layout.statuswordIn inputs) }
          (readInputs c.layout inputs)) clock s' →
      Cycled c s
        (sendTrace c s again setpoint outputs answer
          ++ ⟨.bus (.inputs c.slave), inputs⟩ :: clock
          ++ [⟨.publish
            (.received (readInputs c.layout inputs) s'.drive s'.velocity s'.controlword
              (counted answer)), ()⟩])
        (true, s')

/-- Sending finds the outputs, puts its three values in, and exchanges. -/
theorem runs_send {controlword : UInt16} {torque : Int16} {wkc : UInt16}
    (h : Runs (send c controlword torque) t wkc) :
    ∃ outputs answer, wkc = counted answer
      ∧ t = [⟨.bus (.outputs c.slave), outputs⟩,
          ⟨.bus (.setOutputs c.slave
            (c.layout.targetTorque.put
              (c.layout.mode.put (c.layout.controlword.put outputs controlword)
                OperationMode.torqueProfile.raw) torque)), ()⟩,
          ⟨.bus .exchange, answer⟩] := by
  unfold send at h
  rw [runs_onBus_bind_iff] at h
  obtain ⟨outputs, u, rfl, h⟩ := h
  dsimp only at h
  rw [runs_onBus_bind_iff] at h
  obtain ⟨_, u, rfl, h⟩ := h
  rw [runs_onBus_bind_iff] at h
  obtain ⟨answer, u, rfl, h⟩ := h
  obtain ⟨rfl, rfl⟩ := runs_pure_iff.1 h
  exact ⟨outputs, answer, rfl, rfl⟩

/-- Receiving decodes the inputs, finds the velocity and publishes both. -/
theorem runs_receive {wkc : UInt16} (h : Runs (receive c s wkc) t s') :
    ∃ inputs clock,
      Runs (updateVelocity { s with drive := .decode (c.layout.statuswordIn inputs) }
        (readInputs c.layout inputs)) clock s'
      ∧ t = ⟨.bus (.inputs c.slave), inputs⟩ :: clock
          ++ [⟨.publish
            (.received (readInputs c.layout inputs) s'.drive s'.velocity s'.controlword wkc),
              ()⟩] := by
  unfold receive at h
  rw [runs_onBus_bind_iff] at h
  obtain ⟨inputs, u, rfl, h⟩ := h
  dsimp only at h
  rw [runs_bind_iff] at h
  obtain ⟨clock, s₁, u, rfl, hclock, h⟩ := h
  rw [runs_publish_bind_iff] at h
  obtain ⟨u, rfl, h⟩ := h
  obtain ⟨rfl, rfl⟩ := runs_pure_iff.1 h
  exact ⟨inputs, clock, hclock, rfl⟩

/-- Every run of a cycle is a degraded one or a good one. -/
theorem runs_cycle {r : Bool × State} (h : Runs (cycle c s) t r) : Cycled c s t r := by
  unfold cycle at h
  rw [runs_perform_bind_iff] at h
  obtain ⟨again, u, rfl, h⟩ := h
  rw [runs_perform_bind_iff] at h
  obtain ⟨setpoint, u, rfl, h⟩ := h
  dsimp only at h
  rw [runs_bind_iff] at h
  obtain ⟨_, wkc, u, rfl, hsend, h⟩ := h
  obtain ⟨outputs, answer, rfl, rfl⟩ := runs_send hsend
  split at h
  next hgood =>
    rw [runs_bind_iff] at h
    obtain ⟨u, s', v, rfl, hreceive, h⟩ := h
    obtain ⟨rfl, rfl⟩ := runs_pure_iff.1 h
    obtain ⟨inputs, clock, hclock, rfl⟩ := runs_receive hreceive
    have := Cycled.good again setpoint outputs answer inputs hgood hclock
    simpa [sendTrace, State.commanded] using this
  next hlow =>
    rw [runs_publish_bind_iff] at h
    obtain ⟨u, rfl, h⟩ := h
    obtain ⟨rfl, rfl⟩ := runs_pure_iff.1 h
    exact .degraded again setpoint outputs answer hlow

/-- Finding the velocity looks at the clock at most, and remembers nothing but
the velocity and where it was found. -/
theorem runs_updateVelocity {reading : Reading} (h : Runs (updateVelocity s reading) t s') :
    (∀ e ∈ t, ∃ now, e = ⟨.now, now⟩)
      ∧ s' = { s with velocity := s'.velocity, lastPosition := s'.lastPosition } := by
  unfold updateVelocity at h
  split at h
  · obtain ⟨rfl, rfl⟩ := runs_pure_iff.1 h
    exact ⟨by simp, rfl⟩
  · rw [runs_perform_bind_iff] at h
    obtain ⟨now, u, rfl, h⟩ := h
    obtain ⟨rfl, rfl⟩ := runs_pure_iff.1 h
    exact ⟨by simp, rfl⟩
  · obtain ⟨rfl, rfl⟩ := runs_pure_iff.1 h
    exact ⟨by simp, rfl⟩

-- =============================================== watching and stopping

/-- What looking at the state of the slave can do. -/
inductive Watched (slave : UInt16) : Trace → Prop
  | operational (answer : Except Bus.Fault Bus.Status) :
      showsOperational answer = true →
      Watched slave [⟨.bus (.state slave), answer⟩, ⟨.publish (.watched true), ()⟩]
  | lost (answer : Except Bus.Fault Bus.Status) (taken : Except Bus.Fault Unit) :
      showsOperational answer = false →
      Watched slave
        [⟨.bus (.state slave), answer⟩, ⟨.publish (.watched false), ()⟩,
         ⟨.bus (.setState slave .operational), taken⟩]

theorem runs_watchSlave {slave : UInt16} {v : Unit} (h : Runs (watchSlave slave) t v) :
    Watched slave t := by
  unfold watchSlave at h
  rw [runs_onBus_bind_iff] at h
  obtain ⟨answer, u, rfl, h⟩ := h
  dsimp only at h
  rw [runs_publish_bind_iff] at h
  obtain ⟨u, rfl, h⟩ := h
  cases hop : showsOperational answer with
  | true =>
    rw [hop] at h
    obtain ⟨rfl, -⟩ := runs_pure_iff.1 h
    exact .operational answer hop
  | false =>
    rw [hop] at h
    rw [Bool.not_false, if_pos rfl, runs_onBus_bind_iff] at h
    obtain ⟨taken, u, rfl, h⟩ := h
    obtain ⟨rfl, -⟩ := runs_pure_iff.1 h
    exact .lost answer taken hop

/-- The requests of a stop. -/
def stopTrace (c : Settings) (outputs : Bytes) (answer : Except Bus.Fault UInt16) : Trace :=
  [⟨.bus (.outputs c.slave), outputs⟩,
   ⟨.bus (.setOutputs c.slave
      (c.layout.targetTorque.put
        (c.layout.controlword.put outputs Drive.Command.shutdown.bits) 0)), ()⟩,
   ⟨.bus .exchange, answer⟩,
   ⟨.publish (.stopped Drive.Command.shutdown.bits), ()⟩]

/-- A stop has one way through, whatever the exchange answers. -/
theorem runs_stop (h : Runs (stop c s) t s') :
    s' = { s with controlword := Drive.Command.shutdown.bits, phase := .stopped }
      ∧ ∃ outputs answer, t = stopTrace c outputs answer := by
  unfold stop at h
  rw [runs_onBus_bind_iff] at h
  obtain ⟨outputs, u, rfl, h⟩ := h
  dsimp only at h
  rw [runs_onBus_bind_iff] at h
  obtain ⟨_, u, rfl, h⟩ := h
  rw [runs_onBus_bind_iff] at h
  obtain ⟨answer, u, rfl, h⟩ := h
  rw [runs_publish_bind_iff] at h
  obtain ⟨u, rfl, h⟩ := h
  obtain ⟨rfl, rfl⟩ := runs_pure_iff.1 h
  exact ⟨rfl, outputs, answer, rfl⟩

-- ============================================================= waiting

/-- What waiting for the master with so many polls left can do. -/
inductive Awaited (s : State) : Nat → Trace → State → Prop
  | timedOut : Awaited s 0 [] { s with phase := .stopped }
  | stopped {polls : Nat} :
      Awaited s (polls + 1) [⟨.isStopped, true⟩] { s with phase := .stopped }
  | ready {polls : Nat} :
      Awaited s (polls + 1)
        [⟨.isStopped, false⟩, ⟨.isReady, true⟩, ⟨.publish .started, ()⟩]
        { s with phase := .running }
  | again {polls : Nat} {t : Trace} {s' : State} :
      Awaited s polls t s' →
      Awaited s (polls + 1) (⟨.isStopped, false⟩ :: ⟨.isReady, false⟩ :: t) s'

theorem runs_awaitReady {polls : Nat} (h : Runs (awaitReady polls s) t s') :
    Awaited s polls t s' := by
  induction polls generalizing t with
  | zero =>
    unfold awaitReady at h
    obtain ⟨rfl, rfl⟩ := runs_pure_iff.1 h
    exact .timedOut
  | succ polls ih =>
    unfold awaitReady at h
    rw [runs_perform_bind_iff] at h
    obtain ⟨stopped, u, rfl, h⟩ := h
    cases stopped with
    | true =>
      obtain ⟨rfl, rfl⟩ := runs_pure_iff.1 h
      exact .stopped
    | false =>
      rw [if_neg Bool.false_ne_true, runs_perform_bind_iff] at h
      obtain ⟨ready, u, rfl, h⟩ := h
      cases ready with
      | true =>
        rw [if_pos rfl, runs_publish_bind_iff] at h
        obtain ⟨u, rfl, h⟩ := h
        obtain ⟨rfl, rfl⟩ := runs_pure_iff.1 h
        exact .ready
      | false => exact .again (ih h)

theorem runs_waitForMaster {r : Bool × State} (h : Runs (waitForMaster c s) t r) :
    Awaited s c.timing.masterReadyPolls.toNat t r.2
      ∧ r.1 = decide (r.2.phase = .running) := by
  unfold waitForMaster at h
  rw [runs_bind_iff] at h
  obtain ⟨u, s', v, rfl, hwait, h⟩ := h
  obtain ⟨rfl, rfl⟩ := runs_pure_iff.1 h
  rw [List.append_nil]
  exact ⟨runs_awaitReady hwait, rfl⟩

end Cyclic

end Servo
