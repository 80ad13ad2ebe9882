/-
The torque interlock: the setpoint reaches a drive only while the drive reports
operation enabled.

Three programs exchange the process image. The enabling sequence and the stop
write a torque of zero before they do; the exchange of a step writes what
`commandedTorque` makes of the drive state it remembers. That this state is the
one last read is `tracked_of_session`, so nothing is left to show here but what
each program has put into the torque field when it exchanges.

# Where it is not said

A field that the outputs have no room for is not sent, so what an exchange
carries (`Carries`) is only said where the field fits.
-/
import Servo.Proofs.Cyclic.Observed
import Servo.Proofs.Field

namespace Servo.Cyclic

open Program

variable {c : Settings} {o : Observed} {s s' : State} {log before : List Stretch} {p p' : Point}
  {x : Stretch} {t pre h : Trace} {e : Event} {Q : Trace → Prop}
  {answer : Except Bus.Fault UInt16}

-- ============================================================ exchanges

/-- The event is no exchange, or has the property of what came before it. -/
def AtExchange (Q : Trace → Prop) (pre : Trace) : Event → Prop
  | ⟨.bus .exchange, _⟩ => Q pre
  | _ => True

/-- Nothing is exchanged by quiet events. -/
theorem Quiet.atExchange (hq : Quiet e) : AtExchange Q pre e := by
  unfold AtExchange
  split
  · exact hq.elim
  · trivial

theorem always_of_quiet (hq : ∀ e ∈ t, Quiet e) : Always (AtExchange Q) h t :=
  always_of_forall fun e he _ => (hq e he).atExchange

/-- The slave's outputs hold a torque, where they have room for one. -/
def Carries (c : Settings) (o : Observed) (torque : Int16) : Prop :=
  ∃ outputs, o.outputs = some outputs
    ∧ (c.layout.targetTorque.Fits outputs.length → c.layout.targetTorque.get outputs = .ok torque)

/-- The setpoints that were looked at, in order. -/
def setpoints (t : Trace) : List Single :=
  t.filterMap fun
    | ⟨.setpoint, setpoint⟩ => some setpoint
    | _ => none

-- ===================================================== what is written

/-- Outputs that end with writing a torque carry it. -/
theorem carries_put (image : Bytes) {torque : Int16} (hl : c.layout.Sound)
    (ho : o.outputs = some (c.layout.targetTorque.put image torque)) : Carries c o torque := by
  refine ⟨_, ho, fun hfit => ?_⟩
  rw [Field.length_put] at hfit
  exact Field.get_put_self hfit hl.wide.2.2.1

/-- A control word written after the torque leaves the torque. -/
theorem carries_set {image sent : Bytes} {torque : Int16} {controlword : UInt16}
    (hl : c.layout.Sound)
    (hset : c.layout.controlword.set (c.layout.targetTorque.put image torque) controlword
      = .ok sent)
    (ho : o.outputs = some sent) : Carries c o torque := by
  have hsent := Field.put_eq_of_set hset
  refine ⟨_, ho, fun hfit => ?_⟩
  rw [← hsent, Field.length_put, Field.length_put] at hfit
  rw [← hsent, Field.get_put_of_apart hl.controlword_apart.2.1]
  exact Field.get_put_self hfit hl.wide.2.2.1

/-- Every attempt of an enabling sequence exchanges a torque of zero. -/
theorem attempts_null_torque {left : Nat} {last : Option UInt16} {out : Enabling.Outcome}
    (hl : c.layout.Sound) (ha : Enabling.Attempts c.slave c.layout left last t out) :
    Always (AtExchange fun pre => Carries c (o.follow c pre) 0) h t := by
  induction ha generalizing h with
  | exhausted => exact always_nil
  | noRoom => simp [Enabling.attemptTrace, AtExchange]
  | there => simp [Enabling.attemptTrace, AtExchange]
  | again inputs outputs answer hset _ _ ih =>
    refine always_append.2 ⟨by simp [Enabling.attemptTrace, AtExchange], always_cons.2 ⟨?_, ih⟩⟩
    refine carries_set hl hset ?_
    simp [Enabling.attemptTrace]

/-- A stretch that is no cycle exchanges a torque of zero, if it exchanges at all. -/
theorem Move.null_torque (hl : c.layout.Sound) (hm : Move c p x p') (hx : ¬ x.IsCycle) :
    Always (AtExchange fun pre => Carries c (o.follow c pre) 0) [] x.trace := by
  cases hm with
  | wait _ ht => exact always_of_quiet (runs_waitForMaster ht).1.quiet
  | poll => simp [AtExchange]
  | cycle => exact (hx ⟨_, rfl⟩).elim
  | enabling _ ht => exact attempts_null_torque hl (Enabling.runs_attempts ht)
  | watch _ _ ht => exact always_of_quiet (runs_watchSlave ht).quiet
  | stop _ ht =>
    obtain ⟨-, outputs, answer, rfl⟩ := runs_stop ht
    simp only [stopTrace, always_cons, always_nil, and_true, true_and, AtExchange]
    refine carries_put (c.layout.controlword.put outputs Drive.Command.shutdown.bits) hl ?_
    simp

/-- A cycle takes one setpoint and exchanges what it makes of it, before it reads
any inputs. -/
theorem Cycled.commanded {r : Bool × State} (hl : c.layout.Sound) (hc : Cycled c s t r) :
    Always (AtExchange fun pre => (o.follow c pre).statusword = o.statusword
      ∧ ∃ setpoint, setpoints pre = [setpoint]
        ∧ Carries c (o.follow c pre) (commandedTorque s.drive setpoint)) [] t := by
  have hsend : ∀ again setpoint outputs answer,
      Always (AtExchange fun pre => (o.follow c pre).statusword = o.statusword
        ∧ ∃ setpoint, setpoints pre = [setpoint]
          ∧ Carries c (o.follow c pre) (commandedTorque s.drive setpoint)) []
        (sendTrace c s again setpoint outputs answer) := by
    intro again setpoint outputs answer
    simp only [sendTrace, always_cons, always_nil, and_true, true_and, AtExchange]
    refine ⟨by simp, setpoint, rfl, ?_⟩
    refine carries_put (c.layout.mode.put (c.layout.controlword.put outputs s.controlword)
      OperationMode.torqueProfile.raw) hl ?_
    simp [State.commanded]
  cases hc with
  | degraded again setpoint outputs answer =>
    exact always_append.2 ⟨hsend .., by simp [AtExchange]⟩
  | good again setpoint outputs answer inputs _ hclock =>
    rw [List.append_assoc, List.cons_append]
    refine always_append.2 ⟨hsend .., always_cons.2 ⟨trivial, always_append.2 ⟨?_, ?_⟩⟩⟩
    · refine always_of_quiet fun e he => ?_
      obtain ⟨now, rfl⟩ := (runs_updateVelocity hclock).1 e he
      trivial
    · simp [AtExchange]

-- ============================================================ interlock

/-- What an exchange of a session carries: what the exchange of a step makes of
the status word last read and of the setpoint it took, and nothing in any other
stretch. -/
theorem carried (hl : c.layout.Sound) (hs : Session c log p)
    (hat : At log before x pre ⟨.bus .exchange, answer⟩) :
    (¬ x.IsCycle → Carries c (observe c (events before ++ pre)) 0)
      ∧ (x.IsCycle →
        (observe c (events before ++ pre)).statusword = (observe c (events before)).statusword
        ∧ ∃ setpoint, setpoints pre = [setpoint]
          ∧ Carries c (observe c (events before ++ pre))
              (commandedTorque (.decode (observe c (events before)).statusword) setpoint)) := by
  obtain ⟨after, post, hlog, htrace⟩ := hat
  obtain ⟨q, q', hq, hm⟩ := hs.split hlog
  rw [observe_append]
  constructor
  · intro hx
    have hnull := hm.null_torque hl hx (o := observe c (events before))
    rw [htrace] at hnull
    exact hnull.at_split
  · intro hx
    obtain ⟨good, hc⟩ := hm.cycled hx
    have hsent := hc.commanded hl (o := observe c (events before))
    rw [htrace, (tracked_of_session hq).cached] at hsent
    exact hsent.at_split

/-- At every exchange of every session, the torque that the slave's outputs hold
is zero, unless it is the exchange of a step and the status word last read
reports operation enabled. It is then the setpoint that the step has taken, in
thousandths, as far as 16 bits reach. -/
theorem torque_interlock (hl : c.layout.Sound) (hs : Session c log p)
    (hat : At log before x pre ⟨.bus .exchange, answer⟩) :
    let seen := observe c (events before ++ pre)
    let applies := x.IsCycle ∧ Drive.State.decode seen.statusword = .operationEnabled
    (¬ applies → Carries c seen 0)
      ∧ (applies → ∃ setpoint, setpoints pre = [setpoint]
        ∧ Carries c seen (setpoint.mul .thousand).toInt16) := by
  intro seen applies
  obtain ⟨hother, hcycle⟩ := carried hl hs hat
  constructor
  · intro hno
    by_cases hx : x.IsCycle
    · obtain ⟨hword, setpoint, -, hcarries⟩ := hcycle hx
      unfold commandedTorque at hcarries
      rw [← hword, if_neg fun hon => hno ⟨hx, hon⟩] at hcarries
      exact hcarries
    · exact hother hx
  · intro h
    obtain ⟨hx, hon⟩ := h
    obtain ⟨hword, setpoint, hset, hcarries⟩ := hcycle hx
    unfold commandedTorque at hcarries
    rw [← hword, if_pos hon] at hcarries
    exact ⟨setpoint, hset, hcarries⟩

-- ==================================================== the programs keep it

/-- What is exchanged after a trace carries no torque, or a setpoint that was taken, which the
status word last read lets through. -/
def Interlocked (c : Settings) (u : Trace) : Prop :=
  Carries c (observe c u) 0
    ∨ Drive.State.decode (observe c u).statusword = .operationEnabled
      ∧ ∃ setpoint ∈ setpoints u, Carries c (observe c u) (setpoint.mul .thousand).toInt16

theorem Session.interlocked {u v : Trace} (hl : c.layout.Sound) (hs : Session c log p)
    (hevents : events log = u ++ ⟨.bus .exchange, answer⟩ :: v) : Interlocked c u := by
  obtain ⟨before, x, pre, hat, rfl⟩ := exists_at hevents
  obtain ⟨hother, hcycle⟩ := carried hl hs hat
  by_cases hx : x.IsCycle
  · obtain ⟨hword, setpoint, hset, hcarries⟩ := hcycle hx
    rw [← hword] at hcarries
    unfold commandedTorque at hcarries
    split at hcarries
    next hon =>
      have htaken : setpoint ∈ setpoints (events before ++ pre) := by
        unfold setpoints at hset ⊢
        rw [List.filterMap_append, hset]
        exact List.mem_append_right _ List.mem_cons_self
      exact .inr ⟨hon, setpoint, htaken, hcarries⟩
    next => exact .inl hcarries
  · exact .inl (hother hx)

/-- Every exchange that a step makes is interlocked, be it of the cycle or of a sequence. -/
theorem step_interlocked {good : Bool} {u v : Trace} (hl : c.layout.Sound)
    (hs : Session c log { state := s })
    (hstep : Runs (step c s) (u ++ ⟨.bus .exchange, answer⟩ :: v) (good, s')) :
    Interlocked c (events log ++ u) := by
  obtain ⟨log', hs', hevents⟩ := hs.step hstep
  have hall : events (log ++ log') = events log ++ u ++ ⟨.bus .exchange, answer⟩ :: v := by
    rw [events_append, hevents, List.append_assoc]
  exact hs'.interlocked hl hall

/-- So is every exchange of the whole program, however it ends. -/
theorem run_interlocked {bound : Nat} {r : Option State} {u v : Trace} (hl : c.layout.Sound)
    (hrun : Runs (run c bound {}) (u ++ ⟨.bus .exchange, answer⟩ :: v) r) : Interlocked c u := by
  obtain ⟨log, p, hs, hevents⟩ := Session.run hrun
  exact hs.interlocked hl hevents

-- ================================================= a session of one drive

/-- A drive behind the default layout, alone on its segment, with two attempts
at enabling it. -/
def sampleConfig : Config := { timing := { enableAttempts := 2 } }

def sample : Settings := ⟨sampleConfig.slave, .standard, sampleConfig.timing, 3⟩

/-- The state after a cycle that read a status word and nothing else. -/
def State.read (s : State) (statusword : UInt16) : State :=
  { s.begun false with drive := .decode statusword }

/-- A good cycle from a state, with a quarter of the rated torque asked for. -/
def sampleCycle (s : State) (statusword : UInt16) : Stretch where
  act := .cycle true
  trace := sendTrace sample s false ⟨0x3e800000⟩ (List.replicate 9 0) (.ok 3)
    ++ [⟨.bus (.inputs sample.slave), Packed.bytes statusword⟩,
      ⟨.publish (.received ⟨statusword, none, none, none, none⟩ (.decode statusword) s.velocity
        s.controlword 3), ()⟩]

/-- An enabling sequence that runs out of attempts on the way: the drive is
ready when it begins, switched on at the second attempt, and not looked at after
the last command, which enables operation. Both exchanges get one answer. -/
def sampleFailure (answer : Except Bus.Fault UInt16) : Stretch where
  act := .enabling ⟨false, some 0x23⟩
  trace :=
    Enabling.attemptTrace sample.slave .standard (Packed.bytes (0x21 : UInt16))
        (List.replicate 9 0) (7 :: List.replicate 8 0)
      ++ ⟨.bus .exchange, answer⟩ ::
        Enabling.attemptTrace sample.slave .standard (Packed.bytes (0x23 : UInt16))
            (List.replicate 9 0) (15 :: List.replicate 8 0)
          ++ [⟨.bus .exchange, answer⟩]

/-- The state after the first cycle and the failed sequence. -/
def sampleFailed : State := (State.read {} 0x21).settle ⟨false, some 0x23⟩

/-- A session that begins with a failed sequence and goes on with the drive
enabled by the last command. -/
def sampleLog (answer : Except Bus.Fault UInt16) : List Stretch :=
  [sampleCycle {} 0x21, sampleFailure answer, sampleCycle sampleFailed 0x27,
    sampleCycle (sampleFailed.read 0x27) 0x27]

theorem sample_session (answer : Except Bus.Fault UInt16) :
    Session sample (sampleLog answer) { state := (sampleFailed.read 0x27).read 0x27 } := by
  have h₁ : Session sample [sampleCycle {} 0x21] ⟨State.read {} 0x21, true, false⟩ :=
    Session.new.move (.cycle ⟨rfl, rfl⟩ (Runs.of_replay rfl))
  have h₂ : Session sample ([sampleCycle {} 0x21] ++ [sampleFailure answer])
      { state := sampleFailed } :=
    h₁.move (.enabling rfl (Runs.of_replay rfl))
  have h₃ : Session sample (([sampleCycle {} 0x21] ++ [sampleFailure answer])
      ++ [sampleCycle sampleFailed 0x27]) { state := sampleFailed.read 0x27 } :=
    h₂.move (.cycle ⟨rfl, rfl⟩ (Runs.of_replay rfl))
  exact h₃.move (.cycle ⟨rfl, rfl⟩ (Runs.of_replay rfl))

/-- The last exchange of the session carries a quarter of the rated torque. -/
theorem torque_interlock_released :
    Carries sample
      (observe sample (events ((sampleLog (.ok 3)).take 3)
        ++ (sampleCycle (sampleFailed.read 0x27) 0x27).trace.take 4)) 250 := by
  have hat : At (sampleLog (.ok 3)) ((sampleLog (.ok 3)).take 3)
      (sampleCycle (sampleFailed.read 0x27) 0x27)
      ((sampleCycle (sampleFailed.read 0x27) 0x27).trace.take 4) ⟨.bus .exchange, .ok 3⟩ :=
    ⟨[], _, rfl, rfl⟩
  obtain ⟨setpoint, hset, hcarries⟩ :=
    (torque_interlock Layout.standard_sound (sample_session (.ok 3)) hat).2 ⟨⟨true, rfl⟩, rfl⟩
  have hquarter : setpoint = ⟨0x3e800000⟩ := (List.cons.inj hset).1.symm
  rw [hquarter] at hcarries
  exact hcarries

end Servo.Cyclic
