/-
A cyclic exchange that no torque is asked of.

A master reads the outputs of its drive, changes what is to change, and hands them
over again. `Tame` is what can be said of that without knowing where the outputs
come from: as long as they are found idle, they are left idle. `Session.tame` says
it of every session of the standard layout whose setpoints convert to zero; a
session remembers no other control word than that of a command
(`Session.commands`).
-/
import Servo.Proofs.Idle
import Servo.Proofs.Cyclic.Interlock

namespace Servo

open Program

-- =============================================================== outputs

variable {k : UInt16} {t u : Bus.interface.Trace}

/-- Outputs of the slave are found idle. -/
def FindsIdle (k : UInt16) : Bus.interface.Event → Prop
  | ⟨.outputs slave, bytes⟩ => slave = k → Idle bytes
  | _ => True

/-- Outputs of the slave are handed over idle, and its image and its mapping stay as
they are. -/
def LeavesIdle (k : UInt16) : Bus.interface.Event → Prop
  | ⟨.setOutputs slave bytes, _⟩ => slave = k → Idle bytes
  | ⟨.map, _⟩ | ⟨.sdoWrite _ _ _, _⟩ => False
  | _ => True

/-- As long as outputs are found idle, they are left idle. -/
def Tame (k : UInt16) : Bus.interface.Trace → Prop
  | [] => True
  | e :: t => LeavesIdle k e ∧ (FindsIdle k e → Tame k t)

theorem tame_append : Tame k (t ++ u) ↔ Tame k t ∧ ((∀ e ∈ t, FindsIdle k e) → Tame k u) := by
  induction t with
  | nil => simp [Tame]
  | cons e t ih =>
    simp only [List.cons_append, Tame, ih, List.forall_mem_cons]
    constructor
    · intro h
      obtain ⟨he, hrest⟩ := h
      exact ⟨⟨he, fun hfinds => (hrest hfinds).1⟩, fun hall => (hrest hall.1).2 hall.2⟩
    · intro h
      obtain ⟨⟨he, ht⟩, hu⟩ := h
      exact ⟨he, fun hfinds => ⟨ht hfinds, fun hall => hu ⟨hfinds, hall⟩⟩⟩

theorem tame_of_forall (h : ∀ e ∈ t, LeavesIdle k e) : Tame k t := by
  induction t with
  | nil => trivial
  | cons e t ih =>
    obtain ⟨he, hrest⟩ := List.forall_mem_cons.1 h
    exact ⟨he, fun _ => ih hrest⟩

/-- Outputs that are found and handed over again. -/
theorem tame_handed {outputs sent : Bytes} (h : Idle outputs → Idle sent) (ht : Tame k t) :
    Tame k (⟨.outputs k, outputs⟩ :: ⟨.setOutputs k sent, ()⟩ :: t) :=
  ⟨trivial, fun hfinds => ⟨fun _ => h (hfinds rfl), fun _ => ht⟩⟩

-- ============================================================== sessions

namespace Cyclic

variable {settings : Settings} {log : List Stretch} {p p' : Point} {x : Stretch}
  {t u : Trace}

/-- What happens on the bus. -/
def busTrace (t : Trace) : Bus.interface.Trace :=
  t.filterMap fun
    | ⟨.bus r, answer⟩ => some ⟨r, answer⟩
    | _ => none

@[simp] theorem busTrace_append (t u : Trace) : busTrace (t ++ u) = busTrace t ++ busTrace u :=
  List.filterMap_append

theorem Awaited.controlword {s s' : State} {polls : Nat} (h : Awaited s polls t s') :
    s'.controlword = s.controlword := by
  rw [h.state_eq]

theorem Cycled.controlword {s : State} {r : Bool × State} (h : Cycled settings s t r) :
    r.2.controlword = s.controlword := by
  cases h with
  | degraded => rfl
  | good again setpoint outputs answer inputs _ hclock =>
    rw [(runs_updateVelocity hclock).2]
    rfl

/-- The control word that an exchange remembers is that of a command. -/
theorem Session.commands (h : Session settings log p) :
    ∃ command : Drive.Command, p.state.controlword = command.bits := by
  induction h with
  | new => exact ⟨.shutdown, rfl⟩
  | move _ hm ih =>
    obtain ⟨command, hcommand⟩ := ih
    cases hm with
    | wait _ ht => exact ⟨command, (runs_waitForMaster ht).1.controlword.trans hcommand⟩
    | poll | watch => exact ⟨command, hcommand⟩
    | cycle _ ht => exact ⟨command, (runs_cycle ht).controlword.trans hcommand⟩
    | @enabling _ outcome _ ht =>
      dsimp only
      unfold State.settle
      cases outcome.statusword? with
      | none => exact ⟨command, hcommand⟩
      | some statusword => exact ⟨_, rfl⟩
    | stop _ ht =>
      obtain ⟨rfl, -⟩ := runs_stop ht
      exact ⟨.shutdown, rfl⟩

/-- An attempt to enable the drive sends a command and no torque. -/
theorem idle_attempt {outputs sent : Bytes} {drive : Drive.State} (h : Idle outputs)
    (hset : Layout.standard.controlword.set (Layout.standard.targetTorque.put outputs 0)
      drive.controlword = .ok sent) : Idle sent := by
  rw [← Field.put_eq_of_set hset]
  exact h.put_targetTorque.put_controlword _

theorem attempts_tame {k : UInt16} {left : Nat} {last : Option UInt16} {out : Enabling.Outcome}
    (h : Enabling.Attempts k .standard left last t out) : Tame k (busTrace t) := by
  induction h with
  | exhausted => trivial
  | noRoom inputs outputs =>
    exact ⟨trivial, fun _ => tame_handed Idle.put_targetTorque trivial⟩
  | there inputs outputs hset =>
    exact ⟨trivial, fun _ => tame_handed (idle_attempt · hset) trivial⟩
  | again inputs outputs answer hset _ _ ih =>
    rw [busTrace_append]
    exact ⟨trivial, fun _ => tame_handed (idle_attempt · hset) ⟨trivial, fun _ => ih⟩⟩

/-- A cycle sends the command that is remembered, and no torque where none is asked
for. -/
theorem idle_commanded {s : State} {setpoint : Single} {outputs : Bytes}
    {command : Drive.Command} (hlayout : settings.layout = .standard)
    (hcommand : s.controlword = command.bits) (hnull : (setpoint.mul .thousand).toInt16 = 0)
    (h : Idle outputs) : Idle (s.commanded settings setpoint outputs) := by
  have htorque : commandedTorque s.drive setpoint = 0 := by
    unfold commandedTorque
    split
    next => exact hnull
    next => rfl
  unfold State.commanded
  rw [hlayout, hcommand, htorque]
  exact (h.put_controlword command).put_mode.put_targetTorque

theorem busTrace_clock (h : ∀ e ∈ t, ∃ now, e = ⟨.now, now⟩) : busTrace t = [] := by
  refine List.filterMap_eq_nil_iff.2 fun e he => ?_
  obtain ⟨now, rfl⟩ := h e he
  rfl

theorem Awaited.busTrace {s s' : State} {polls : Nat} (h : Awaited s polls t s') :
    busTrace t = [] := by
  induction h with
  | timedOut => rfl
  | stopped => rfl
  | ready => rfl
  | again _ ih => exact ih

theorem mem_setpoints {setpoint : Single} (h : ⟨.setpoint, setpoint⟩ ∈ t) :
    setpoint ∈ setpoints t :=
  List.mem_filterMap.2 ⟨_, h, rfl⟩

theorem Cycled.tame {s : State} {r : Bool × State} {command : Drive.Command}
    (h : Cycled settings s t r) (hlayout : settings.layout = .standard)
    (hcommand : s.controlword = command.bits)
    (hnull : ∀ setpoint ∈ setpoints t, (setpoint.mul .thousand).toInt16 = 0) :
    Tame settings.slave (Cyclic.busTrace t) := by
  cases h with
  | degraded again setpoint outputs answer =>
    have hzero := hnull setpoint (mem_setpoints (by simp [sendTrace]))
    exact tame_handed (idle_commanded hlayout hcommand hzero) ⟨trivial, fun _ => trivial⟩
  | @good again setpoint outputs answer inputs clock _ _ hclock =>
    have hzero := hnull setpoint (mem_setpoints (by simp [sendTrace]))
    have hread : Cyclic.busTrace (⟨.bus (.inputs settings.slave), inputs⟩ :: clock)
        = [⟨.inputs settings.slave, inputs⟩] :=
      congrArg (List.cons _) (busTrace_clock (runs_updateVelocity hclock).1)
    rw [busTrace_append, busTrace_append, hread]
    exact tame_handed (idle_commanded hlayout hcommand hzero)
      ⟨trivial, fun _ => ⟨trivial, fun _ => trivial⟩⟩

/-- Every stretch leaves the outputs idle, if no torque is asked for and it finds them
so. -/
theorem Move.tame (hlayout : settings.layout = .standard) (hm : Move settings p x p')
    (hcommand : ∃ command : Drive.Command, p.state.controlword = command.bits)
    (hnull : ∀ setpoint ∈ setpoints x.trace, (setpoint.mul .thousand).toInt16 = 0) :
    Tame settings.slave (busTrace x.trace) := by
  obtain ⟨command, hcommand⟩ := hcommand
  cases hm with
  | wait _ ht =>
    rw [(runs_waitForMaster ht).1.busTrace]
    trivial
  | poll => trivial
  | cycle _ ht => exact (runs_cycle ht).tame hlayout hcommand hnull
  | enabling _ ht =>
    have hattempts := Enabling.runs_attempts ht
    rw [hlayout] at hattempts
    exact attempts_tame hattempts
  | watch _ _ ht =>
    cases runs_watchSlave ht with
    | operational => exact ⟨trivial, fun _ => trivial⟩
    | lost => exact ⟨trivial, fun _ => ⟨trivial, fun _ => trivial⟩⟩
  | stop _ ht =>
    obtain ⟨-, outputs, answer, rfl⟩ := runs_stop ht
    unfold stopTrace
    rw [hlayout]
    refine tame_handed (fun hidle => ?_) ⟨trivial, fun _ => trivial⟩
    exact (hidle.put_controlword .shutdown).put_targetTorque

theorem Session.tame (hlayout : settings.layout = .standard) (h : Session settings log p)
    (hnull : ∀ setpoint ∈ setpoints (events log), (setpoint.mul .thousand).toInt16 = 0) :
    Tame settings.slave (busTrace (events log)) := by
  induction h with
  | new => trivial
  | @move log p p' x hs hm ih =>
    have hsplit : setpoints (events (log ++ [x])) = setpoints (events log) ++ setpoints x.trace := by
      rw [events_append, events_singleton]
      exact List.filterMap_append
    rw [hsplit] at hnull
    obtain ⟨hbefore, hx⟩ := List.forall_mem_append.1 hnull
    rw [events_append, events_singleton, busTrace_append, tame_append]
    exact ⟨ih hbefore, fun _ => hm.tame hlayout hs.commands hx⟩

end Cyclic

end Servo
