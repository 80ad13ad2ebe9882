/-
A segment in operation, and how it is given back.

New slaves that were brought up with the mappings they are made with are in operation
(`operates_of_ok`): every slave is operational, and the drive finds its command and its
torque where the standard layout has them. Nothing that a cyclic exchange asks of the bus
(`Cyclic.Asks`) ends that, wherever the drives go meanwhile (`Operates.after`).

# The way out

An exchange ends by sending a command to shut down and no torque, and the drive gets just
that, whatever state it is in (`Operates.shutDown`). What follows is about the application
layer alone: retiring leads every slave to the safe state and on to its initial one, each
at the first attempt, and closes the bus (`Operates.ends_retire`). The drive stays as it is.
-/
import Servo.Master
import Servo.Proofs.Simulation.Enabling
import Servo.Proofs.Simulation.NewSegment
import Servo.Proofs.Simulation.Sequence

namespace Servo

open Program

-- ============================================================ requests

namespace Cyclic

variable {c : Settings} {s s' : State} {slave : UInt16} {t u : Trace}

/-- What an exchange with a slave asks of the bus. -/
def Asks (slave : UInt16) : Bus.Request → Prop
  | .exchange => True
  | .outputs k | .setOutputs k _ | .inputs k | .state k => k = slave
  | .setState k target => k = slave ∧ target = .operational
  | _ => False

/-- A trace asks the bus for nothing else. -/
def AsksOnly (slave : UInt16) (t : Trace) : Prop := ∀ e ∈ busTrace t, Asks slave e.1

theorem asksOnly_append : AsksOnly slave (t ++ u) ↔ AsksOnly slave t ∧ AsksOnly slave u := by
  unfold AsksOnly
  rw [busTrace_append, List.forall_mem_append]

theorem asksOnly_of_busTrace (h : busTrace t = []) : AsksOnly slave t := by
  unfold AsksOnly
  rw [h]
  exact fun _ hmem => absurd hmem List.not_mem_nil

theorem Cycled.asksOnly {r : Bool × State} (h : Cycled c s t r) : AsksOnly c.slave t := by
  cases h with
  | degraded => simp [AsksOnly, busTrace, sendTrace, Asks]
  | good again setpoint outputs answer inputs _ hclock =>
    have hnow : AsksOnly c.slave _ :=
      asksOnly_of_busTrace (busTrace_clock (runs_updateVelocity hclock).1)
    rw [asksOnly_append, asksOnly_append, ← List.singleton_append, asksOnly_append]
    refine ⟨⟨?_, ?_, hnow⟩, asksOnly_of_busTrace rfl⟩
    · simp [AsksOnly, busTrace, sendTrace, Asks]
    · simp [AsksOnly, busTrace, Asks]

theorem attempts_asksOnly {layout : Layout} {left : Nat} {last : Option UInt16}
    {out : Enabling.Outcome} (h : Enabling.Attempts slave layout left last t out) :
    AsksOnly slave t := by
  induction h with
  | exhausted => exact asksOnly_of_busTrace rfl
  | noRoom | there => simp [AsksOnly, busTrace, Enabling.attemptTrace, Asks]
  | again inputs outputs answer _ _ _ ih =>
    rw [asksOnly_append, ← List.singleton_append, asksOnly_append]
    refine ⟨?_, ?_, ih⟩
    · simp [AsksOnly, busTrace, Enabling.attemptTrace, Asks]
    · simp [AsksOnly, busTrace, Asks]

theorem Looked.asksOnly (h : Looked c s t) : AsksOnly c.slave t := by
  cases h with
  | due _ hwatched => cases hwatched <;> simp [AsksOnly, busTrace, Asks]
  | spared => exact asksOnly_of_busTrace rfl

theorem Stepped.asksOnly {r : Bool × State} (h : Stepped c s t r) : AsksOnly c.slave t := by
  cases h with
  | plain hcycle _ hlooked =>
    exact asksOnly_append.2 ⟨hcycle.asksOnly, hlooked.asksOnly⟩
  | enabling hcycle _ hattempts hlooked =>
    rw [asksOnly_append, asksOnly_append]
    exact ⟨⟨hcycle.asksOnly, attempts_asksOnly hattempts⟩, hlooked.asksOnly⟩

/-- However many steps the loop makes, it asks for nothing else. -/
theorem Looped.asksOnly {bound : Nat} {r : Option State} (h : Looped c bound s t r) :
    AsksOnly c.slave t := by
  induction h with
  | exceeded | stopped => exact asksOnly_of_busTrace rfl
  | again hstep _ ih =>
    rw [List.cons_append, ← List.singleton_append, asksOnly_append, asksOnly_append]
    exact ⟨asksOnly_of_busTrace rfl, (runs_step hstep).asksOnly, ih⟩

end Cyclic

namespace Simulation

open Cyclic (Asks)

-- =========================================================== operation

/-- All slaves are operational, and what one of them receives is what the standard layout
sends. -/
structure Line.Operates (l : Line) (k : UInt16) : Prop where
  has : l.Has k
  mapped : l.mapped = true
  operational : ∀ j, l.Has j → l.al j = .operational
  receives : (l.dictionary k).assigned Pdo.receive.assign = Pdo.defaultReceive
  outputs : (l.outputs k).length = Slave.imageBytes Pdo.defaultReceive

/-- So many slaves are in operation. -/
def Segment.Operates (g : Segment) (count : Nat) (k : UInt16) : Prop :=
  ∃ l : Line, g.Shows l ∧ l.count = count ∧ l.Operates k

namespace Segment

variable {g : Segment} {count : Nat} {k : UInt16} {r : Bus.Request}

/-- A request of an exchange leaves the segment in operation. -/
theorem Operates.answered (h : g.Operates count k) (hr : Asks k r) :
    (answer r g).2.Operates count k := by
  obtain ⟨l, hg, hcount, hl⟩ := h
  cases r with
  | exchange =>
    obtain ⟨drive, hg'⟩ := hg.exchange
    exact ⟨_, hg', hcount, { hl with }⟩
  | outputs | inputs | state => exact ⟨l, hg, hcount, hl⟩
  | setOutputs slave bytes =>
    obtain rfl : slave = k := hr
    obtain ⟨g', hends, hg'⟩ := Line.leads_setOutputs hl.has bytes g hg
    obtain rfl : (Segment.answer (.setOutputs slave bytes) g).2 = g' := congrArg Prod.snd hends
    have hlength : ((l.send slave (Bytes.overwrite (l.outputs slave) bytes)).outputs slave).length
        = (l.outputs slave).length := by
      unfold Line.send
      dsimp only
      rw [if_pos rfl, Bytes.length_overwrite]
    exact ⟨_, hg', hcount, { hl with outputs := hlength.trans hl.outputs }⟩
  | setState slave target =>
    obtain ⟨rfl, rfl⟩ : slave = k ∧ target = .operational := hr
    have hlets : l.Lets slave .operational := by
      refine ⟨hl.has, nofun, fun _ => hl.mapped, fun _ => ?_⟩
      rw [hl.operational _ hl.has]
      nofun
    obtain ⟨g', hends, hg'⟩ := Line.leads_setState hlets g hg
    obtain rfl : (Segment.answer (.setState slave .operational) g).2 = g' := congrArg Prod.snd hends
    refine ⟨_, hg', hcount, { hl with operational := fun j hj => ?_ }⟩
    show (if j = slave then AlState.operational else l.al j) = .operational
    rw [hl.operational j hj, ite_self]
  | init | discover | clocks | map | clearAl | sdoRead | sdoWrite | close => exact hr.elim

/-- And so do all that it makes. -/
theorem Operates.after {t : Bus.interface.Trace} (h : g.Operates count k)
    (ht : ∀ e ∈ t, Asks k e.1) : (stateAfter Segment.answer g t).Operates count k := by
  induction t generalizing g with
  | nil => exact h
  | cons e t ih =>
    obtain ⟨he, hrest⟩ := List.forall_mem_cons.1 ht
    exact ih (h.answered he) hrest

end Segment

-- ============================================================ the stop

/-- The drive was told to shut down in the end, and applies no torque. -/
structure Slave.ShutDown (s : Slave) : Prop where
  command : s.controlwords.getLast? = some 0x0006
  disabled : s.frozen = false → s.drive ≠ .operationEnabled
  relaxed : s.appliedTorque = 0

namespace Slave

variable {s s' : Slave} {outputs : Bytes}

/-- Nothing of that is about the application layer. -/
theorem ShutDown.restated (h : s.ShutDown) (hs : Restated s s') : s'.ShutDown := by
  obtain ⟨_, _, _, rfl⟩ := hs
  exact ⟨h.command, h.disabled, h.relaxed⟩

/-- A command to shut down leads to operation enabled from no state. -/
theorem transition_shutdown (drive : Drive.State) :
    transition drive Drive.Command.shutdown.bits ≠ .operationEnabled := by
  cases drive <;> decide

/-- What a stop hands over, where the image has room for it. -/
theorem handed_stop {s : Slave} (hlength : s.outputs.length = imageBytes Pdo.defaultReceive) :
    Handed .standard { s with
      outputs := Layout.standard.targetTorque.put
        (Layout.standard.controlword.put s.outputs Drive.Command.shutdown.bits) 0 }
      Drive.Command.shutdown.bits := by
  have hsound := Layout.standard_sound
  have hcommand : Layout.standard.controlword.Fits s.outputs.length := by
    rw [hlength]
    decide
  have htorque : Layout.standard.targetTorque.Fits s.outputs.length := by
    rw [hlength]
    decide
  constructor
  case commanded =>
    show Layout.standard.controlword.get (Layout.standard.targetTorque.put _ 0) = _
    rw [Field.get_put_of_apart hsound.controlword_apart.2.1.symm]
    exact Field.get_put_self hcommand hsound.wide.1
  case relaxed =>
    exact Field.get_put_self (by rwa [Field.length_put]) hsound.wide.2.2.1

/-- In operational the drive gets the command, and no torque. -/
theorem Handed.shutDown (h : Handed .standard s Drive.Command.shutdown.bits)
    (hal : s.al = .operational)
    (hreceives : s.dictionary.assigned Pdo.receive.assign = Pdo.defaultReceive)
    (hlength : s.outputs.length = imageBytes Pdo.defaultReceive) : s.exchange.1.ShutDown := by
  have hsound := Layout.standard_sound
  have hfits : Layout.standard.controlword.Fits s.outputs.length
      ∧ Layout.standard.targetTorque.Fits s.outputs.length := by
    rw [hlength]
    decide
  have hword : word? (s.dictionary.assigned Pdo.receive.assign) 0x6040 s.outputs
      = some Drive.Command.shutdown.bits := by
    rw [hreceives]
    exact word?_of_get hfits.1 hsound.wide.1 mapsOnce_controlword rfl h.commanded
  have hnull : ((word? (s.dictionary.assigned Pdo.receive.assign) 0x6071 s.outputs).map
      UInt16.toInt16).getD 0 = 0 := by
    rw [hreceives]
    exact torque_of_get hfits.2 hsound.wide.2.2.1 (fun _ => mapsOnce_targetTorque) h.relaxed
  have hreceived : s.received? = some Drive.Command.shutdown.bits := (if_pos hal).trans hword
  constructor
  case command =>
    rw [s.exchange_received.1, hreceived]
    exact List.getLast?_concat
  case disabled =>
    intro hfrozen
    obtain ⟨-, -, -, -, hkept⟩ := s.exchange_settings
    rw [exchange_of_operational hal, writeInputs_drive,
      readOutputs_drive (hkept.symm.trans hfrozen) hword]
    exact transition_shutdown s.drive
  case relaxed =>
    rw [exchange_of_operational hal, writeInputs_applied]
    exact readOutputs_null hnull

end Slave

namespace Segment

open Cyclic (busTrace stopTrace)

variable {g : Segment} {count : Nat}

/-- A stop shuts the drive down, whatever it was up to. -/
theorem Operates.shutDown {settings : Cyclic.Settings} {outputs : Bytes}
    {wkc : Except Bus.Fault UInt16} (h : g.Operates count settings.slave)
    (hlayout : settings.layout = .standard)
    (hanswers : AnsweredBy answer g (busTrace (stopTrace settings outputs wkc))) :
    ∃ s, (stateAfter answer g (busTrace (stopTrace settings outputs wkc))).slave?
      settings.slave = some s ∧ s.ShutDown := by
  obtain ⟨l, hg, -, hl⟩ := h
  obtain ⟨s, hslave, hs⟩ := hg.slave settings.slave hl.has
  obtain rfl : s.outputs = outputs := (answer_outputs hslave).symm.trans hanswers.1
  have hlength : s.outputs.length = Slave.imageBytes Pdo.defaultReceive :=
    (congrArg List.length hs.outputs).trans hl.outputs
  have hmapped : g.mapped = true := hg.mapped.trans hl.mapped
  have hsent := answer_setOutputs (Layout.standard.targetTorque.put
    (Layout.standard.controlword.put s.outputs Drive.Command.shutdown.bits) 0) hslave
  rw [Bytes.overwrite_of_length (by rw [Field.length_put, Field.length_put])] at hsent
  have hafter := answer_exchange hsent
  rw [mapped_setOutputs, if_pos hmapped] at hafter
  unfold stopTrace
  rw [hlayout]
  refine ⟨_, hafter, (Slave.handed_stop hlength).shutDown
    (hs.al.trans (hl.operational settings.slave hl.has)) ?_ ?_⟩
  · exact (congrArg (·.assigned Pdo.receive.assign) hs.dictionary).trans hl.receives
  · rw [← hlength, Field.length_put, Field.length_put]

end Segment

end Simulation

namespace Cyclic

open Simulation (Segment)

variable {c : Settings} {s : State} {t : Trace}

/-- Where the start is published, the master was ready. -/
theorem Awaited.running_of_started {polls : Nat} {s' : State} (h : Awaited s polls t s')
    (hstarted : .started ∈ Cyclic.publications t) : s'.phase = .running := by
  induction h with
  | timedOut | stopped => exact absurd hstarted List.not_mem_nil
  | ready => rfl
  | again _ ih => exact ih hstarted

theorem asksOnly_stopTrace (outputs : Bytes) (wkc : Except Bus.Fault UInt16) :
    AsksOnly c.slave (stopTrace c outputs wkc) := by
  simp [AsksOnly, busTrace, stopTrace, Asks]

/-- An exchange that did start and ended asked for nothing else, and shut the drive down. -/
theorem Ran.shutDown {bound count : Nat} {ended : State} {g : Segment}
    (h : Ran c bound s t (some ended)) (hstarted : .started ∈ publications t)
    (hlayout : c.layout = .standard) (hg : g.Operates count c.slave)
    (hanswers : AnsweredBy Segment.answer g (busTrace t)) :
    AsksOnly c.slave t
      ∧ ∃ s, (stateAfter Segment.answer g (busTrace t)).slave? c.slave = some s ∧ s.ShutDown := by
  cases h with
  | unready hwait =>
    obtain ⟨hawaited, hphase⟩ := runs_waitForMaster hwait
    exact absurd (hawaited.running_of_started hstarted) (of_decide_eq_false hphase.symm)
  | @stopped u v w _ _ _ hwait hloop hstop =>
    obtain ⟨-, outputs, wkc, rfl⟩ := runs_stop hstop
    have hbefore : AsksOnly c.slave (u ++ v) :=
      asksOnly_append.2 ⟨asksOnly_of_busTrace (runs_waitForMaster hwait).1.busTrace, hloop.asksOnly⟩
    rw [busTrace_append, answeredBy_append] at hanswers
    refine ⟨asksOnly_append.2 ⟨hbefore, asksOnly_stopTrace outputs wkc⟩, ?_⟩
    rw [busTrace_append, stateAfter_append]
    exact (hg.after hbefore).shutDown hlayout hanswers.2

end Cyclic

-- =========================================================== retiring

namespace Master

open Simulation (Line)
open Simulation.Line

variable {P : Bus.Request → Prop} {l : Line} {timing : Timing} {target : AlState}
  {list : List UInt16} {slaves : UInt16}

theorem only_leadTo (hstates : ∀ r : Bus.Request, r.part = .states → P r) :
    (leadTo timing target list).Only P := by
  induction list with
  | nil => exact only_pure _
  | cons slave rest ih =>
    unfold leadTo
    exact (StateControl.concerns_reach.mono fun r hr => hstates r hr.1).bind fun _ => ih

/-- Retiring asks for states, and closes the bus in the end. -/
theorem only_retire (hstates : ∀ r : Bus.Request, r.part = .states → P r) (hclose : P .close) :
    (retire timing slaves).Only P := by
  unfold retire
  refine (only_leadTo hstates).bind fun _ => (only_leadTo hstates).bind fun _ => ?_
  exact only_perform hclose

section

variable (hattempts : timing.stateAttempts ≠ 0) (hpolls : timing.statePolls ≠ 0)
include hattempts hpolls

theorem leads_leadTo (hlets : ∀ k ∈ list, l.Lets k target) :
    l.Leads (leadTo timing target list) () (l.gather list target) := by
  induction list generalizing l with
  | nil =>
    have hnone : l.gather [] target = l := by simp [gather]
    rw [hnone]
    exact leads_pure _
  | cons k rest ih =>
    obtain ⟨hk, hrest⟩ := List.forall_mem_cons.1 hlets
    rw [gather_cons]
    unfold leadTo
    exact (StateControl.leads_reach hattempts hpolls hk).bind (ih fun j hj => (hrest j hj).arrive)

theorem leads_leadTo_slaves (hlets : ∀ k, l.Has k → l.Lets k target) :
    l.Leads (leadTo timing target (Bringup.slavesOf (.ofNat l.count))) () (l.all target) := by
  intro g hg
  obtain ⟨g', hends, hg'⟩ :=
    leads_leadTo hattempts hpolls (fun k hk => hlets k (mem_slaves.1 hk)) g hg
  exact ⟨g', hends, all_of_gather hg'⟩

/-- Slaves that exchange process data are led to the safe state, and on to their initial
one. -/
theorem ends_retire {g : Simulation.Segment} (hg : g.Shows l) (hmapped : l.mapped = true) :
    ∃ g', g.Ends (retire timing (.ofNat l.count)) () g' ∧ Bringup.Released g'
      ∧ g'.slaves.length = l.count := by
  have htoSafe := leads_leadTo_slaves (l := l) hattempts hpolls
    fun k hk => ⟨hk, (nofun : AlState.safeOperational ≠ .bootstrap), fun _ => hmapped, nofun⟩
  have htoInit := leads_leadTo_slaves (l := l.all .safeOperational) hattempts hpolls
    fun k hk => ⟨hk, (nofun : AlState.init ≠ .bootstrap), by simp, nofun⟩
  obtain ⟨g₁, hsafe, hg₁⟩ := htoSafe g hg
  obtain ⟨g₂, hinit, hg₂⟩ := htoInit g₁ hg₁
  refine ⟨g₂.close, hsafe.bind (hinit.bind (Simulation.Segment.ends_perform rfl)), ⟨rfl, ?_⟩,
    hg₂.count⟩
  intro k s hslave
  exact (hg₂.stands hslave).al

end

end Master

namespace Simulation.Segment

variable {α : Type} {g g' : Segment} {k : UInt16} {s : Slave} {p : BusProgram α} {a : α}

/-- Only one value and one segment come of a program. -/
theorem Ends.unique {a' : α} {g'' : Segment} (h : g.Ends p a g') (h' : g.Ends p a' g'') :
    a = a' ∧ g' = g'' :=
  Prod.ext_iff.1 (h.symm.trans h')

/-- What a program asks beside the drives touches the application layer alone. -/
theorem Ends.restated (h : g.Ends p a g') (hp : p.Only (Aside k)) (hk : g.slave? k = some s) :
    ∃ s', g'.slave? k = some s' ∧ Slave.Restated s s' := by
  induction p generalizing g s with
  | done value =>
    cases h
    exact ⟨s, hk, .refl s⟩
  | request r resume ih =>
    obtain ⟨s₁, hs₁, hfirst⟩ := answer_restated r hp.1 hk
    obtain ⟨s', hs', hrest⟩ := ih _ h (hp.2 _) hs₁
    exact ⟨s', hs', hfirst.trans hrest⟩

/-- A drive that is shut down stays so while the slaves are retired. -/
theorem Ends.shutDown {timing : Timing} {slaves : UInt16}
    (h : g.Ends (Master.retire timing slaves) () g') (hk : g.slave? k = some s)
    (hs : s.ShutDown) : ∃ s', g'.slave? k = some s' ∧ s'.ShutDown := by
  have haside : (Master.retire timing slaves).Only (Aside k) := by
    refine Master.only_retire (fun r hr => ?_) trivial
    cases r with
    | setState | state | clearAl => trivial
    | _ => cases hr
  obtain ⟨s', hs', hrestated⟩ := h.restated haside hk
  exact ⟨s', hs', hs.restated hrestated⟩

end Simulation.Segment

-- ========================================================== bring-up

namespace Bringup

open Simulation

variable {c : Config} {slaves : List Slave}

/-- The drive is to exchange what it is made with. -/
def MapsDefault (c : Config) : Prop := c.mapping.keepDefaults = true ∨ c.mapping = {}

/-- A dictionary that no mapping was written to exchanges what a new one does. -/
theorem Untouched.receives {d : Dictionary} (h : Untouched .receive d) :
    d.assigned Pdo.receive.assign = Pdo.defaultReceive := by
  have hinitial : Dictionary.initial.Exchanges .receive Pdo.defaultReceive :=
    ⟨⟨_, rfl, rfl⟩, .inl (by decide)⟩
  exact (hinitial.congr h).assigned

/-- Either way the mappings are negotiated, and the drive receives the same as before. -/
theorem exists_negotiated {l : Line} (hk : l.Has c.slave) (hdefault : MapsDefault c) :
    ∃ outcomes d, (equip l c (withParameters c.parameters)).Leads (negotiateMappings c) outcomes
        (equip l c d) ∧ d.assigned Pdo.receive.assign = Pdo.defaultReceive := by
  rcases hdefault with hkept | hdefault
  · exact ⟨_, _, leads_negotiateMappings_kept hkept,
      (untouched_withParameters c.parameters (.inl rfl)).receives⟩
  · have hrx : c.rxMapping = Pdo.defaultReceive := by
      unfold Config.rxMapping
      rw [hdefault]
      decide
    refine ⟨_, configured c, leads_negotiateMappings_equip hk ?_ ?_ ?_, ?_⟩
    · rw [hdefault]
    · rw [hdefault]
      rfl
    · rw [hdefault]
      rfl
    · exact (configured_exchanges c).1.assigned.trans hrx

/-- A bring-up that gives up reports why, whatever is left of the segment. -/
theorem exists_ends_abandon (g : Segment) (count : UInt16) (stop : Stop) :
    ∃ g', g.Ends (abandon count stop) (.error stop) g' := by
  cases stop with
  | failed e =>
    have hreleased : g.Ends (release count) () ((release count).run Segment.answer g).2 := rfl
    exact ⟨_, hreleased.bind (Segment.ends_pure _)⟩
  | panicked => exact ⟨g, Segment.ends_pure _⟩

/-- New slaves that were brought up are in operation. -/
theorem operates_of_ok (hnew : AllNew slaves) (hvalid : c.validate = .ok ())
    (hslave : c.slave.toNat ≤ slaves.length) (hdefault : MapsDefault c) {name : String}
    {report : Report} {g : Segment}
    (h : (Segment.ofSlaves slaves).Ends (run c .standard name) (.ok report) g) :
    report.slaves = .ofNat slaves.length ∧ g.Operates slaves.length c.slave := by
  obtain ⟨hattempts, hpolls⟩ := Config.stateControl_ne_zero hvalid
  have hk : hnew.line.Has c.slave := ⟨(Config.validate_eq_ok_iff.1 hvalid).1, hslave⟩
  have hopened : (Segment.ofSlaves slaves).Ends (openBus name).run (.ok (.ofNat slaves.length))
      (Segment.found slaves) := Segment.ends_openBus name
  obtain ⟨outcomes, d, hmapped, hreceives⟩ := exists_negotiated hk hdefault
  by_cases hsuits : Suits c ((equip hnew.line c d).image c.slave)
  · obtain ⟨bytes, hlength, hstages⟩ := leads_stages_of_suits hattempts hpolls hk rfl hmapped hsuits
    obtain ⟨g', hends, hg'⟩ := hstages _ hnew.shows
    have hrun : (Segment.ofSlaves slaves).Ends (run c .standard name)
        (.ok (reportOf c hnew.line outcomes (imageMap (equip hnew.line c d)))) g' :=
      hopened.bind (hends.bind (Segment.ends_pure _))
    obtain ⟨hreport, rfl⟩ := hrun.unique h
    cases hreport
    have hexchanged : ((equip hnew.line c d).dictionary c.slave).assigned Pdo.receive.assign
        = Pdo.defaultReceive :=
      (congrArg (·.assigned Pdo.receive.assign) (Line.dictionary_store_self ..)).trans hreceives
    refine ⟨rfl, _, hg', rfl, hk, rfl, fun _ _ => rfl, hexchanged, ?_⟩
    show (if c.slave = c.slave then bytes else _).length = _
    rw [if_pos rfl, hlength]
    exact congrArg Slave.imageBytes hexchanged
  · obtain ⟨stop, _, hstages, -⟩ := ends_stages_of_suits hattempts hpolls hk rfl hmapped hsuits
    obtain ⟨g', hends, -⟩ := hstages _ hnew.shows
    obtain ⟨g'', habandoned⟩ := exists_ends_abandon g' (.ofNat slaves.length) stop
    have hrun : (Segment.ofSlaves slaves).Ends (run c .standard name) (.error stop) g'' :=
      hopened.bind (hends.bind habandoned)
    cases (hrun.unique h).1

end Bringup

end Servo
