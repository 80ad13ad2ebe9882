/-
The torque of a drive that no torque is asked of.

A master writes its outputs by the standard layout, whatever mapping it has
negotiated. While no torque is asked for it leaves the outputs idle if it finds them
so, and a segment hands out what it was given: so they are idle from the bring-up on
(`rests_of_run`, `Follows.resting`). What a drive applies then is a matter of its
mapping alone: nothing, unless that leads it astray. `applied_torque` has the exact
condition, for every exchange of every session after a bring-up, and what it comes to
in terms of the configuration of a new drive; `run_applied_torque` has it for every run
of the cyclic program.
-/
import Servo.Proofs.Bringup.Mapping
import Servo.Proofs.Cyclic.Tame
import Servo.Proofs.Simulation.Segment

namespace Servo

open Program

-- ============================================================= resting

variable {k : UInt16} {t : Bus.interface.Trace}

/-- States and exchanges have nothing to do with what is handed over. -/
theorem leavesIdle_of_requests {e : Bus.interface.Event} (h : e.1.part = .states ∨ e.1 = .exchange) :
    LeavesIdle k e := by
  obtain ⟨r, a⟩ := e
  rcases h with hpart | hexchange
  · cases r with
    | setState | state | clearAl => trivial
    | _ => cases hpart
  · cases hexchange
    trivial

namespace Simulation.Segment

variable {g g' : Segment} {s : Slave} {mapping : List Pdo.Entry} {length : Nat}

/-- The outputs of a resting slave are found idle. -/
theorem answer_findsIdle (r : Bus.Request) (hk : g.slave? k = some s)
    (hs : s.Resting mapping length) : FindsIdle k ⟨r, (answer r g).1⟩ := by
  cases r with
  | outputs slave =>
    rintro rfl
    have hfound := answer_outputs hk
    rw [hfound]
    exact hs.idle
  | _ => trivial

/-- A slave rests on at requests that leave its outputs idle. -/
theorem answer_resting (r : Bus.Request) {a : r.Answer} (hleaves : LeavesIdle k ⟨r, a⟩)
    (hk : g.slave? k = some s) (hs : s.Resting mapping length) :
    ∃ s', (answer r g).2.slave? k = some s' ∧ s'.Resting mapping length := by
  by_cases haside : Aside k r
  · obtain ⟨s', hs', hkept⟩ := answer_aside r haside hk
    exact ⟨s', hs', hs.kept hkept⟩
  · cases r with
    | map | sdoWrite => exact hleaves.elim
    | exchange =>
      refine ⟨_, answer_exchange hk, ?_⟩
      split
      next => exact hs.exchange
      next => exact hs
    | setOutputs slave bytes =>
      obtain rfl : slave = k := Decidable.not_not.1 haside
      exact ⟨_, answer_setOutputs bytes hk, hs.handed (hleaves rfl)⟩
    | _ => exact absurd trivial haside

/-- A slave rests throughout a tame trace. -/
theorem Follows.resting (h : Follows k g t g') (ht : Tame k t) (hk : g.slave? k = some s)
    (hs : s.Resting mapping length) :
    ∃ s', g'.slave? k = some s' ∧ s'.Resting mapping length := by
  induction h generalizing s with
  | nil hbeside =>
    obtain ⟨s', hs', hkept⟩ := hbeside s hk
    exact ⟨s', hs', hs.kept hkept⟩
  | @request _ g₁ _ _ r a _ hbeside hanswer _ ih =>
    obtain ⟨hleaves, hrest⟩ := ht
    obtain ⟨s₁, hs₁, hkept⟩ := hbeside s hk
    have hrests := hs.kept hkept
    have hfinds := answer_findsIdle r hs₁ hrests
    obtain ⟨s₂, hs₂, hrests₂⟩ := answer_resting r hleaves hs₁ hrests
    rw [hanswer] at hfinds hs₂
    exact ih (hrest hfinds) hs₂ hrests₂

end Simulation.Segment

-- ============================================================== bring-up

open Simulation Simulation.Segment

variable {g g' g₁ g₂ : Segment} {s : Slave} {c : Config} {name : String}
  {report : Bringup.Report}

/-- How many bytes of outputs a slave is reported to have. -/
def Bringup.Report.outputBytes (report : Bringup.Report) (slave : UInt16) : Nat :=
  ((report.image.slave? slave).getD ⟨0, 0⟩).outputBytes

/-- Where the image is laid out, the outputs are zero. -/
theorem laidOut (h : Follows k g (⟨.map, .ok report.image⟩ :: t) g') (hk : g.slave? k = some s) :
    ∃ g₁ s₁, Follows k g₁ t g' ∧ g₁.slave? k = some s₁
      ∧ s₁.outputs = List.replicate (report.outputBytes k) 0
      ∧ s₁.dictionary = s.dictionary ∧ s₁.appliedTorque = s.appliedTorque := by
  obtain ⟨g₁, g₂, s₁, hkept, hs₁, hmap, hrest⟩ := h.peel hk
  have hs₂ := answer_map hs₁
  rw [hmap, discovered_of_map hmap, if_pos rfl] at hs₂
  refine ⟨g₂, s₁.mapImage, hrest, hs₂, ?_, hkept.dictionary, hkept.torque⟩
  unfold Bringup.Report.outputBytes
  rw [image_of_map hmap hs₁]
  rfl

/-- Where zeros are found and made safe, the outputs are idle. -/
theorem madeSafe {outputs safe : Bytes} {n : Nat}
    (h : Follows k g (⟨.outputs k, outputs⟩ :: ⟨.setOutputs k safe, ()⟩ :: t) g')
    (hk : g.slave? k = some s) (hzeros : s.outputs = List.replicate n 0)
    (hsafe : Layout.standard.safeOutputs outputs OperationMode.torqueProfile.raw
      = (safe, .ok ())) :
    ∃ g₁ s₁, Follows k g₁ t g' ∧ g₁.slave? k = some s₁ ∧ Idle s₁.outputs
      ∧ s₁.outputs.length = n ∧ s₁.dictionary = s.dictionary
      ∧ s₁.appliedTorque = s.appliedTorque := by
  obtain ⟨g₁, g₂, s₁, hkept₁, hs₁, houtputs, hrest⟩ := h.peel hk
  obtain ⟨s₂, hs₂, hkept₂⟩ := answer_aside (.outputs k) trivial hs₁
  rw [houtputs] at hs₂
  have hfound : outputs = s₁.outputs := by
    rw [← answer_outputs hs₁, houtputs]
  obtain ⟨g₃, g₄, s₃, hkept₃, hs₃, hset, hrest⟩ := hrest.peel hs₂
  have hkept := (hkept₁.trans hkept₂).trans hkept₃
  have hs₄ := answer_setOutputs safe hs₃
  rw [hfound, hkept₁.outputs, hzeros] at hsafe
  obtain ⟨hlength, hidle⟩ := idle_safeOutputs hsafe
  have hsame : safe.length = s₃.outputs.length := by
    rw [hkept.outputs, hzeros, hlength]
    exact List.length_replicate.symm
  rw [hset, Bytes.overwrite_of_length hsame] at hs₄
  exact ⟨g₄, _, hrest, hs₄, hidle, hlength, hkept.dictionary, hkept.torque⟩

/-- A slave that no torque was applied to rests after a bring-up, with the mapping that
it was given. -/
theorem Bringup.Course.rests (course : Bringup.Course c .standard name report)
    (h : Follows c.slave g course.trace g') (hk : g.slave? c.slave = some s)
    (hnew : s.appliedTorque = 0) :
    s.dictionary.Told c.slave course.configured
      ∧ ∃ s', g'.slave? c.slave = some s' ∧ s'.Resting
        ((s.dictionary.after c.slave course.configured).assigned Pdo.receive.assign)
        (report.outputBytes c.slave) := by
  have hquiet : ∀ e ∈ course.configured, e.1 ≠ .exchange :=
    course.forall_mem_configured (P := fun r => r ≠ .exchange) nofun nofun nofun
      (by rintro _ hpart rfl; cases hpart) (by rintro _ hpart - rfl; cases hpart)
  unfold Bringup.Course.trace at h
  rw [course.started_eq] at h
  obtain ⟨g₁, hconfigured, hrest⟩ := follows_append_iff.1 h
  obtain ⟨s₁, hs₁, happlied₁⟩ := hconfigured.applied hquiet hk
  obtain ⟨htold, s₁', hs₁', hdictionary₁⟩ := hconfigured.dictionary hk
  cases hs₁.symm.trans hs₁'
  obtain ⟨g₂, s₂, hstarted, hs₂, hzeros, hdictionary₂, happlied₂⟩ := laidOut hrest hs₁
  obtain ⟨g₃, s₃, hsettled, hs₃, hidle, hlength, hdictionary₃, happlied₃⟩ :=
    madeSafe hstarted hs₂ hzeros course.safe_outputs
  refine ⟨htold, hsettled.resting (tame_of_forall fun e he => ?_) hs₃ ?_⟩
  · exact leavesIdle_of_requests (course.settled_requests e he)
  · constructor
    case idle => exact hidle
    case assigned => rw [hdictionary₃, hdictionary₂, hdictionary₁]
    case size => exact hlength
    case torque => exact fun _ => by rw [happlied₃, happlied₂, happlied₁, hnew]

/-- The drive is new, and its mappings are where drives have them. -/
structure Plain (c : Config) (s : Slave) : Prop where
  dictionary : s.dictionary = .initial
  rx : c.mapping.rxPdo = .receive
  tx : c.mapping.txPdo = .transmit

theorem rests_of_run {t : Bringup.Trace}
    (hup : Runs (Bringup.run c .standard name) t (.ok report))
    (h : Follows c.slave g t g') (hk : g.slave? c.slave = some s) (hnew : s.appliedTorque = 0) :
    ∃ mapping, (Plain c s → Bringup.Received c report mapping)
      ∧ ∃ s', g'.slave? c.slave = some s' ∧ s'.Resting mapping (report.outputBytes c.slave) := by
  obtain ⟨slaves, u, rfl, hstages⟩ := Bringup.runs_run_ok hup
  obtain ⟨-, -, -, -, course, htrace⟩ := Bringup.stages_course name hstages
  rw [htrace] at h
  obtain ⟨htold, hrests⟩ := course.rests h hk hnew
  refine ⟨_, fun hplain => ?_, hrests⟩
  rw [hplain.dictionary] at htold ⊢
  exact course.received hplain.rx hplain.tx htold

-- ============================================================ the torque

open Cyclic (Session events setpoints busTrace)
open Simulation.Slave (Misleads)

/-- What an exchange on a segment makes of a drive that no torque is asked of. -/
structure Unasked (g : Segment) (before after : Slave) : Prop where
  /-- No torque is applied, unless the drive's mapping leads it astray; -/
  straight : ¬ before.Astray → after.appliedTorque = 0
  /-- if it does, one is applied exactly if the drive is enabled. -/
  astray : g.mapped = true → before.al = .operational →
    (after.appliedTorque ≠ 0 ↔ after.drive = .operationEnabled ∧ before.Astray)

/-- What leads a drive astray is what it was configured to receive. -/
structure Led (c : Config) (report : Bringup.Report) (s : Slave) : Prop where
  configured : s.Astray → Misleads c.rxMapping (report.outputBytes c.slave)
  negotiated {result : Negotiation.Outcome} : report.rx = .negotiated result →
    Misleads c.rxMapping (report.outputBytes c.slave) → s.Astray

theorem Led.of_received {mapping : List Pdo.Entry} (h : Bringup.Received c report mapping)
    (hrests : s.Resting mapping (report.outputBytes c.slave)) : Led c report s := by
  constructor
  case configured =>
    rw [hrests.astray_iff]
    intro hmisleads
    rcases h with rfl | ⟨-, rfl | rfl⟩
    · exact hmisleads
    · exact absurd hmisleads Slave.not_misleads_default
    · exact absurd hmisleads Slave.not_misleads_nil
  case negotiated =>
    rw [hrests.astray_iff]
    intro result hresult hmisleads
    rcases h with rfl | ⟨hfailed, -⟩
    · exact hmisleads
    · exact absurd hresult (hfailed result)

/-- What an exchange applies behind a bring-up, and behind requests that leave idle outputs
idle. -/
theorem applied_of_tame {t u : Bringup.Trace} {a : Except Bus.Fault UInt16}
    (hk : g.slave? c.slave = some s) (hnew : s.appliedTorque = 0)
    (hup : Runs (Bringup.run c .standard name) t (.ok report)) (htame : Tame c.slave u)
    (hfollows : Follows c.slave g (t ++ u) g₁) (hanswer : answer .exchange g₁ = (a, g₂)) :
    ∃ before after, g₁.slave? c.slave = some before ∧ g₂.slave? c.slave = some after
      ∧ Unasked g₁ before after ∧ (Plain c s → Led c report before) := by
  obtain ⟨g₀, hbringUp, hcyclic⟩ := follows_append_iff.1 hfollows
  obtain ⟨mapping, hreceived, s₀, hs₀, hrests⟩ := rests_of_run hup hbringUp hk hnew
  obtain ⟨before, hbefore, hrest⟩ := hcyclic.resting htame hs₀ hrests
  have hafter := answer_exchange hbefore
  rw [hanswer] at hafter
  refine ⟨before, _, hbefore, hafter, ?_, fun hplain => .of_received (hreceived hplain) hrest⟩
  constructor
  case straight =>
    intro hstraight
    split
    next => exact hrest.exchange_applied hstraight
    next => exact hrest.torque (fun hmisleads => hstraight (hrest.astray_iff.2 hmisleads))
  case astray =>
    intro hmapped hal
    rw [if_pos hmapped]
    exact (Slave.exchange_applied hrest.idle).1 hal

/-- A drive comes up that no torque was applied to, and an exchange goes on with it
without one being asked for. That holds of every exchange of process data then. -/
theorem applied_torque {log : List Cyclic.Stretch} {p : Cyclic.Point}
    {t u v : Bringup.Trace} {a : Except Bus.Fault UInt16}
    (hk : g.slave? c.slave = some s) (hnew : s.appliedTorque = 0)
    (hup : Runs (Bringup.run c .standard name) t (.ok report))
    (hsession : Session ⟨c.slave, .standard, c.timing, report.expectedWkc⟩ log p)
    (hnull : ∀ setpoint ∈ setpoints (events log), (setpoint.mul .thousand).toInt16 = 0)
    (hevents : busTrace (events log) = u ++ ⟨.exchange, a⟩ :: v)
    (hfollows : Follows c.slave g (t ++ u) g₁) (hanswer : answer .exchange g₁ = (a, g₂)) :
    ∃ before after, g₁.slave? c.slave = some before ∧ g₂.slave? c.slave = some after
      ∧ Unasked g₁ before after ∧ (Plain c s → Led c report before) := by
  have htame := hsession.tame rfl hnull
  rw [hevents, tame_append] at htame
  exact applied_of_tame hk hnew hup htame.1 hfollows hanswer

/-- So it is while the whole cyclic program runs behind a bring-up, whatever it does until
it ends. -/
theorem run_applied_torque {bound : Nat} {w : Cyclic.Trace} {r : Option Cyclic.State}
    {t u v : Bringup.Trace} {a : Except Bus.Fault UInt16}
    (hk : g.slave? c.slave = some s) (hnew : s.appliedTorque = 0)
    (hup : Runs (Bringup.run c .standard name) t (.ok report))
    (hrun : Runs (Cyclic.run ⟨c.slave, .standard, c.timing, report.expectedWkc⟩ bound {}) w r)
    (hnull : ∀ setpoint ∈ setpoints w, (setpoint.mul .thousand).toInt16 = 0)
    (hbus : busTrace w = u ++ ⟨.exchange, a⟩ :: v)
    (hfollows : Follows c.slave g (t ++ u) g₁) (hanswer : answer .exchange g₁ = (a, g₂)) :
    ∃ before after, g₁.slave? c.slave = some before ∧ g₂.slave? c.slave = some after
      ∧ Unasked g₁ before after ∧ (Plain c s → Led c report before) := by
  obtain ⟨log, p, hsession, rfl⟩ := Session.run hrun
  have htame := hsession.tame rfl hnull
  rw [hbus, tame_append] at htame
  exact applied_of_tame hk hnew hup htame.1 hfollows hanswer

-- ============================================================== samples

namespace Cyclic

/-- Answers the cyclic side from a segment, with nobody on the control side. -/
def unattended : (r : Request) → StateM Segment r.Answer
  | .bus r => Segment.answer r
  | .isReady => pure true
  | .isStopped | .takeReenable => pure false
  | .setpoint => pure .zero
  | .publish _ => pure ()
  | .now => pure .zero

/-- A cyclic program that a segment answers is followed. -/
theorem follows_unattended {α : Type} {p : CyclicProgram α} {g : Segment}
    {recorded : Trace × α × Segment} (h : p.record unattended g = recorded) :
    Follows k g (busTrace recorded.1) recorded.2.2 := by
  induction p generalizing g recorded with
  | done value =>
    subst h
    exact .nil (.refl g)
  | request r resume ih =>
    subst h
    have hrest := ih (unattended r g).1 (g := (unattended r g).2) rfl
    cases r with
    | bus r => exact .request (.refl g) rfl hrest
    | _ => exact hrest

/-- A step on a segment, as a session has it. -/
theorem Session.step_unattended {s : State} (h : Session settings log { state := s })
    (g : Segment) :
    ∃ log', Session settings (log ++ log')
        { state := ((Cyclic.step settings s).record unattended g).2.1.2 }
      ∧ events log' = ((Cyclic.step settings s).record unattended g).1 :=
  h.step (runs_record unattended (Cyclic.step settings s) g)

end Cyclic

open DataObject.Standard in
/-- The operation mode is left out of the mapping, where the layout has it. -/
def misleading : Config :=
  { mapping := { rx := [.ofObject controlword, .ofObject targetTorque] } }

/-- What a bring-up of one new drive requests. -/
def misleadingRun : Bringup.Trace × Except Bringup.Stop Bringup.Report × Segment :=
  (Bringup.run misleading .standard "eth0").record Segment.answer (.ofCount 1)

/-- What it reports. -/
def misleadingReport : Bringup.Report where
  slaves := 1
  parameterFailures := []
  modeDisplay := some OperationMode.torqueProfile.raw
  rx := .negotiated .applied
  tx := .negotiated .unchanged
  distributedClocks := true
  image := ⟨[⟨4, 9⟩], 1, 1⟩
  expectedWkc := 3

theorem misleadingRun_runs :
    Runs (Bringup.run misleading .standard "eth0") misleadingRun.1 (.ok misleadingReport) :=
  runs_record ..

/-- What the cyclic side is told then. -/
def misleadingSettings : Cyclic.Settings :=
  ⟨misleading.slave, .standard, misleading.timing, misleadingReport.expectedWkc⟩

/-- The first step, which enables the drive. -/
def misleadingStep : Cyclic.Trace × (Bool × Cyclic.State) × Segment :=
  (Cyclic.step misleadingSettings {}).record Cyclic.unattended misleadingRun.2.2

/-- What it requests of the bus before its last exchange. -/
def misleadingPrefix : Bringup.Trace := (busTrace misleadingStep.1).take 15

set_option maxRecDepth 4000 in
theorem misleadingStep_busTrace : busTrace misleadingStep.1
    = misleadingPrefix ++ ⟨.exchange, .ok 3⟩
      :: [⟨.inputs 1, [0x37, 2, 4, 0, 0, 0, 0, 4, 0]⟩, ⟨.outputs 1, [15, 0, 4, 0]⟩,
        ⟨.setOutputs 1 [15, 0, 4, 0], ()⟩] :=
  rfl

set_option maxRecDepth 4000 in
theorem misleadingStep_setpoints : setpoints misleadingStep.1 = [.zero] := rfl

set_option maxRecDepth 4000 in
theorem misleadingStep_applies :
    (misleadingStep.2.2.slave? 1).map Slave.appliedTorque = some 4 := rfl

/-- The segment around the last exchange of the step, and after it. -/
theorem misleading_exchange : ∃ g₁ g₂,
    Follows misleading.slave (.ofCount 1) (misleadingRun.1 ++ misleadingPrefix) g₁
      ∧ Segment.answer .exchange g₁ = (.ok 3, g₂)
      ∧ ∀ s, g₂.slave? misleading.slave = some s → s.appliedTorque = 4 := by
  have hrun : Follows misleading.slave (.ofCount 1) misleadingRun.1 misleadingRun.2.2 :=
    follows_record (p := Bringup.run misleading .standard "eth0") rfl
  have hstep : Follows misleading.slave misleadingRun.2.2 (busTrace misleadingStep.1)
      misleadingStep.2.2 :=
    Cyclic.follows_unattended (p := Cyclic.step misleadingSettings {}) rfl
  have hfollows := follows_append_iff.2 ⟨_, hrun, hstep⟩
  rw [misleadingStep_busTrace, ← List.append_assoc] at hfollows
  obtain ⟨g₁, g₂, hbefore, hanswer, hafter⟩ := hfollows.split
  refine ⟨g₁, g₂, hbefore, hanswer, fun s hs => ?_⟩
  obtain ⟨s', hs', hsame⟩ := hafter.applied (by simp) hs
  have happlies : (misleadingStep.2.2.slave? misleading.slave).map Slave.appliedTorque
      = some 4 := misleadingStep_applies
  rw [hs'] at happlies
  exact hsame.symm.trans (Option.some.inj happlies)

theorem misleading_session : ∃ log p, Session misleadingSettings log p
    ∧ events log = misleadingStep.1 := by
  obtain ⟨log, hsession, hevents⟩ := Session.new.step_unattended misleadingRun.2.2
  exact ⟨log, _, hsession, hevents⟩

/-- The exchange that enables the drive, which was led astray: its torque is the byte
of the operation mode. -/
theorem applied_torque_misleading : ∃ g₁ g₂ before after,
    Follows misleading.slave (.ofCount 1) (misleadingRun.1 ++ misleadingPrefix) g₁
      ∧ Segment.answer .exchange g₁ = (.ok 3, g₂)
      ∧ g₁.slave? misleading.slave = some before ∧ g₂.slave? misleading.slave = some after
      ∧ Unasked g₁ before after ∧ Led misleading misleadingReport before
      ∧ after.appliedTorque = 4 := by
  obtain ⟨g₁, g₂, hfollows, hanswer, happlies⟩ := misleading_exchange
  obtain ⟨log, p, hsession, hevents⟩ := misleading_session
  have hnull : ∀ setpoint ∈ setpoints (events log), (setpoint.mul .thousand).toInt16 = 0 := by
    rw [hevents, misleadingStep_setpoints]
    decide
  have hbus := (congrArg busTrace hevents).trans misleadingStep_busTrace
  obtain ⟨before, after, hbefore, hafter, hunasked, hled⟩ :=
    applied_torque rfl rfl misleadingRun_runs hsession hnull hbus hfollows hanswer
  exact ⟨g₁, g₂, before, after, hfollows, hanswer, hbefore, hafter, hunasked,
    hled ⟨rfl, rfl, rfl⟩, happlies after hafter⟩

/-- A mapping of the default objects that is accepted can still make a drive apply a
torque that nobody asked for. -/
theorem not_applied_null : ¬ ∀ (c : Config) (name : String) (report : Bringup.Report) (n : Nat)
    (t u v : Bringup.Trace) (log : List Cyclic.Stretch) (p : Cyclic.Point)
    (a : Except Bus.Fault UInt16) (g₁ g₂ : Segment), c.validate = .ok () →
    c.mapping.rxPdo = .receive → c.mapping.txPdo = .transmit →
    Runs (Bringup.run c .standard name) t (.ok report) →
    Session ⟨c.slave, .standard, c.timing, report.expectedWkc⟩ log p →
    (∀ setpoint ∈ setpoints (events log), setpoint = .zero) →
    busTrace (events log) = u ++ ⟨.exchange, a⟩ :: v →
    Follows c.slave (.ofCount n) (t ++ u) g₁ → Segment.answer .exchange g₁ = (a, g₂) →
    ∃ s, g₂.slave? c.slave = some s ∧ s.appliedTorque = 0 := by
  intro h
  obtain ⟨g₁, g₂, hfollows, hanswer, happlies⟩ := misleading_exchange
  obtain ⟨log, p, hsession, hevents⟩ := misleading_session
  have hnull : ∀ setpoint ∈ setpoints (events log), setpoint = .zero := by
    rw [hevents, misleadingStep_setpoints]
    decide
  have hbus := (congrArg busTrace hevents).trans misleadingStep_busTrace
  obtain ⟨s, hs, hzero⟩ := h misleading "eth0" misleadingReport 1 _ _ _ log p _ g₁ g₂ rfl rfl rfl
    misleadingRun_runs hsession hnull hbus hfollows hanswer
  rw [happlies s hs] at hzero
  exact absurd hzero (by decide)

end Servo
