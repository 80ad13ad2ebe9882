/-
Steps whose exchange has failed.

An exchange that fails counts no slave, and the zero stands for it from then on. So
whether the step is taken for a degraded one hangs on what is expected, and that is
read off the process image: a failed exchange falls below anything but an expectation
of zero. `rejected_iff` has the exact condition in terms of the image, and what the
step does where the failure goes unnoticed.

# Where it goes unnoticed

A bring-up looks at the size of the image only. `not_rejected` has one that succeeds
on a bus whose image counts nothing: the first step after it loses its exchange, and
is a good one.
-/
import Servo.Proofs.Bringup.Success
import Servo.Proofs.Cyclic.Interlock
import Servo.Proofs.Cyclic.Steps

namespace Servo

open Program

/-- Nothing is expected of just the images that count nothing. -/
theorem Bus.ImageMap.expectedWkc_eq_zero_iff {map : Bus.ImageMap} :
    map.expectedWkc = 0 ↔ map.outputsWkc = 0 ∧ map.inputsWkc = 0 := by
  have hsum := map.toNat_expectedWkc
  rw [← UInt16.toNat_inj, ← UInt16.toNat_inj, ← UInt16.toNat_inj, hsum]
  simp only [UInt16.toNat_zero]
  omega

namespace Cyclic

variable {c : Settings} {s s' : State} {t : Trace} {good : Bool} {fault : Bus.Fault}
  {map : Bus.ImageMap}

/-- A step is taken for one of a degraded cycle. -/
structure Rejected (s : State) (t : Trace) (r : Bool × State) (before after : Telemetry) :
    Prop where
  told : r.1 = false
  communication : after.communicationOk = false
  degraded : after.degradedCycles = before.degradedCycles + 1
  drive : SameDrive before after
  /-- No inputs are looked at, by the step or by an enabling sequence, -/
  unread : ∀ slave bytes, ⟨.bus (.inputs slave), bytes⟩ ∉ t
  /-- and a sequence that was due is still due. -/
  due : s.enablePending = true → r.2.enablePending = true

/-- Inputs of the slave are looked at, and what they hold is published. -/
def Receives (c : Settings) (t : Trace) : Prop :=
  ∃ inputs velocity controlword wkc, ⟨.bus (.inputs c.slave), inputs⟩ ∈ t
    ∧ .received (readInputs c.layout inputs) (.decode (c.layout.statuswordIn inputs)) velocity
        controlword wkc ∈ publications t

/-- A step is taken for a good one. -/
structure Accepted (c : Settings) (t : Trace) (r : Bool × State) (before after : Telemetry) :
    Prop where
  told : r.1 = true
  communication : after.communicationOk = true
  degraded : after.degradedCycles = before.degradedCycles
  /-- Inputs are looked at and published, -/
  received : Receives c t
  /-- and no enabling sequence is due any more. -/
  settled : r.2.enablePending = false

theorem Cycled.unread (h : Cycled c s t (false, s')) (slave : UInt16) (bytes : Bytes) :
    ⟨.bus (.inputs slave), bytes⟩ ∉ t := by
  cases h with
  | degraded => simp [sendTrace]

theorem Looked.unread (h : Looked c s t) (slave : UInt16) (bytes : Bytes) :
    ⟨.bus (.inputs slave), bytes⟩ ∉ t := by
  cases h with
  | due _ hwatched => cases hwatched <;> simp
  | spared => exact List.not_mem_nil

theorem Cycled.receives (h : Cycled c s t (true, s')) : Receives c t := by
  cases h with
  | good again setpoint outputs answer inputs hgood hclock =>
    have hdrive : s'.drive = .decode (c.layout.statuswordIn inputs) :=
      congrArg State.drive (runs_updateVelocity hclock).2
    refine ⟨inputs, s'.velocity, s'.controlword, counted answer, by simp, ?_⟩
    rw [publications_append, ← hdrive]
    exact List.mem_append_right _ List.mem_cons_self

theorem Stepped.rejected (h : Stepped c s t (false, s')) (before : Telemetry) :
    Rejected s t (false, s') before ((publications t).foldl Telemetry.publish before) := by
  obtain ⟨answer, -, haccount⟩ := h.account before
  cases h with
  | plain hcycle _ hlooked =>
    constructor
    case told => rfl
    case communication => exact haccount.communicationOk
    case degraded => exact haccount.degradedCycles
    case drive => exact haccount.drive rfl
    case unread =>
      intro slave bytes hmem
      rcases List.mem_append.1 hmem with hmem | hmem
      · exact hcycle.unread slave bytes hmem
      · exact hlooked.unread slave bytes hmem
    case due =>
      intro hdue
      cases hcycle with
      | degraded again =>
        show (s.enablePending || again) = true
        rw [hdue]
        rfl

theorem Stepped.accepted (h : Stepped c s t (true, s')) (before : Telemetry) :
    Accepted c t (true, s') before ((publications t).foldl Telemetry.publish before) := by
  obtain ⟨answer, -, haccount⟩ := h.account before
  constructor
  case told => rfl
  case communication => exact haccount.communicationOk
  case degraded => exact haccount.degradedCycles.trans (UInt64.add_zero _)
  case received =>
    cases h with
    | plain hcycle | enabling hcycle =>
      obtain ⟨inputs, velocity, controlword, wkc, hread, hpublished⟩ := hcycle.receives
      exact ⟨inputs, velocity, controlword, wkc, by simp [hread], by simp [hpublished]⟩
  case settled =>
    cases h with
    | plain _ hspared => exact hspared
    | enabling =>
      show (State.settle _ _).enablePending = false
      unfold State.settle
      split <;> rfl

/-- A step whose own exchange failed is taken for a degraded one, unless the image counts
nothing at all. It is taken for a good one then. -/
theorem rejected_iff (hexpected : c.expectedWkc = map.expectedWkc)
    (h : Runs (step c s) t (good, s')) (hlost : (exchanges t).head? = some (.error fault))
    (before : Telemetry) :
    let after := (publications t).foldl Telemetry.publish before
    (Rejected s t (good, s') before after ↔ ¬ (map.outputsWkc = 0 ∧ map.inputsWkc = 0))
      ∧ (map.outputsWkc = 0 ∧ map.inputsWkc = 0 → Accepted c t (good, s') before after) := by
  intro after
  have hstepped := runs_step h
  obtain ⟨answer, hanswer, haccount⟩ := hstepped.account before
  cases hlost.symm.trans hanswer
  -- a failed exchange counts zero, and only an expectation of zero is met by it
  have hgood : good = true ↔ map.outputsWkc = 0 ∧ map.inputsWkc = 0 := by
    rw [haccount.enough, decide_eq_true_iff, ← Bus.ImageMap.expectedWkc_eq_zero_iff, ← hexpected]
    exact UInt16.le_zero_iff
  rw [← hgood]
  cases good with
  | false =>
    have hrejected := hstepped.rejected before
    exact ⟨⟨fun _ => Bool.false_ne_true, fun _ => hrejected⟩, fun h => absurd h Bool.false_ne_true⟩
  | true =>
    exact ⟨⟨fun hrejected => absurd hrejected.told Bool.false_ne_true.symm,
      fun h => absurd rfl h⟩, fun _ => hstepped.accepted before⟩

-- ============================================ a bus that counts nothing

/-- Answers from a segment, but that no slave is counted. -/
def uncounted : (r : Bus.Request) → StateM Simulation.Segment r.Answer
  | .map => return (← Simulation.Segment.answer .map).map fun map =>
    { map with outputsWkc := 0, inputsWkc := 0 }
  | r => Simulation.Segment.answer r

/-- A bring-up of one new drive there. -/
def uncountedRun : Bringup.Trace × Except Bringup.Stop Bringup.Report × Simulation.Segment :=
  (Bringup.run {} .standard "eth0").record uncounted (.ofCount 1)

/-- What it reports. -/
def uncountedReport : Bringup.Report where
  slaves := 1
  parameterFailures := []
  modeDisplay := some OperationMode.torqueProfile.raw
  rx := .negotiated .unchanged
  tx := .negotiated .unchanged
  distributedClocks := true
  image := ⟨[⟨9, 9⟩], 0, 0⟩
  expectedWkc := 0

theorem uncountedRun_runs :
    Runs (Bringup.run {} .standard "eth0") uncountedRun.1 (.ok uncountedReport) :=
  runs_record ..

/-- What the cyclic side is told then. -/
def uncountedSettings : Settings :=
  ⟨Config.slave {}, .standard, Config.timing {}, uncountedReport.expectedWkc⟩

/-- The first step. Its exchange fails, and the inputs still show a drive that is enabled
when they are looked at, by the cycle and by the enabling sequence. -/
def uncountedStep : Trace :=
  sendTrace uncountedSettings {} false .zero (List.replicate 9 0) (.error (.timeout "no reply"))
    ++ [⟨.bus (.inputs 1), Packed.bytes (0x27 : UInt16)⟩,
      ⟨.publish (.received ⟨0x27, none, none, none, none⟩ .operationEnabled .zero 6 0), ()⟩]
    ++ Enabling.attemptTrace 1 .standard (Packed.bytes (0x27 : UInt16)) (List.replicate 9 0)
      (15 :: List.replicate 8 0)

/-- What it ends with. -/
def uncountedEnd : Bool × State := (true, (State.read {} 0x27).settle ⟨true, some 0x27⟩)

theorem uncountedStep_runs : Runs (step uncountedSettings {}) uncountedStep uncountedEnd :=
  Runs.of_replay rfl

/-- The failure goes unnoticed, and the drive counts as enabled. -/
theorem rejected_iff_unnoticed :
    let after := (publications uncountedStep).foldl Telemetry.publish {}
    Accepted uncountedSettings uncountedStep uncountedEnd {} after ∧ after.enabled = true
      ∧ ¬ Rejected {} uncountedStep uncountedEnd {} after := by
  intro after
  have hexpected : uncountedSettings.expectedWkc = uncountedReport.image.expectedWkc := rfl
  obtain ⟨hrejected, haccepted⟩ := rejected_iff hexpected uncountedStep_runs rfl {}
  exact ⟨haccepted ⟨rfl, rfl⟩, rfl, fun h => hrejected.1 h ⟨rfl, rfl⟩⟩

/-- Not every failed exchange is noticed, after a bring-up that succeeds with a
configuration that is accepted. -/
theorem not_rejected : ¬ ∀ (config : Config) (name : String) (u : Bringup.Trace)
    (report : Bringup.Report) (s : State) (t : Trace) (r : Bool × State) (fault : Bus.Fault)
    (before : Telemetry), config.validate = .ok () →
    Runs (Bringup.run config .standard name) u (.ok report) →
    Runs (step ⟨config.slave, .standard, config.timing, report.expectedWkc⟩ s) t r →
    (exchanges t).head? = some (.error fault) →
    Rejected s t r before ((publications t).foldl Telemetry.publish before) := by
  intro h
  have hrejected := h {} "eth0" _ uncountedReport {} uncountedStep uncountedEnd
    (.timeout "no reply") {} rfl uncountedRun_runs uncountedStep_runs rfl
  exact absurd hrejected.told Bool.false_ne_true.symm

end Cyclic

end Servo
