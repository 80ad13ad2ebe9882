/-
What the success of a bring-up stands for.

A bring-up tolerates a lot on its way: parameters that are refused, mappings that
cannot be negotiated, clocks that are missing, exchanges that fail. `run_succeeds`
says what is certain all the same when it reports success, on every bus.

# The course

Nothing that is tolerated moves a stage out of its place. So the requests of every
successful run are cut into one and the same course (`Course`): what configures
the segment, the request that lays out the process image, and what starts the
exchange after it. Each piece carries the proof of what it is, down to the last
poll of each slave that was brought to a state (`Brought`) and the last look at
each of them (`Confirmed`).

The stages are taken apart in the order they run (`exists_staged`), and of each it is
said, one lemma for one stage, what it requests; `stages_course` puts the pieces together.
-/
import Servo.Proofs.Bringup.Failure
import Servo.Proofs.StateControl
import Servo.Simulation.Segment

namespace Servo

-- ==================================================== working counter

/-- The counter of a full cycle is the true sum, as far as a word reaches. -/
theorem Bus.ImageMap.toNat_expectedWkc (map : Bus.ImageMap) :
    map.expectedWkc.toNat = min 65535 (2 * map.outputsWkc.toNat + map.inputsWkc.toNat) := by
  have hlt : min (min (2 * map.outputsWkc.toNat) 65535 + map.inputsWkc.toNat) 65535 < 2 ^ 16 := by
    omega
  unfold Bus.ImageMap.expectedWkc
  rw [UInt16.toNat_ofNat_of_lt' hlt]
  omega

namespace Bringup

open Program Bus

variable {c : Config} {layout : Layout} {name : String} {slaves : UInt16} {t : Trace}
  {report : Report}

-- ========================================================== the course

/-- Slaves were brought to a state one after the other, and each was seen there
before the next one was turned to. -/
inductive Brought (timing : Timing) (target : AlState) : List UInt16 → Trace → Prop
  | nil : Brought timing target [] []
  | cons {slave : UInt16} {rest : List UInt16} {t u : Trace} :
      Runs (StateControl.reach timing slave target) t (.ok ()) →
      StateControl.EndsShowing slave target t → Brought timing target rest u →
      Brought timing target (slave :: rest) (t ++ u)

/-- One look at each slave, and each was operational. -/
inductive Confirmed : List UInt16 → Trace → Prop
  | nil : Confirmed [] []
  | cons {slave : UInt16} {rest : List UInt16} {u : Trace} (alStatus : AlStatus) :
      Confirmed rest u →
      Confirmed (slave :: rest) (⟨.state slave, .ok ⟨some .operational, alStatus⟩⟩ :: u)

/-- The request that writes a parameter. -/
def Parameter.request (slave : UInt16) (parameter : Parameter) : Bus.Request :=
  .sdoWrite slave parameter.address parameter.data

/-- The requests of a successful bring-up and their answers, piece by piece. -/
structure Course (c : Config) (layout : Layout) (name : String) (report : Report) where
  toInit : Trace
  toPreOperational : Trace
  writes : Trace
  shown : Except Fault Bytes
  mappings : Trace
  clocks : Except Fault Unit
  outputs : Bytes
  safe : Bytes
  toSafe : Trace
  burst : Trace
  toOperational : Trace
  looks : Trace
  toInit_brought : Brought c.timing .init (slavesOf report.slaves) toInit
  toPreOperational_brought :
    Brought c.timing .preOperational (slavesOf report.slaves) toPreOperational
  writes_requests :
    requests writes = (optionalParameters c.parameters).map (Parameter.request c.slave)
  mappings_runs : Runs (negotiateMappings c) mappings (report.rx, report.tx)
  safe_outputs : layout.safeOutputs outputs OperationMode.torqueProfile.raw = (safe, .ok ())
  toSafe_brought : Brought c.timing .safeOperational (slavesOf report.slaves) toSafe
  burst_requests :
    requests burst = List.replicate (1 + c.timing.watchdogCycles.toNat) .exchange
  toOperational_brought : Brought c.timing .operational (slavesOf report.slaves) toOperational
  looks_confirmed : Confirmed (slavesOf report.slaves) looks

namespace Course

/-- The operation mode is written, and taken; what the drive says of the other
parameters, and of the mode it shows, is tolerated. -/
def parameters (course : Course c layout name report) : Trace :=
  ⟨.sdoWrite c.slave DataObject.Standard.modeOfOperation.address
      (Packed.bytes OperationMode.torqueProfile), .ok ()⟩
    :: course.writes
    ++ [⟨.sdoRead c.slave DataObject.Standard.modeDisplay.address 1, course.shown⟩]

/-- Everything up to where the process image is laid out. -/
def configured (course : Course c layout name report) : Trace :=
  [⟨.init name, .ok ()⟩, ⟨.discover, .ok report.slaves⟩]
    ++ course.toInit ++ course.toPreOperational ++ course.parameters ++ course.mappings
    ++ [⟨.clocks, course.clocks⟩]

/-- Everything after that. -/
def started (course : Course c layout name report) : Trace :=
  [⟨.outputs c.slave, course.outputs⟩, ⟨.setOutputs c.slave course.safe, ()⟩]
    ++ course.toSafe ++ course.burst ++ course.toOperational ++ course.looks

/-- The whole of it. -/
def trace (course : Course c layout name report) : Trace :=
  course.configured ++ ⟨.map, .ok report.image⟩ :: course.started

end Course

-- ============================================================== stages

/-- Slaves that were brought to a state reached it one after the other. -/
theorem bringTo_brought {timing : Timing} {target : AlState} {list : List UInt16}
    (h : Runs (bringTo timing target list).run t (.ok ())) : Brought timing target list t := by
  induction list generalizing t with
  | nil =>
    obtain ⟨rfl, -⟩ := runs_pure_iff.1 h
    exact .nil
  | cons slave rest ih =>
    obtain ⟨u, _, v, rfl, hreach, hrest⟩ := runs_bind_ok_iff.1 h
    have hreach := runs_failing_ok_iff.1 hreach
    exact .cons hreach (StateControl.reach_ends hreach) (ih hrest)

/-- Every optional parameter is written, whatever becomes of the ones before. -/
theorem writeOptional_requests {slave : UInt16} {parameters : List Parameter}
    {failures : List (String × Fault)} (h : Runs (writeOptional slave parameters) t failures) :
    requests t = parameters.map (Parameter.request slave) := by
  induction parameters generalizing t failures with
  | nil =>
    obtain ⟨rfl, -⟩ := runs_pure_iff.1 h
    rfl
  | cons parameter rest ih =>
    obtain ⟨answer, u, rfl, hrest⟩ := runs_request_bind_iff.1 h
    obtain ⟨v, others, w, rfl, hwrite, hdone⟩ := runs_bind_iff.1 hrest
    have hw : w = [] := by
      cases answer with
      | ok => exact (runs_pure_iff.1 hdone).1
      | error => exact (runs_pure_iff.1 hdone).1
    rw [hw, List.append_nil]
    show _ :: requests v = _
    rw [ih hwrite]
    rfl

/-- The operation mode is written first, and its display is read at last. -/
theorem writeParameters_requests {result : List (String × Fault) × Option Int8}
    (h : Runs (writeParameters c).run t (.ok result)) :
    ∃ writes shown,
      requests writes = (optionalParameters c.parameters).map (Parameter.request c.slave)
      ∧ t = ⟨.sdoWrite c.slave DataObject.Standard.modeOfOperation.address
            (Packed.bytes OperationMode.torqueProfile), .ok ()⟩ :: writes
          ++ [⟨.sdoRead c.slave DataObject.Standard.modeDisplay.address 1, shown⟩] := by
  unfold writeParameters at h
  obtain ⟨u, _, v, rfl, hmode, h⟩ := runs_bind_ok_iff.1 h
  obtain ⟨v, failures, w, rfl, hwrites, h⟩ := runs_bind_ok_iff.1 h
  obtain ⟨w, mode, x, rfl, hshown, h⟩ := runs_bind_ok_iff.1 h
  obtain ⟨rfl, -⟩ := runs_pure_iff.1 h
  obtain ⟨_, -, hwrites⟩ := runs_lift_iff.1 hwrites
  obtain ⟨_, -, hshown⟩ := runs_lift_iff.1 hshown
  obtain ⟨shown, rfl, -⟩ := DataObject.runs_read_iff.1 hshown
  obtain rfl := runs_perform_iff.1 (runs_require_ok_iff.1 hmode)
  refine ⟨v, shown, writeOptional_requests hwrites, ?_⟩
  rw [List.append_nil]
  rfl

/-- What to require of an image can be computed, and the image has it. -/
def Sized (c : Config) (image : SlaveImage) : Prop :=
  ∃ required, requiredBytes? c = some required ∧ checkImage c required.toNat image = .ok ()

/-- The image is laid out, found large enough, and safe outputs are put there. -/
theorem prepareImage_requests {image : ImageMap}
    (h : Runs (prepareImage c layout).run t (.ok image)) :
    Sized c ((image.slave? c.slave).getD ⟨0, 0⟩)
      ∧ ∃ outputs safe, layout.safeOutputs outputs OperationMode.torqueProfile.raw = (safe, .ok ())
      ∧ t = [⟨.map, .ok image⟩, ⟨.outputs c.slave, outputs⟩, ⟨.setOutputs c.slave safe, ()⟩] := by
  unfold prepareImage at h
  obtain ⟨u, map, v, rfl, hmap, h⟩ := runs_bind_ok_iff.1 h
  obtain ⟨v, required, w, rfl, hcomputed, h⟩ := runs_bind_ok_iff.1 h
  obtain ⟨w, _, x, rfl, hcheck, h⟩ := runs_bind_ok_iff.1 h
  obtain ⟨x, outputs, y, rfl, houtputs, h⟩ := runs_bind_ok_iff.1 h
  cases hsafe : layout.safeOutputs outputs OperationMode.torqueProfile.raw with
  | mk safe result =>
    rw [hsafe] at h
    obtain ⟨y, _, z, rfl, hset, h⟩ := runs_bind_ok_iff.1 h
    obtain ⟨z, _, z', rfl, hresult, h⟩ := runs_bind_ok_iff.1 h
    obtain ⟨rfl, himage⟩ := runs_pure_iff.1 h
    cases himage
    obtain rfl := runs_perform_iff.1 (runs_require_ok_iff.1 hmap)
    obtain ⟨rfl, hrequired⟩ := runs_computed_ok_iff.1 hcomputed
    obtain ⟨rfl, hsized⟩ := runs_pure_iff.1 (runs_failing_ok_iff.1 hcheck)
    obtain rfl := runs_stage_request_iff.1 houtputs
    obtain rfl := runs_stage_request_iff.1 hset
    obtain ⟨rfl, rfl⟩ := runs_pure_iff.1 (runs_failing_ok_iff.1 hresult)
    exact ⟨⟨required, hrequired, hsized.symm⟩, outputs, safe, hsafe, rfl⟩

/-- The warm-up exchanges as often as it is told to, whatever is answered. -/
theorem exchangeTimes_requests {n : Nat} {v : Unit} (h : Runs (exchangeTimes n) t v) :
    requests t = List.replicate n .exchange := by
  induction n generalizing t with
  | zero =>
    obtain ⟨rfl, -⟩ := runs_pure_iff.1 h
    rfl
  | succ n ih =>
    obtain ⟨answer, u, rfl, hrest⟩ := runs_request_bind_iff.1 h
    show _ :: requests u = _
    rw [ih hrest]
    rfl

/-- Slaves that passed the last look were seen to be operational. -/
theorem checkOperational_confirmed {list : List UInt16}
    (h : Runs (checkOperational list).run t (.ok ())) : Confirmed list t := by
  induction list generalizing t with
  | nil =>
    obtain ⟨rfl, -⟩ := runs_pure_iff.1 h
    exact .nil
  | cons slave rest ih =>
    unfold checkOperational at h
    obtain ⟨u, answer, v, rfl, hlook, hrest⟩ := runs_bind_ok_iff.1 h
    obtain rfl := runs_stage_request_iff.1 hlook
    dsimp only at hrest
    split at hrest
    next hlost =>
      obtain ⟨w, _, x, rfl, hthrow, -⟩ := runs_bind_ok_iff.1 hrest
      obtain ⟨-, hr⟩ := runs_pure_iff.1 hthrow
      cases hr
    next hthere =>
      have hthere : answer.toOption.bind Status.state = some .operational := Decidable.not_not.1 hthere
      cases answer with
      | error fault => cases hthere
      | ok status =>
        obtain ⟨state, alStatus⟩ := status
        obtain rfl : state = some .operational := hthere
        exact .cons alStatus (ih hrest)

/-- The stages that follow the discovery, each with the requests that it came to. -/
structure Staged (c : Config) (layout : Layout) (report : Report) where
  toInit : Trace
  toPreOperational : Trace
  parameters : Trace
  mappings : Trace
  clocks : Except Fault Unit
  image : Trace
  toSafe : Trace
  burst : Trace
  toOperational : Trace
  looks : Trace
  toInit_runs : Runs (bringTo c.timing .init (slavesOf report.slaves)).run toInit (.ok ())
  toPreOperational_runs :
    Runs (bringTo c.timing .preOperational (slavesOf report.slaves)).run toPreOperational (.ok ())
  parameters_runs : Runs (writeParameters c).run parameters
    (.ok (report.parameterFailures, report.modeDisplay))
  mappings_runs : Runs (negotiateMappings c) mappings (report.rx, report.tx)
  image_runs : Runs (prepareImage c layout).run image (.ok report.image)
  toSafe_runs :
    Runs (bringTo c.timing .safeOperational (slavesOf report.slaves)).run toSafe (.ok ())
  burst_runs : Runs (feedWatchdogs c.timing) burst ()
  toOperational_runs :
    Runs (bringTo c.timing .operational (slavesOf report.slaves)).run toOperational (.ok ())
  looks_runs : Runs (checkOperational (slavesOf report.slaves)).run looks (.ok ())

/-- The requests of the stages in their order. -/
def Staged.trace (s : Staged c layout report) : Trace :=
  s.toInit ++ (s.toPreOperational ++ (s.parameters ++ (s.mappings ++ (⟨.clocks, s.clocks⟩ ::
    (s.image ++ (s.toSafe ++ (s.burst ++ (s.toOperational ++ s.looks))))))))

/-- Every stage has its turn where the report is given. -/
theorem exists_staged (h : Runs (stages c layout slaves).run t (.ok report)) :
    slaves ≠ 0 ∧ c.slave ≤ slaves ∧ report.slaves = slaves
      ∧ report.expectedWkc = report.image.expectedWkc
      ∧ ∃ s : Staged c layout report, t = s.trace := by
  unfold stages at h
  by_cases hzero : slaves = 0
  · rw [if_pos hzero] at h
    obtain ⟨_, _, _, -, hthrow, -⟩ := runs_bind_ok_iff.1 h
    obtain ⟨-, hr⟩ := runs_pure_iff.1 hthrow
    cases hr
  by_cases hmissing : slaves < c.slave
  · rw [if_neg hzero, if_pos hmissing] at h
    obtain ⟨_, _, _, -, hthrow, -⟩ := runs_bind_ok_iff.1 h
    obtain ⟨-, hr⟩ := runs_pure_iff.1 hthrow
    cases hr
  rw [if_neg hzero, if_neg hmissing] at h
  obtain ⟨t₁, _, t, rfl, hinit, h⟩ := runs_bind_ok_iff.1 h
  obtain ⟨t₂, _, t, rfl, hpre, h⟩ := runs_bind_ok_iff.1 h
  obtain ⟨t₃, parameters, t, rfl, hparameters, h⟩ := runs_bind_ok_iff.1 h
  obtain ⟨t₄, mappings, t, rfl, hmappings, h⟩ := runs_bind_ok_iff.1 h
  obtain ⟨t₅, clocks, t, rfl, hclocks, h⟩ := runs_bind_ok_iff.1 h
  obtain ⟨t₆, image, t, rfl, himage, h⟩ := runs_bind_ok_iff.1 h
  obtain ⟨t₇, _, t, rfl, hsafe, h⟩ := runs_bind_ok_iff.1 h
  obtain ⟨t₈, _, t, rfl, hburst, h⟩ := runs_bind_ok_iff.1 h
  obtain ⟨t₉, _, t, rfl, hoperational, h⟩ := runs_bind_ok_iff.1 h
  obtain ⟨t₁₀, _, t, rfl, hlooks, h⟩ := runs_bind_ok_iff.1 h
  obtain ⟨rfl, hreport⟩ := runs_pure_iff.1 h
  cases hreport
  obtain ⟨_, hm, hmappings⟩ := runs_lift_iff.1 hmappings
  cases hm
  obtain rfl := runs_stage_request_iff.1 hclocks
  obtain ⟨_, -, hburst⟩ := runs_lift_iff.1 hburst
  refine ⟨hzero, UInt16.not_lt.1 hmissing, rfl, rfl, {
    toInit := t₁, toPreOperational := t₂, parameters := t₃, mappings := t₄, clocks, image := t₆
    toSafe := t₇, burst := t₈, toOperational := t₉, looks := t₁₀
    toInit_runs := hinit
    toPreOperational_runs := hpre
    parameters_runs := hparameters
    mappings_runs := hmappings
    image_runs := himage
    toSafe_runs := hsafe
    burst_runs := hburst
    toOperational_runs := hoperational
    looks_runs := hlooks }, ?_⟩
  simp [Staged.trace]

/-- What the stages came to is the course of a bring-up. -/
theorem stages_course (name : String) (h : Runs (stages c layout slaves).run t (.ok report)) :
    slaves ≠ 0 ∧ c.slave ≤ slaves ∧ report.slaves = slaves
      ∧ report.expectedWkc = report.image.expectedWkc
      ∧ ∃ course : Course c layout name report,
        [⟨.init name, .ok ()⟩, ⟨.discover, .ok slaves⟩] ++ t = course.trace := by
  obtain ⟨hzero, hpresent, hslaves, hcounter, s, rfl⟩ := exists_staged h
  obtain ⟨writes, shown, hwrites, hparameters⟩ := writeParameters_requests s.parameters_runs
  obtain ⟨-, outputs, safe, houtputs, himage⟩ := prepareImage_requests s.image_runs
  have hburst := exchangeTimes_requests s.burst_runs
  rw [Nat.add_comm] at hburst
  refine ⟨hzero, hpresent, hslaves, hcounter, {
    toInit := s.toInit, toPreOperational := s.toPreOperational, writes, shown
    mappings := s.mappings, clocks := s.clocks, outputs, safe
    toSafe := s.toSafe, burst := s.burst, toOperational := s.toOperational, looks := s.looks
    toInit_brought := bringTo_brought s.toInit_runs
    toPreOperational_brought := bringTo_brought s.toPreOperational_runs
    writes_requests := hwrites
    mappings_runs := s.mappings_runs
    safe_outputs := houtputs
    toSafe_brought := bringTo_brought s.toSafe_runs
    burst_requests := hburst
    toOperational_brought := bringTo_brought s.toOperational_runs
    looks_confirmed := checkOperational_confirmed s.looks_runs }, ?_⟩
  simp [Course.trace, Course.configured, Course.started, Course.parameters, Staged.trace,
    hslaves, hparameters, himage]

-- ==================================================== what is requested

theorem Brought.states {timing : Timing} {target : AlState} {list : List UInt16}
    (h : Brought timing target list t) : ∀ e ∈ t, e.1.part = .states := by
  induction h with
  | nil => exact fun _ he => absurd he List.not_mem_nil
  | cons hreach _ _ ih =>
    refine List.forall_mem_append.2 ⟨fun e he => ?_, ih⟩
    exact (StateControl.concerns_reach.of_runs hreach e he).1

theorem Confirmed.states {list : List UInt16} (h : Confirmed list t) :
    ∀ e ∈ t, e.1.part = .states := by
  induction h with
  | nil => exact fun _ he => absurd he List.not_mem_nil
  | cons alStatus _ ih => exact List.forall_mem_cons.2 ⟨rfl, ih⟩

/-- A property of all requests is one of all events. -/
theorem forall_of_requests {P : Bus.Request → Prop} (h : ∀ r ∈ requests t, P r) :
    ∀ e ∈ t, P e.1 :=
  fun _ he => h _ (List.mem_map_of_mem he)

namespace Course

variable (course : Course c layout name report)

theorem parameters_concern :
    ∀ e ∈ course.parameters, e.1.part = .dictionary ∧ e.1.slave? = some c.slave := by
  have hwrites : ∀ e ∈ course.writes, e.1.part = .dictionary ∧ e.1.slave? = some c.slave := by
    refine forall_of_requests (P := fun r => r.part = .dictionary ∧ r.slave? = some c.slave) ?_
    intro r hr
    rw [course.writes_requests] at hr
    obtain ⟨parameter, -, rfl⟩ := List.mem_map.1 hr
    exact ⟨rfl, rfl⟩
  unfold parameters
  refine List.forall_mem_cons.2 ⟨⟨rfl, rfl⟩, List.forall_mem_append.2 ⟨hwrites, ?_⟩⟩
  exact List.forall_mem_singleton.2 ⟨rfl, rfl⟩

/-- What is requested before the image is laid out: the segment is opened and its
clocks are set up, and else it is about the states of slaves and the dictionary of
the drive. -/
theorem forall_mem_configured {P : Bus.Request → Prop} (hinit : P (.init name))
    (hdiscover : P .discover) (hclocks : P .clocks) (hstates : ∀ r, r.part = .states → P r)
    (hown : ∀ r, r.part = .dictionary → r.slave? = some c.slave → P r) :
    ∀ e ∈ course.configured, P e.1 := by
  have hbrought {target : AlState} {u : Trace}
      (hu : Brought c.timing target (slavesOf report.slaves) u) : ∀ e ∈ u, P e.1 :=
    fun e he => hstates e.1 (hu.states e he)
  have hmappings := concerns_negotiateMappings.of_runs course.mappings_runs
  unfold configured
  simp only [List.forall_mem_append, List.forall_mem_cons, List.not_mem_nil, false_implies,
    implies_true, and_true]
  refine ⟨⟨⟨⟨⟨⟨hinit, hdiscover⟩, hbrought course.toInit_brought⟩,
    hbrought course.toPreOperational_brought⟩, fun e he => ?_⟩, fun e he => ?_⟩, hclocks⟩
  · obtain ⟨hpart, hslave⟩ := course.parameters_concern e he
    exact hown e.1 hpart hslave
  · obtain ⟨hpart, hslave⟩ := hmappings e he
    exact hown e.1 hpart hslave

/-- The image is not laid out before its time, and until then the only dictionary
that is touched is the drive's. -/
theorem configured_requests :
    ∀ e ∈ course.configured,
      e.1 ≠ .map ∧ (e.1.part = .dictionary → e.1.slave? = some c.slave) := by
  refine course.forall_mem_configured (P := fun r =>
    r ≠ .map ∧ (r.part = .dictionary → r.slave? = some c.slave)) ⟨nofun, nofun⟩ ⟨nofun, nofun⟩
    ⟨nofun, nofun⟩ (fun r hpart => ?_) fun r hpart hslave => ?_
  · constructor
    · rintro rfl
      cases hpart
    · intro hdictionary
      cases hpart.symm.trans hdictionary
  · constructor
    · rintro rfl
      cases hpart
    · exact fun _ => hslave

/-- What follows the safe outputs: the states of slaves, and exchanges. -/
def settled : Trace := course.toSafe ++ course.burst ++ course.toOperational ++ course.looks

theorem started_eq : course.started
    = ⟨.outputs c.slave, course.outputs⟩ :: ⟨.setOutputs c.slave course.safe, ()⟩
      :: course.settled := by
  unfold started settled
  simp only [List.append_assoc, List.cons_append, List.nil_append]

/-- Once the outputs are safe, a bring-up asks for states and exchanges only. -/
theorem settled_requests : ∀ e ∈ course.settled, e.1.part = .states ∨ e.1 = .exchange := by
  have hburst : ∀ e ∈ course.burst, e.1 = .exchange := by
    refine forall_of_requests (P := fun r => r = .exchange) ?_
    intro r hr
    rw [course.burst_requests] at hr
    exact List.eq_of_mem_replicate hr
  unfold settled
  simp only [List.forall_mem_append]
  refine ⟨⟨⟨fun e he => .inl ?_, fun e he => .inr (hburst e he)⟩, fun e he => .inl ?_⟩,
    fun e he => .inl ?_⟩
  · exact course.toSafe_brought.states e he
  · exact course.toOperational_brought.states e he
  · exact course.looks_confirmed.states e he

/-- Once the image is laid out, no dictionary is touched any more. -/
theorem started_requests : ∀ e ∈ course.started, e.1.part ≠ .dictionary := by
  rw [started_eq]
  refine List.forall_mem_cons.2 ⟨nofun, List.forall_mem_cons.2 ⟨nofun, fun e he => ?_⟩⟩
  rcases course.settled_requests e he with hpart | hexchange
  · rw [hpart]
    decide
  · rw [hexchange]
    decide

end Course

/-- What comes after any event of a kind comes after the first one. -/
theorem forall_mem_after {P Q : Event → Prop} {first later before after : Trace} {e e' : Event}
    (hfirst : ∀ x ∈ first, ¬ P x) (hlater : ∀ x ∈ later, Q x) (hkind : P e')
    (h : first ++ e :: later = before ++ e' :: after) : ∀ x ∈ after, Q x := by
  induction first generalizing before with
  | nil =>
    cases before with
    | nil =>
      obtain ⟨-, rfl⟩ := List.cons.inj h
      exact hlater
    | cons b before =>
      obtain ⟨-, rfl⟩ := List.cons.inj h
      exact fun x hx => hlater x (List.mem_append_right _ (List.mem_cons_of_mem _ hx))
  | cons a first ih =>
    obtain ⟨ha, hrest⟩ := List.forall_mem_cons.1 hfirst
    cases before with
    | nil =>
      obtain ⟨rfl, -⟩ := List.cons.inj h
      exact absurd hkind ha
    | cons b before => exact ih hrest (List.cons.inj h).2

-- ============================================================ the whole

/-- A run that succeeds opened the bus, found the slaves, and got through the
stages after that. -/
theorem runs_run_ok (hrun : Runs (run c layout name) t (.ok report)) :
    ∃ slaves u, t = [⟨.init name, .ok ()⟩, ⟨.discover, .ok slaves⟩] ++ u
      ∧ Runs (stages c layout slaves).run u (.ok report) := by
  unfold run at hrun
  obtain ⟨u, opened, v, rfl, hopen, hrest⟩ := runs_bind_iff.1 hrun
  cases opened with
  | error stop => cases (runs_abandon hrest).1
  | ok slaves =>
    obtain ⟨w, finished, x, rfl, hstages, hdone⟩ := runs_bind_iff.1 hrest
    cases finished with
    | error stop => cases (runs_abandon hdone).1
    | ok found =>
      obtain ⟨rfl, hr⟩ := runs_pure_iff.1 hdone
      cases hr
      rw [runs_openBus_ok hopen, List.append_nil]
      exact ⟨slaves, w, rfl, hstages⟩

/-- What the success of a bring-up stands for. -/
structure Success (c : Config) (layout : Layout) (name : String) (report : Report)
    (t : Trace) : Prop where
  course : ∃ course : Course c layout name report, t = course.trace
  /-- The drive is one of the slaves that were found. -/
  present : report.slaves ≠ 0 ∧ c.slave ≤ report.slaves
  /-- No other dictionary than the drive's is touched, -/
  own : ∀ e ∈ t, e.1.part = .dictionary → e.1.slave? = some c.slave
  /-- and none at all once the process image is laid out. -/
  untouched : ∀ before image after, t = before ++ ⟨.map, image⟩ :: after →
    ∀ e ∈ after, e.1.part ≠ .dictionary
  counter : report.expectedWkc.toNat
    = min 65535 (2 * report.image.outputsWkc.toNat + report.image.inputsWkc.toNat)

/-- Every bring-up that succeeds went the whole course, with every slave where it
was to be in the end. -/
theorem run_succeeds (hrun : Runs (run c layout name) t (.ok report)) :
    Success c layout name report t := by
  obtain ⟨slaves, u, rfl, hstages⟩ := runs_run_ok hrun
  obtain ⟨hzero, hpresent, rfl, hcounter, course, htrace⟩ :=
    stages_course name hstages
  have hconfigured := course.configured_requests
  have hstarted := course.started_requests
  constructor
  case course => exact ⟨course, htrace⟩
  case present => exact ⟨hzero, hpresent⟩
  case own =>
    rw [htrace]
    refine List.forall_mem_append.2 ⟨fun e he => (hconfigured e he).2, ?_⟩
    refine List.forall_mem_cons.2 ⟨nofun, fun e he hpart => ?_⟩
    exact absurd hpart (hstarted e he)
  case untouched =>
    intro before image after h
    exact forall_mem_after (P := fun e => e.1 = .map)
      (fun e he hmap => (hconfigured e he).1 hmap) hstarted rfl (htrace.symm.trans h)
  case counter =>
    rw [hcounter]
    exact report.image.toNat_expectedWkc

/-- What a bring-up of the second one of two new drives requests. There are no
clocks, and a limit of the torque cannot be written. -/
def sampleRun : Trace × Except Stop Report × Simulation.Segment :=
  (run { slave := 2 } .standard "eth0").record Simulation.Segment.answer
    { Simulation.Segment.ofCount 2 with
      hasClocks := false
      failingWrites := [DataObject.Standard.maxTorque.address] }

/-- What it reports. -/
def sampleReport : Report where
  slaves := 2
  parameterFailures := [("max torque",
    .sdo 2 DataObject.Standard.maxTorque.address Simulation.Slave.generalAbort)]
  modeDisplay := some OperationMode.torqueProfile.raw
  rx := .negotiated .unchanged
  tx := .negotiated .unchanged
  distributedClocks := false
  image := ⟨[⟨9, 9⟩, ⟨9, 9⟩], 2, 2⟩
  expectedWkc := 6

theorem sampleRun_runs :
    Runs (run { slave := 2 } .standard "eth0") sampleRun.1 (.ok sampleReport) :=
  runs_record ..

/-- The sample went the whole course all the same. -/
theorem run_succeeds_sample :
    Success { slave := 2 } .standard "eth0" sampleReport sampleRun.1 :=
  run_succeeds sampleRun_runs

end Bringup

end Servo
