/-
Who is first when the exchange is handed over.

From the hand-over on, two sides go on at once: the one that brings the master up
has to say that it is ready, and the cyclic side looks for that, a bounded number
of times. `Schedule` says which merged histories the two can have, with nothing
assumed about who comes next. What the cyclic side finds is what the board answers then.

# The outcome

The readiness is raised after the hand-over, and nothing is awaited in between. So
it is up to the schedule how many looks are used up by then, and
`handOver_decides` says what comes of it: the exchange runs exactly if one look
was left. If none was, then the cyclic side has stopped for good before the
master that is returned says that it is ready. No bound excludes that
(`overtaken_schedule`).
-/
import Servo.Proofs.Master.Release
import Servo.Proofs.Cyclic.Board

namespace Servo

open Program

-- ============================================================ waiting

namespace Cyclic

variable {s s' : State} {polls : Nat} {t : Trace}

/-- A look for the master that found it not ready. -/
def isMiss : Event → Bool
  | ⟨.isReady, ready⟩ => !ready
  | _ => false

/-- The number of looks for the master. -/
def looks (t : Trace) : Nat := t.countP fun e => e.1 = .isReady

/-- Where no stop is asked for, the wait fails by misses alone. -/
theorem Awaited.missed (h : Awaited s polls t s') (hstop : (⟨.isStopped, true⟩ : Event) ∉ t) :
    t.countP isMiss ≤ polls
      ∧ s'.phase = if t.countP isMiss = polls then .stopped else .running := by
  induction h with
  | timedOut => exact ⟨Nat.le_refl 0, rfl⟩
  | stopped => exact absurd (List.mem_singleton_self _) hstop
  | ready =>
    refine ⟨Nat.zero_le _, ?_⟩
    rw [if_neg (by simp [isMiss])]
  | @again polls t s' _ ih =>
    obtain ⟨hle, hphase⟩ := ih fun hmem =>
      hstop (List.mem_cons_of_mem _ (List.mem_cons_of_mem _ hmem))
    have hcount : (⟨.isStopped, false⟩ :: ⟨.isReady, false⟩ :: t : Trace).countP isMiss
        = t.countP isMiss + 1 := by simp [isMiss]
    rw [hcount, hphase]
    simpa using hle

/-- Looks before the readiness is raised are all missed. -/
theorem countP_isMiss_of_early (h : ∀ ready, (⟨.isReady, ready⟩ : Event) ∈ t → ready = false) :
    t.countP isMiss = looks t := by
  refine List.countP_congr fun e he => ?_
  obtain ⟨r, answer⟩ := e
  cases r with
  | isReady =>
    obtain rfl : answer = false := h answer he
    simp [isMiss]
  | _ => simp [isMiss]

/-- Once the readiness is raised, no look misses it. -/
theorem countP_isMiss_of_late (h : ∀ ready, (⟨.isReady, ready⟩ : Event) ∈ t → ready = true) :
    t.countP isMiss = 0 := by
  refine List.countP_eq_zero.2 fun e he => ?_
  obtain ⟨r, answer⟩ := e
  cases r with
  | isReady =>
    obtain rfl : answer = true := h answer he
    simp [isMiss]
  | _ => simp [isMiss]

/-- Looks that all come too early. -/
def misses (polls : Nat) : Trace :=
  (List.replicate polls [⟨.isStopped, false⟩, ⟨.isReady, false⟩]).flatten

/-- A wait that misses at every poll gives up. -/
theorem runs_awaitReady_misses (polls : Nat) (s : State) :
    Runs (awaitReady polls s) (misses polls) { s with phase := .stopped } := by
  induction polls with
  | zero => exact .done _
  | succ polls ih =>
    exact runs_perform_bind_iff.2 ⟨false, _, rfl, runs_perform_bind_iff.2 ⟨false, _, rfl, ih⟩⟩

/-- An exchange whose wait gives up is stopped before it began. -/
theorem runs_waitForMaster_misses (c : Settings) :
    Runs (waitForMaster c {}) (misses c.timing.masterReadyPolls.toNat)
      (false, { phase := .stopped }) := by
  rw [← List.append_nil (misses _)]
  exact runs_bind_iff.2
    ⟨_, _, [], rfl, runs_awaitReady_misses _ {}, runs_pure_iff.2 ⟨rfl, rfl⟩⟩

end Cyclic

-- ============================================================ schedules

namespace Master

open Cyclic (looks isMiss misses)

variable {c : Config} {name : String} {settings : Cyclic.Settings} {report : Bringup.Report}
  {ended : Cyclic.State}

/-- Something that happens while a master is brought up. -/
inductive Moment
  /-- On the side that brings it up. -/
  | master (e : Event)
  /-- On the cyclic side. -/
  | cyclic (e : Cyclic.Event)
  /-- Somebody asks for the exchange to stop. -/
  | stop

variable {h t before after : List Moment}

def masterSide (t : List Moment) : Trace :=
  t.filterMap fun
    | .master e => some e
    | _ => none

def cyclicSide (t : List Moment) : Cyclic.Trace :=
  t.filterMap fun
    | .cyclic e => some e
    | _ => none

/-- What a moment is to the board, if it is anything to it. -/
def Moment.onBoard : Moment → Option Cyclic.Moment
  | .cyclic e => some (.cyclic e)
  | .master ⟨.raiseReady, _⟩ => some (.control .raiseReady)
  | .master ⟨.raiseStop, _⟩ | .stop => some (.control .raiseStop)
  | .master _ => none

/-- What happens on the board. -/
def boardSide (t : List Moment) : List Cyclic.Moment := t.filterMap Moment.onBoard

/-- What can happen next: the cyclic side does nothing until it has the exchange. -/
def Possible (settings : Cyclic.Settings) (h : List Moment) : Moment → Prop
  | .cyclic _ => .master ⟨.handOver settings, true⟩ ∈ h
  | _ => True

/-- A history of a bring-up that succeeds, and of the wait for the master, which
ends in a state. -/
structure Schedule (c : Config) (name : String) (report : Bringup.Report) (t : List Moment)
    (ended : Cyclic.State) : Prop where
  brings : Runs (bringUp c name) (masterSide t) (.ok report)
  waits : ∃ ready, Runs
    (Cyclic.waitForMaster ⟨c.slave, .standard, c.timing, report.expectedWkc⟩ {})
    (cyclicSide t) (ready, ended)
  possible : Always (Possible ⟨c.slave, .standard, c.timing, report.expectedWkc⟩) [] t
  /-- No flag is raised at first. -/
  board : ∃ b b', b.control = {} ∧ Cyclic.Passes b (boardSide t) b'

@[simp] theorem masterSide_append (t u : List Moment) :
    masterSide (t ++ u) = masterSide t ++ masterSide u :=
  List.filterMap_append

@[simp] theorem cyclicSide_append (t u : List Moment) :
    cyclicSide (t ++ u) = cyclicSide t ++ cyclicSide u :=
  List.filterMap_append

@[simp] theorem boardSide_append (t u : List Moment) :
    boardSide (t ++ u) = boardSide t ++ boardSide u :=
  List.filterMap_append

@[simp] theorem masterSide_master (u : Trace) : masterSide (u.map .master) = u := by
  induction u with
  | nil => rfl
  | cons e u ih => exact congrArg (e :: ·) ih

@[simp] theorem cyclicSide_master (u : Trace) : cyclicSide (u.map .master) = [] := by
  simp [cyclicSide]

@[simp] theorem masterSide_cyclic (u : Cyclic.Trace) : masterSide (u.map .cyclic) = [] := by
  simp [masterSide]

@[simp] theorem cyclicSide_cyclic (u : Cyclic.Trace) : cyclicSide (u.map .cyclic) = u := by
  induction u with
  | nil => rfl
  | cons e u ih => exact congrArg (e :: ·) ih

@[simp] theorem boardSide_cyclic (u : Cyclic.Trace) :
    boardSide (u.map .cyclic) = u.map .cyclic := by
  induction u with
  | nil => rfl
  | cons e u ih => exact congrArg (Cyclic.Moment.cyclic e :: ·) ih

/-- The bus is no part of the board. -/
@[simp] theorem boardSide_ofBus (u : Bringup.Trace) : boardSide ((ofBus u).map .master) = [] := by
  induction u with
  | nil => rfl
  | cons e u ih => exact ih

/-- The side of the master is the moments of the master. -/
theorem mem_masterSide {e : Event} : e ∈ masterSide t ↔ .master e ∈ t := by
  unfold masterSide
  rw [List.mem_filterMap]
  constructor
  · intro h
    obtain ⟨m, hm, hme⟩ := h
    cases m with
    | master e' =>
      cases hme
      exact hm
    | cyclic => cases hme
    | stop => cases hme
  · intro h
    exact ⟨_, h, rfl⟩

/-- The cyclic side is the moments of the cyclic side. -/
theorem mem_cyclicSide {e : Cyclic.Event} : e ∈ cyclicSide t ↔ .cyclic e ∈ t := by
  unfold cyclicSide
  rw [List.mem_filterMap]
  constructor
  · intro h
    obtain ⟨m, hm, hme⟩ := h
    cases m with
    | master => cases hme
    | cyclic e' =>
      cases hme
      exact hm
    | stop => cases hme
  · intro h
    exact ⟨_, h, rfl⟩

/-- The readiness is raised on the board where the side of the master says so. -/
theorem raiseReady_mem_boardSide :
    .control .raiseReady ∈ boardSide t ↔ .master ⟨.raiseReady, ()⟩ ∈ t := by
  unfold boardSide
  rw [List.mem_filterMap]
  constructor
  · intro h
    obtain ⟨m, hm, hboard⟩ := h
    unfold Moment.onBoard at hboard
    split at hboard
    next => cases hboard
    next => exact hm
    all_goals cases hboard
  · intro h
    exact ⟨_, h, rfl⟩

/-- The stop is raised on the board by the master, or by somebody else. -/
theorem raiseStop_mem_boardSide :
    .control .raiseStop ∈ boardSide t ↔ .stop ∈ t ∨ .master ⟨.raiseStop, ()⟩ ∈ t := by
  unfold boardSide
  rw [List.mem_filterMap]
  constructor
  · intro h
    obtain ⟨m, hm, hboard⟩ := h
    unfold Moment.onBoard at hboard
    split at hboard
    next => cases hboard
    next => cases hboard
    next => exact .inr hm
    next => exact .inl hm
    next => cases hboard
  · intro h
    rcases h with h | h
    · exact ⟨_, h, rfl⟩
    · exact ⟨_, h, rfl⟩

-- ========================================================== the outcome

/-- A bring-up that succeeds says that the master is ready, after the hand-over and
as the last thing. -/
theorem runs_bringUp_ok_iff {u : Trace} :
    Runs (bringUp c name) u (.ok report)
      ↔ c.validate = .ok () ∧ ∃ v, Runs (Bringup.run c .standard name) v (.ok report)
        ∧ u = ofBus v ++ [⟨.start, .ok ()⟩,
          ⟨.handOver ⟨c.slave, .standard, c.timing, report.expectedWkc⟩, true⟩]
          ++ [⟨.raiseReady, ()⟩] := by
  constructor
  · intro hrun
    cases runs_bringUp hrun with
    | ready hvalid hbrought =>
      refine ⟨hvalid, _, hbrought, ?_⟩
      rw [List.append_assoc]
      rfl
  · intro h
    obtain ⟨hvalid, v, hbrought, rfl⟩ := h
    unfold bringUp
    rw [hvalid, List.append_assoc]
    refine runs_bind_iff.2 ⟨_, .ok report, _, rfl, runs_onBus_iff.2 ⟨v, rfl, hbrought⟩, ?_⟩
    refine runs_request_bind_iff.2 ⟨.ok (), _, rfl, ?_⟩
    refine runs_request_bind_iff.2 ⟨true, _, rfl, ?_⟩
    exact runs_request_bind_iff.2 ⟨(), _, rfl, runs_pure_iff.2 ⟨rfl, rfl⟩⟩

/-- The moment at which the readiness is raised: it was not before, and nothing
follows on that side. -/
theorem Schedule.splits (hschedule : Schedule c name report t ended) :
    ∃ before after, t = before ++ .master ⟨.raiseReady, ()⟩ :: after
      ∧ .master ⟨.raiseReady, ()⟩ ∉ before := by
  obtain ⟨-, v, -, hside⟩ := runs_bringUp_ok_iff.1 hschedule.brings
  obtain ⟨before, rest, rfl, hbefore, hrest⟩ := List.filterMap_eq_append_iff.1 hside
  obtain ⟨skipped, m, after, rfl, hskipped, hm, -⟩ := List.filterMap_eq_cons_iff.1 hrest
  refine ⟨before ++ skipped, after, ?_, ?_⟩
  · cases m with
    | master e =>
      cases hm
      rw [List.append_assoc]
    | cyclic => cases hm
    | stop => cases hm
  · intro hmem
    rcases List.mem_append.1 hmem with hmem | hmem
    · have hraised : (⟨.raiseReady, ()⟩ : Event) ∈ masterSide before := mem_masterSide.2 hmem
      rw [masterSide, hbefore] at hraised
      simp [not_mem_ofBus] at hraised
    · cases hskipped _ hmem

/-- A bring-up does not ask for a stop. -/
theorem Schedule.raiseStop_not_mem (hschedule : Schedule c name report t ended) :
    .master ⟨.raiseStop, ()⟩ ∉ t := by
  obtain ⟨-, v, -, hside⟩ := runs_bringUp_ok_iff.1 hschedule.brings
  rw [← mem_masterSide, hside]
  simp [not_mem_ofBus]

/-- The cyclic side finds the master ready exactly if the readiness was raised by then. -/
theorem Schedule.isReady_iff {ready : Bool}
    (hschedule : Schedule c name report (before ++ .cyclic ⟨.isReady, ready⟩ :: after) ended) :
    ready = true ↔ .master ⟨.raiseReady, ()⟩ ∈ before := by
  obtain ⟨b, b', hnone, hpasses⟩ := hschedule.board
  rw [boardSide_append] at hpasses
  obtain ⟨b₁, hbefore, hafter⟩ := Cyclic.passes_append_iff.1 hpasses
  obtain ⟨_, hlook, -⟩ := Cyclic.passes_cyclic_iff.1 hafter
  rw [(Cyclic.answered_isReady_iff.1 hlook).1, hbefore.ready_iff, hnone,
    raiseReady_mem_boardSide]
  simp

/-- The cyclic side finds a stop exactly if it was asked for by then. -/
theorem Schedule.isStopped_iff {stop : Bool}
    (hschedule : Schedule c name report (before ++ .cyclic ⟨.isStopped, stop⟩ :: after) ended) :
    stop = true ↔ .stop ∈ before := by
  have hquiet : .master ⟨.raiseStop, ()⟩ ∉ before := fun hmem =>
    hschedule.raiseStop_not_mem (List.mem_append_left _ hmem)
  obtain ⟨b, b', hnone, hpasses⟩ := hschedule.board
  rw [boardSide_append] at hpasses
  obtain ⟨b₁, hbefore, hafter⟩ := Cyclic.passes_append_iff.1 hpasses
  obtain ⟨_, hlook, -⟩ := Cyclic.passes_cyclic_iff.1 hafter
  rw [(Cyclic.answered_isStopped_iff.1 hlook).1, hbefore.stop_iff, hnone,
    raiseStop_mem_boardSide]
  simp [hquiet]

/-- What comes of raising the readiness after some moments, of at most so many
looks. -/
structure Raised (polls : Nat) (before : List Moment) (ended : Cyclic.State) : Prop where
  bounded : looks (cyclicSide before) ≤ polls
  /-- If no look is left, the cyclic side has stopped for good; -/
  stopped : ended.phase = .stopped ↔ looks (cyclicSide before) = polls
  /-- if one is, the exchange runs. -/
  running : ended.phase = .running ↔ looks (cyclicSide before) < polls

/-- Where nobody asks for a stop, the exchange of a master that was brought up runs
exactly if a look was left when the readiness was raised. -/
theorem handOver_decides (hschedule : Schedule c name report t ended) (hstop : .stop ∉ t) :
    ∃ before after, t = before ++ .master ⟨.raiseReady, ()⟩ :: after
      ∧ Raised c.timing.masterReadyPolls.toNat before ended := by
  obtain ⟨before, after, rfl, hunraised⟩ := hschedule.splits
  -- what is looked for before is missed, and what is looked for after is found
  have hmissed : ∀ ready, (⟨.isReady, ready⟩ : Cyclic.Event) ∈ cyclicSide before →
      ready = false := by
    intro ready hlook
    obtain ⟨u, v, rfl⟩ := List.append_of_mem (mem_cyclicSide.1 hlook)
    rw [List.append_assoc, List.cons_append] at hschedule
    rw [← Bool.not_eq_true, hschedule.isReady_iff]
    exact fun hraised => hunraised (List.mem_append_left _ hraised)
  have hfound : ∀ ready, (⟨.isReady, ready⟩ : Cyclic.Event) ∈ cyclicSide after →
      ready = true := by
    intro ready hlook
    obtain ⟨u, v, rfl⟩ := List.append_of_mem (mem_cyclicSide.1 hlook)
    rw [← List.cons_append, ← List.append_assoc] at hschedule
    rw [hschedule.isReady_iff]
    exact List.mem_append_right _ (List.mem_cons_self ..)
  have hgoing : (⟨.isStopped, true⟩ : Cyclic.Event)
      ∉ cyclicSide (before ++ .master ⟨.raiseReady, ()⟩ :: after) := by
    intro hlook
    obtain ⟨u, v, huv⟩ := List.append_of_mem (mem_cyclicSide.1 hlook)
    rw [huv] at hschedule hstop
    exact hstop (List.mem_append_left _ (hschedule.isStopped_iff.1 rfl))
  obtain ⟨_, hwait⟩ := hschedule.waits
  obtain ⟨hle, hphase⟩ := (Cyclic.runs_waitForMaster hwait).1.missed hgoing
  have hcount : (cyclicSide (before ++ .master ⟨.raiseReady, ()⟩ :: after)).countP isMiss
      = looks (cyclicSide before) := by
    have hsides : cyclicSide (before ++ .master ⟨.raiseReady, ()⟩ :: after)
        = cyclicSide before ++ cyclicSide after := cyclicSide_append ..
    rw [hsides, List.countP_append, Cyclic.countP_isMiss_of_early hmissed,
      Cyclic.countP_isMiss_of_late hfound, Nat.add_zero]
  dsimp only at hle hphase
  rw [hcount] at hle hphase
  refine ⟨before, after, rfl, ?_⟩
  by_cases hall : looks (cyclicSide before) = c.timing.masterReadyPolls.toNat
  · rw [if_pos hall] at hphase
    exact ⟨hle, by simp [hphase, hall], by simp [hphase, hall]⟩
  · rw [if_neg hall] at hphase
    have hlt : looks (cyclicSide before) < c.timing.masterReadyPolls.toNat := by omega
    exact ⟨hle, by simp [hphase, hall], by simp [hphase, hlt]⟩

-- ============================================================ overtaken

/-- The history in which all looks are used up between the hand-over and the
readiness. -/
def overtaken (c : Config) (report : Bringup.Report) (u : Bringup.Trace) : List Moment :=
  (ofBus u).map .master
    ++ [.master ⟨.start, .ok ()⟩,
      .master ⟨.handOver ⟨c.slave, .standard, c.timing, report.expectedWkc⟩, true⟩]
    ++ (misses c.timing.masterReadyPolls.toNat).map .cyclic
    ++ [.master ⟨.raiseReady, ()⟩]

variable {u : Bringup.Trace}

theorem masterSide_overtaken : masterSide (overtaken c report u)
    = ofBus u ++ [⟨.start, .ok ()⟩,
        ⟨.handOver ⟨c.slave, .standard, c.timing, report.expectedWkc⟩, true⟩]
      ++ [⟨.raiseReady, ()⟩] := by
  unfold overtaken
  simp only [masterSide_append, masterSide_master, masterSide_cyclic, List.append_nil]
  rfl

theorem cyclicSide_overtaken :
    cyclicSide (overtaken c report u) = misses c.timing.masterReadyPolls.toNat := by
  unfold overtaken
  simp only [cyclicSide_append, cyclicSide_master, cyclicSide_cyclic]
  exact List.append_nil _

theorem stop_not_mem_overtaken : .stop ∉ overtaken c report u := by
  simp [overtaken]

/-- Once it has the exchange, the cyclic side may go on. -/
theorem always_cyclic {u : Cyclic.Trace} (hhanded : .master ⟨.handOver settings, true⟩ ∈ h) :
    Always (Possible settings) h (u.map .cyclic) := by
  induction u generalizing h with
  | nil => exact always_nil
  | cons e u ih => exact ⟨hhanded, ih (List.mem_append_left _ hhanded)⟩

/-- The looks that come too early find no flag. -/
theorem passes_misses (polls : Nat) :
    Cyclic.Passes {} ((misses polls).map .cyclic) {} := by
  induction polls with
  | zero => exact .nil
  | succ polls ih =>
    exact .cyclic (Cyclic.answered_isStopped_iff.2 ⟨rfl, rfl⟩)
      (.cyclic (Cyclic.answered_isReady_iff.2 ⟨rfl, rfl⟩) ih)

/-- Whatever the configuration allows, the cyclic side can be through with it before
the readiness is raised. -/
theorem overtaken_schedule (hvalid : c.validate = .ok ())
    (hrun : Runs (Bringup.run c .standard name) u (.ok report)) :
    Schedule c name report (overtaken c report u) { phase := .stopped } where
  brings := by
    rw [masterSide_overtaken]
    exact runs_bringUp_ok_iff.2 ⟨hvalid, u, hrun, rfl⟩
  waits := by
    rw [cyclicSide_overtaken]
    exact ⟨false, Cyclic.runs_waitForMaster_misses _⟩
  possible := by
    have hmaster : ∀ m ∈ (ofBus u).map Moment.master, ∀ h,
        Possible ⟨c.slave, .standard, c.timing, report.expectedWkc⟩ h m := by
      intro m hm h
      obtain ⟨e, -, rfl⟩ := List.mem_map.1 hm
      trivial
    unfold overtaken
    simp only [always_append, List.nil_append]
    refine ⟨⟨⟨always_of_forall hmaster, trivial, trivial, trivial⟩, ?_⟩, trivial, trivial⟩
    exact always_cyclic (by simp)
  board := by
    have hside : boardSide (overtaken c report u)
        = (misses c.timing.masterReadyPolls.toNat).map .cyclic ++ [.control .raiseReady] := by
      unfold overtaken
      rw [boardSide_append, boardSide_append, boardSide_append, boardSide_ofBus, boardSide_cyclic]
      rfl
    rw [hside]
    exact ⟨{}, _, rfl, Cyclic.passes_append_iff.2 ⟨{}, passes_misses _, .control .nil⟩⟩

/-- One look is all there is. -/
def impatient : Config := { timing := { masterReadyPolls := 1 } }

/-- What a bring-up of one new drive requests of the bus. -/
def impatientRun : Bringup.Trace × Except Bringup.Stop Bringup.Report × Simulation.Segment :=
  (Bringup.run impatient .standard "eth0").record Simulation.Segment.answer (.ofCount 1)

/-- What it reports. -/
def impatientReport : Bringup.Report where
  slaves := 1
  parameterFailures := []
  modeDisplay := some OperationMode.torqueProfile.raw
  rx := .negotiated .unchanged
  tx := .negotiated .unchanged
  distributedClocks := true
  image := ⟨[⟨9, 9⟩], 1, 1⟩
  expectedWkc := 3

theorem impatientRun_runs :
    Runs (Bringup.run impatient .standard "eth0") impatientRun.1 (.ok impatientReport) :=
  runs_record ..

theorem handOver_decides_overtaken : ∃ before after,
    overtaken impatient impatientReport impatientRun.1
        = before ++ .master ⟨.raiseReady, ()⟩ :: after
      ∧ Raised 1 before { phase := .stopped } :=
  handOver_decides (overtaken_schedule rfl impatientRun_runs) stop_not_mem_overtaken

/-- A bring-up can succeed with the cyclic side stopped by nobody. -/
theorem not_handOver_runs : ¬ ∀ (c : Config) (name : String) (report : Bringup.Report)
    (t : List Moment) (ended : Cyclic.State), Schedule c name report t ended → .stop ∉ t →
      ended.phase ≠ .stopped := by
  intro h
  exact h _ _ _ _ _ (overtaken_schedule rfl impatientRun_runs) stop_not_mem_overtaken rfl

end Master

end Servo
