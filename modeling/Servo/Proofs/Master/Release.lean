/-
What becomes of the bus when a master cannot be brought up.

Once the segment is up, two more things can go wrong: the cyclic side may not
start, and it may be gone before the exchange is handed over. Both go out by the
release of the bring-up, so the bus is closed as the last thing there is
(`ClosedLast`), just as after a failing stage.

# The exception

A configuration that is refused is refused before anything is requested. Nothing
is released then, and the bus stays as it was; `bringUp_fails` has the exact
condition.
-/
import Servo.Master
import Servo.Proofs.Bringup.Success

namespace Servo

open Program

-- ============================================================ bring-up

namespace Bringup

variable {c : Config} {layout : Layout} {name : String} {slaves : UInt16} {t before after : Trace}

/-- The bus is closed in the end, and only then. -/
def ClosedLast (made : List Bus.Request) : Prop :=
  ∃ before, made = before ++ [.close] ∧ .close ∉ before

theorem closedLast_append_release {v : Unit} (hbefore : ∀ e ∈ before, e.1 ≠ .close)
    (hrelease : Runs (release slaves) after v) : ClosedLast (requests (before ++ after)) := by
  have hreset : .close ∉ (slavesOf slaves).map (Bus.Request.setState · .init) := by
    intro hmem
    obtain ⟨slave, -, hslave⟩ := List.mem_map.1 hmem
    cases hslave
  refine ⟨requests before ++ (slavesOf slaves).map (.setState · .init), ?_, ?_⟩
  · rw [requests_append, runs_release hrelease, List.append_assoc]
  · intro hmem
    rcases List.mem_append.1 hmem with hmem | hmem
    · exact not_close_of_keeps hbefore hmem
    · exact hreset hmem

/-- A run that succeeds does not close the bus on its way. -/
theorem run_ok_keeps {report : Report} (hrun : Runs (run c layout name) t (.ok report)) :
    ∀ e ∈ t, e.1 ≠ .close := by
  cases runs_run hrun with
  | ok hkeeps _ => exact hkeeps

/-- A run that fails closes it on its way out. -/
theorem run_error_closes {e : Error} (hrun : Runs (run c layout name) t (.error (.failed e))) :
    ClosedLast (requests t) := by
  cases runs_run hrun with
  | failed hkeeps _ _ hrelease => exact closedLast_append_release hkeeps hrelease

end Bringup

-- ============================================================== master

namespace Master

open Bringup (ClosedLast requests release)

variable {α : Type} {c : Config} {name : String}

/-- A request of the master, and its answer. -/
abbrev Event := (r : Request) × r.Answer

abbrev Trace := List Event

/-- What was requested of the bus. -/
def busRequests (t : Trace) : List Bus.Request :=
  t.filterMap fun
    | ⟨.bus r, _⟩ => some r
    | _ => none

/-- What happens on the bus, as the master sees it. -/
def ofBus (u : Bringup.Trace) : Trace := u.map fun e => ⟨.bus e.1, e.2⟩

variable {t : Trace}

@[simp] theorem busRequests_append (t u : Trace) :
    busRequests (t ++ u) = busRequests t ++ busRequests u :=
  List.filterMap_append

@[simp] theorem busRequests_ofBus (u : Bringup.Trace) : busRequests (ofBus u) = requests u := by
  induction u with
  | nil => rfl
  | cons e u ih =>
    show _ :: busRequests (ofBus u) = _
    rw [ih]
    rfl

theorem not_mem_ofBus {e : Event} (he : ∀ r, e.1 ≠ .bus r) (u : Bringup.Trace) :
    e ∉ ofBus u := by
  intro hmem
  obtain ⟨e', -, rfl⟩ := List.mem_map.1 hmem
  exact he _ rfl

/-- A program that only talks to the bus makes the runs it makes there. -/
theorem runs_onBus_iff {p : BusProgram α} {a : α} :
    Runs (onBus p) t a ↔ ∃ u, t = ofBus u ∧ Runs p u a := by
  induction p generalizing t with
  | done value =>
    show Runs (Program.done value : MasterProgram α) t a ↔ _
    simp only [runs_done_iff]
    constructor
    · intro h
      obtain ⟨rfl, rfl⟩ := h
      exact ⟨[], rfl, rfl, rfl⟩
    · intro h
      obtain ⟨u, rfl, rfl, rfl⟩ := h
      exact ⟨rfl, rfl⟩
  | request r resume ih =>
    show Runs (perform (.bus r) >>= fun answer => onBus (resume answer)) t a ↔ _
    constructor
    · intro h
      obtain ⟨answer, v, rfl, hrest⟩ := runs_request_bind_iff.1 h
      obtain ⟨u, rfl, hu⟩ := (ih answer).1 hrest
      exact ⟨⟨r, answer⟩ :: u, rfl, Runs.request (I := Bus.interface) answer hu⟩
    · intro h
      obtain ⟨u, rfl, hu⟩ := h
      obtain ⟨answer, v, rfl, hv⟩ := runs_request_iff.1 hu
      exact runs_request_bind_iff.2 ⟨answer, ofBus v, rfl, (ih answer).2 ⟨v, rfl, hv⟩⟩

-- =========================================================== its course

/-- Everything that a run of a bring-up of a master can do. -/
inductive BroughtUp (c : Config) (name : String) :
    Trace → Except Bringup.Stop Bringup.Report → Prop
  /-- The configuration is refused. -/
  | refused {error : Config.Error} : c.validate = .error error →
      BroughtUp c name [] (.error (.failed (.config error)))
  /-- The segment cannot be brought up. -/
  | stopped {u : Bringup.Trace} {stop : Bringup.Stop} : c.validate = .ok () →
      Runs (Bringup.run c .standard name) u (.error stop) →
      BroughtUp c name (ofBus u) (.error stop)
  /-- The cyclic side does not start. -/
  | unstarted {u v : Bringup.Trace} {report : Bringup.Report} {reason : String} :
      c.validate = .ok () → Runs (Bringup.run c .standard name) u (.ok report) →
      Runs (release report.slaves) v () →
      BroughtUp c name (ofBus u ++ ⟨.start, .error reason⟩ :: ofBus v)
        (.error (.failed (.start reason)))
  /-- It is gone before it gets the exchange. -/
  | undelivered {u v : Bringup.Trace} {report : Bringup.Report} :
      c.validate = .ok () → Runs (Bringup.run c .standard name) u (.ok report) →
      Runs (release report.slaves) v () →
      BroughtUp c name
        (ofBus u ++ ⟨.start, .ok ()⟩
          :: ⟨.handOver ⟨c.slave, .standard, c.timing, report.expectedWkc⟩, false⟩ :: ofBus v)
        (.error (.failed (.bus (.master "cyclic thread exited before start"))))
  | ready {u : Bringup.Trace} {report : Bringup.Report} :
      c.validate = .ok () → Runs (Bringup.run c .standard name) u (.ok report) →
      BroughtUp c name
        (ofBus u ++ [⟨.start, .ok ()⟩,
          ⟨.handOver ⟨c.slave, .standard, c.timing, report.expectedWkc⟩, true⟩,
          ⟨.raiseReady, ()⟩])
        (.ok report)

theorem runs_bringUp {result : Except Bringup.Stop Bringup.Report}
    (hrun : Runs (bringUp c name) t result) : BroughtUp c name t result := by
  unfold bringUp at hrun
  cases hvalid : c.validate with
  | error error =>
    rw [hvalid] at hrun
    obtain ⟨rfl, rfl⟩ := runs_pure_iff.1 hrun
    exact .refused hvalid
  | ok =>
    rw [hvalid] at hrun
    obtain ⟨_, brought, v, rfl, hpipeline, hafter⟩ := runs_bind_iff.1 hrun
    obtain ⟨u, rfl, hbrought⟩ := runs_onBus_iff.1 hpipeline
    cases brought with
    | error stop =>
      obtain ⟨rfl, rfl⟩ := runs_pure_iff.1 hafter
      rw [List.append_nil]
      exact .stopped hvalid hbrought
    | ok report =>
      obtain ⟨started, w, rfl, hstarted⟩ := runs_request_bind_iff.1 hafter
      cases started with
      | error reason =>
        obtain ⟨_, _, x, rfl, hout, hreturn⟩ := runs_bind_iff.1 hstarted
        obtain ⟨w, rfl, hrelease⟩ := runs_onBus_iff.1 hout
        obtain ⟨rfl, rfl⟩ := runs_pure_iff.1 hreturn
        rw [List.append_nil]
        exact .unstarted hvalid hbrought hrelease
      | ok =>
        obtain ⟨taken, x, rfl, htaken⟩ := runs_request_bind_iff.1 hstarted
        cases taken with
        | true =>
          obtain ⟨_, y, rfl, hreturn⟩ := runs_request_bind_iff.1 htaken
          obtain ⟨rfl, rfl⟩ := runs_pure_iff.1 hreturn
          exact .ready hvalid hbrought
        | false =>
          obtain ⟨_, _, y, rfl, hout, hreturn⟩ := runs_bind_iff.1 htaken
          obtain ⟨x, rfl, hrelease⟩ := runs_onBus_iff.1 hout
          obtain ⟨rfl, rfl⟩ := runs_pure_iff.1 hreturn
          rw [List.append_nil]
          exact .undelivered hvalid hbrought hrelease

-- ============================================================== failure

/-- What a bring-up that failed with an error leaves. -/
structure Abandoned (c : Config) (t : Trace) (e : Bringup.Error) : Prop where
  /-- The bus is closed, as the last thing, exactly if the configuration was accepted; -/
  closes : ClosedLast (busRequests t) ↔ c.validate = .ok ()
  /-- if it was not, then nothing was requested at all. -/
  untouched : ∀ error, c.validate = .error error → t = [] ∧ e = .config error
  /-- Nothing was handed over to the cyclic side. -/
  idle : ∀ settings, (⟨.handOver settings, true⟩ : Event) ∉ t

theorem not_closedLast_nil : ¬ ClosedLast [] := by
  intro hclosed
  obtain ⟨before, hbefore, -⟩ := hclosed
  exact absurd hbefore.symm (List.append_ne_nil_of_right_ne_nil _ (List.cons_ne_nil _ _))

/-- A failure after the pipeline: what the master does there beside the bus does
not show on it. -/
theorem closedLast_released {u v : Bringup.Trace} {report : Bringup.Report} (between : Trace)
    (hrun : Runs (Bringup.run c .standard name) u (.ok report))
    (hbetween : busRequests between = []) (hrelease : Runs (release report.slaves) v ()) :
    ClosedLast (busRequests (ofBus u ++ (between ++ ofBus v))) := by
  have hclosed := Bringup.closedLast_append_release (Bringup.run_ok_keeps hrun) hrelease
  rw [busRequests_append, busRequests_append, hbetween, busRequests_ofBus, busRequests_ofBus,
    List.nil_append, ← Bringup.requests_append]
  exact hclosed

/-- The one way to fail without closing the bus is a configuration that is
refused. -/
theorem bringUp_fails {e : Bringup.Error}
    (hrun : Runs (bringUp c name) t (.error (.failed e))) : Abandoned c t e := by
  cases runs_bringUp hrun with
  | refused hinvalid =>
    constructor
    case closes => simp [busRequests, not_closedLast_nil, hinvalid]
    case untouched =>
      intro error herror
      cases hinvalid.symm.trans herror
      exact ⟨rfl, rfl⟩
    case idle => exact fun _ => List.not_mem_nil
  | stopped hvalid hfailed =>
    constructor
    case closes => simp [hvalid, Bringup.run_error_closes hfailed]
    case untouched => exact fun _ hinvalid => nomatch hvalid.symm.trans hinvalid
    case idle =>
      intro settings
      exact not_mem_ofBus (e := ⟨.handOver settings, true⟩) nofun _
  | @unstarted u v report reason hvalid hbrought hrelease =>
    have hclosed := closedLast_released [⟨.start, .error reason⟩] hbrought rfl hrelease
    constructor
    case closes => exact iff_of_true hclosed hvalid
    case untouched => exact fun _ hinvalid => nomatch hvalid.symm.trans hinvalid
    case idle => simp [not_mem_ofBus]
  | @undelivered u v report hvalid hbrought hrelease =>
    have hclosed := closedLast_released [⟨.start, .ok ()⟩,
      ⟨.handOver ⟨c.slave, .standard, c.timing, report.expectedWkc⟩, false⟩] hbrought rfl hrelease
    constructor
    case closes => exact iff_of_true hclosed hvalid
    case untouched => exact fun _ hinvalid => nomatch hvalid.symm.trans hinvalid
    case idle => simp [not_mem_ofBus]

-- ============================================================== samples

/-- Answers a master from a simulated segment. -/
def answer (started : Except String Unit) (taken : Bool) (ending : Ending) :
    (r : Request) → StateM Simulation.Segment r.Answer
  | .bus r => Simulation.Segment.answer r
  | .start => pure started
  | .handOver _ => pure taken
  | .raiseReady | .raiseStop => pure ()
  | .join => pure ending

/-- A drive that comes up, for a cyclic side that is gone by then. -/
def undelivered : Trace × Except Bringup.Stop Bringup.Report × Simulation.Segment :=
  (bringUp {} "eth0").record (answer (.ok ()) false .neverReceived) (.ofCount 1)

theorem undelivered_runs : Runs (bringUp {} "eth0") undelivered.1
    (.error (.failed (.bus (.master "cyclic thread exited before start")))) :=
  runs_record ..

theorem bringUp_fails_undelivered : Abandoned {} undelivered.1
    (.bus (.master "cyclic thread exited before start")) :=
  bringUp_fails undelivered_runs

/-- There is no slave of number zero; a master that is to find one gives up with
the bus as it got it. -/
theorem not_bringUp_closes : ¬ ∀ (c : Config) (name : String) (t : Trace) (e : Bringup.Error),
    Runs (bringUp c name) t (.error (.failed e)) →
      ClosedLast (busRequests t) ∧ ∀ settings, (⟨.handOver settings, true⟩ : Event) ∉ t := by
  intro h
  have hrun : Runs (bringUp { slave := 0 } "eth0") []
      (.error (.failed (.config (.flawed .slaveZero)))) := Runs.of_replay rfl
  exact not_closedLast_nil (h _ _ _ _ hrun).1

end Master

end Servo
