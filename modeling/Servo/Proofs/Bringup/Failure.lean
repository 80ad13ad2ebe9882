/-
How a bring-up leaves the bus when it fails.

There is one way out for every failure: the slaves that were found are asked back
to their initial state, in order, and the bus is closed. `run_leaves` says that
of every run, for every bus, and that a run that succeeds leaves the bus open. So does
one that comes down in the midst of a stage, which happens in one place only.

# Which stage failed

`Exit` lists the ways in which the stages can fail, by the requests that the
failing stage was making: each rule gives the last of them, with the answers that
decide, and what they stand for. Every stage is taken apart once, by the
rules for stages (`Leaves`), and the whole by composing them.
-/
import Servo.Proofs.Requests
import Servo.Proofs.Field

namespace Servo.Bringup

open Program Bus

variable {α β : Type} {c : Config} {layout : Layout} {name : String} {slaves : UInt16}

-- =============================================================== traces

/-- A request of the bus, and its answer. -/
abbrev Event := (r : Bus.Request) × r.Answer

/-- What a bring-up requested, and the answers. -/
abbrev Trace := List Event

/-- The requests of a trace, without the answers. -/
def requests (t : Trace) : List Bus.Request := t.map (·.1)

@[simp] theorem requests_append (t u : Trace) : requests (t ++ u) = requests t ++ requests u :=
  List.map_append

/-- The number of slaves that were found, zero if they were not counted. -/
def found (t : Trace) : UInt16 :=
  (t.findSome? fun
    | ⟨.discover, .ok n⟩ => some n
    | _ => none).getD 0

-- ================================================================ exits

/-- What a stage did last that ended everything early, and why it did. -/
inductive Exit (c : Config) (layout : Layout) (name : String) (slaves : UInt16) :
    Trace → Stop → Prop
  /-- The interface could not be opened. -/
  | unopened (fault : Fault) :
      Exit c layout name slaves [⟨.init name, .error fault⟩] (.failed (.bus fault))
  /-- The slaves could not be found. -/
  | unfound (fault : Fault) :
      Exit c layout name slaves [⟨.discover, .error fault⟩] (.failed (.bus fault))
  | noSlaves : slaves = 0 →
      Exit c layout name slaves [⟨.discover, .ok slaves⟩] (.failed (.segment .noSlaves))
  | missingSlave : slaves ≠ 0 → slaves < c.slave →
      Exit c layout name slaves [⟨.discover, .ok slaves⟩]
        (.failed (.segment (.missingSlave c.slave slaves)))
  /-- A slave did not reach a state it was brought to. -/
  | stuck {target : AlState} {slave : UInt16} {t : Trace} {e : StateControl.Error} :
      target ∈ [.init, .preOperational, .safeOperational, .operational] →
      slave ∈ slavesOf slaves → Runs (StateControl.reach c.timing slave target) t (.error e) →
      Exit c layout name slaves t (.failed (.transition e))
  /-- The drive refused the operation mode. -/
  | modeRefused (fault : Fault) :
      Exit c layout name slaves
        [⟨.sdoWrite c.slave DataObject.Standard.modeOfOperation.address
          (Packed.bytes OperationMode.torqueProfile), .error fault⟩] (.failed (.bus fault))
  | unmapped (fault : Fault) :
      Exit c layout name slaves [⟨.map, .error fault⟩] (.failed (.bus fault))
  /-- What to require of the image could not be computed. -/
  | overflowed (map : ImageMap) : requiredBytes? c = none →
      Exit c layout name slaves [⟨.map, .ok map⟩] .panicked
  /-- The image is too small. -/
  | undersized (map : ImageMap) {required : UInt64} {e : SegmentError} :
      requiredBytes? c = some required →
      checkImage c required.toNat ((map.slave? c.slave).getD ⟨0, 0⟩) = .error e →
      Exit c layout name slaves [⟨.map, .ok map⟩] (.failed (.segment e))
  /-- There is no room for safe outputs. -/
  | unsafeOutputs (outputs safe : Bytes) {e : PackingError} :
      layout.safeOutputs outputs OperationMode.torqueProfile.raw = (safe, .error e) →
      Exit c layout name slaves
        [⟨.outputs c.slave, outputs⟩, ⟨.setOutputs c.slave safe, ()⟩]
        (.failed (.bus (.ofPacking e)))
  /-- A slave is not operational after all. -/
  | notOperational {slave : UInt16} (answer : Except Fault Status) :
      slave ∈ slavesOf slaves → answer.toOption.bind Status.state ≠ some .operational →
      Exit c layout name slaves [⟨.state slave, answer⟩]
        (.failed (.segment (.notOperational slave (answer.toOption.bind Status.state))))

/-- A stage that comes after `h` does not close the bus, and leaves by one of the
exits when it ends everything: the last requests up to there are those of the exit. -/
structure Leaves (h : Trace) (Q : Trace → Stop → Prop) (p : Stage α) : Prop where
  keeps : ∀ {t r}, Runs p.run t r → ∀ e ∈ t, e.1 ≠ .close
  exits : ∀ {t stop}, Runs p.run t (.error stop) → ∃ u v, h ++ t = u ++ v ∧ Q v stop

variable {Q : Trace → Stop → Prop} {h t : Trace}

/-- Stages in sequence leave by an exit of the first one or of the second one, with all that
came before it. -/
theorem Leaves.bind {p : Stage α} {f : α → Stage β} (hp : Leaves h Q p)
    (hf : ∀ {u a}, Runs p.run u (.ok a) → Leaves (h ++ u) Q (f a)) : Leaves h Q (p >>= f) where
  keeps {t r} hrun := by
    cases r with
    | error e =>
      rcases runs_bind_error_iff.1 hrun with hrun | ⟨u, a, v, rfl, hfirst, hsecond⟩
      · exact hp.keeps hrun
      · exact List.forall_mem_append.2 ⟨hp.keeps hfirst, (hf hfirst).keeps hsecond⟩
    | ok b =>
      obtain ⟨u, a, v, rfl, hfirst, hsecond⟩ := runs_bind_ok_iff.1 hrun
      exact List.forall_mem_append.2 ⟨hp.keeps hfirst, (hf hfirst).keeps hsecond⟩
  exits hrun := by
    rcases runs_bind_error_iff.1 hrun with hrun | ⟨u, a, v, rfl, hfirst, hsecond⟩
    · exact hp.exits hrun
    · rw [← List.append_assoc]
      exact (hf hfirst).exits hsecond

/-- A stage that requests nothing does not leave. -/
theorem leaves_pure (a : α) : Leaves h Q (pure a) where
  keeps hrun := by
    obtain ⟨rfl, -⟩ := runs_pure_iff.1 hrun
    exact fun _ he => absurd he List.not_mem_nil
  exits hrun := by
    obtain ⟨-, hr⟩ := runs_pure_iff.1 hrun
    cases hr

/-- A stage that ends everything leaves by the exit that is behind it already. -/
theorem leaves_throw {stop : Stop} (hq : ∃ u v, h = u ++ v ∧ Q v stop) :
    Leaves h Q (throw stop : Stage α) where
  keeps hrun := by
    obtain ⟨rfl, -⟩ := runs_pure_iff.1 hrun
    exact fun _ he => absurd he List.not_mem_nil
  exits hrun := by
    obtain ⟨rfl, hr⟩ := runs_pure_iff.1 hrun
    cases hr
    rw [List.append_nil]
    exact hq

/-- A check that requests nothing. -/
theorem leaves_check {ε : Type} {g : ε → Error} {r : Except ε α}
    (hq : ∀ {e}, r = .error e → ∃ u v, h = u ++ v ∧ Q v (.failed (g e))) :
    Leaves h Q (failing g (pure r)) := by
  cases r with
  | ok a => exact leaves_pure a
  | error e => exact leaves_throw (hq rfl)

/-- A number that has to be computed. -/
theorem leaves_computed {o : Option α} (hq : o = none → ∃ u v, h = u ++ v ∧ Q v .panicked) :
    Leaves h Q (computed o) := by
  cases o with
  | some a => exact leaves_pure a
  | none => exact leaves_throw (hq rfl)

/-- A value that must be computed takes no request, and what cannot be computed brings
everything down. -/
theorem runs_computed_iff {o : Option α} {r : Except Stop α} :
    Runs (computed o).run t r ↔ t = [] ∧ r = o.elim (.error .panicked) .ok := by
  cases o <;> exact runs_pure_iff

theorem runs_computed_ok_iff {o : Option α} {a : α} :
    Runs (computed o).run t (.ok a) ↔ t = [] ∧ o = some a := by
  rw [runs_computed_iff]
  cases o <;> simp [eq_comm]

/-- Closing the bus is a part of its own. -/
theorem ne_close_of_within {part : Part} {p : BusProgram α} {a : α} (hp : Within part p)
    (hpart : part ≠ .close) (hrun : Runs p t a) : ∀ e ∈ t, e.1 ≠ .close := by
  intro e he hclose
  have hpart' := hp.of_runs hrun e he
  rw [hclose] at hpart'
  exact hpart hpart'.symm

/-- A program that cannot fail. -/
theorem leaves_lift {part : Part} {p : BusProgram α} (hp : Within part p) (hpart : part ≠ .close) :
    Leaves h Q (liftM p : Stage α) where
  keeps hrun := by
    obtain ⟨a, -, hrun⟩ := runs_lift_iff.1 hrun
    exact ne_close_of_within hp hpart hrun
  exits hrun := by
    obtain ⟨a, hr, -⟩ := runs_lift_iff.1 hrun
    cases hr

/-- A stage that can fail runs as its program, with the fault as its own error. -/
theorem runs_failing_iff {ε : Type} {g : ε → Error} {p : BusProgram (Except ε α)}
    {r : Except Stop α} : Runs (failing g p).run t r
      ↔ ∃ r', r = r'.mapError (fun e => .failed (g e)) ∧ Runs p t r' :=
  runs_bind_pure_iff

/-- A program that keeps to one part leaves by the exits that its faults stand for. -/
theorem leaves_failing {ε : Type} {g : ε → Error} {part : Part} {p : BusProgram (Except ε α)}
    (hp : Within part p) (hpart : part ≠ .close)
    (hq : ∀ {t e}, Runs p t (.error e) → Q t (.failed (g e))) : Leaves h Q (failing g p) where
  keeps hrun := by
    obtain ⟨r, -, hrun⟩ := runs_failing_iff.1 hrun
    exact ne_close_of_within hp hpart hrun
  exits hrun := by
    obtain ⟨r, hr, hp⟩ := runs_failing_iff.1 hrun
    cases r with
    | ok a => cases hr
    | error e =>
      cases hr
      exact ⟨h, _, rfl, hq hp⟩

/-- A single request has one event. -/
theorem runs_perform_iff {r : Bus.Request} {answer : r.Answer} :
    Runs (Bus.perform r) t answer ↔ t = [⟨r, answer⟩] :=
  runs_request_done_iff

/-- A request whose answer is no error. -/
theorem leaves_request {r : Bus.Request} (hr : r ≠ .close) :
    Leaves h Q (liftM (Bus.perform r) : Stage r.Answer) where
  keeps hrun := by
    obtain ⟨answer, -, hp⟩ := runs_lift_iff.1 hrun
    rw [runs_perform_iff.1 hp]
    exact List.forall_mem_singleton.2 hr
  exits hrun := by
    obtain ⟨answer, hr, -⟩ := runs_lift_iff.1 hrun
    cases hr

theorem runs_stage_request_iff {r : Bus.Request} {answer : r.Answer} :
    Runs (liftM (Bus.perform r) : Stage r.Answer).run t (.ok answer) ↔ t = [⟨r, answer⟩] := by
  rw [runs_lift_iff, ← runs_perform_iff]
  constructor
  · intro h
    obtain ⟨a, ha, hp⟩ := h
    cases ha
    exact hp
  · intro hp
    exact ⟨answer, rfl, hp⟩

/-- A program that succeeds as a stage. -/
theorem runs_failing_ok_iff {ε : Type} {g : ε → Error} {p : BusProgram (Except ε α)} {a : α} :
    Runs (failing g p).run t (.ok a) ↔ Runs p t (.ok a) := by
  rw [runs_failing_iff]
  constructor
  · intro h
    obtain ⟨r, hr, hrun⟩ := h
    cases r with
    | error => cases hr
    | ok => cases hr; exact hrun
  · intro hrun
    exact ⟨.ok a, rfl, hrun⟩

/-- A request that succeeds as a stage. -/
theorem runs_require_ok_iff {p : BusProgram (Except Fault α)} {a : α} :
    Runs (require p).run t (.ok a) ↔ Runs p t (.ok a) :=
  runs_failing_ok_iff

-- ============================================================== stages

/-- Bringing slaves to a state fails at the first one that gets stuck. -/
theorem leaves_bringTo {target : AlState} {list : List UInt16}
    (htarget : target ∈ [.init, .preOperational, .safeOperational, .operational])
    (hlist : ∀ slave ∈ list, slave ∈ slavesOf slaves) :
    Leaves h (Exit c layout name slaves) (bringTo c.timing target list) := by
  induction list generalizing h with
  | nil => exact leaves_pure ()
  | cons slave rest ih =>
    obtain ⟨hslave, hrest⟩ := List.forall_mem_cons.1 hlist
    refine Leaves.bind ?_ fun _ => ih hrest
    exact leaves_failing StateControl.concerns_reach.within (by decide) fun hrun =>
      .stuck htarget hslave hrun

/-- Optional parameters are written to the dictionary of their slave alone. -/
theorem concerns_writeOptional {slave : UInt16} (parameters : List Parameter) :
    Concerns .dictionary slave (writeOptional slave parameters) := by
  induction parameters with
  | nil => exact only_pure _
  | cons parameter rest ih =>
    refine (concerns_perform rfl rfl).bind fun result => ih.bind fun failures => ?_
    cases result <;> exact only_pure _

/-- So are the mappings. -/
theorem concerns_negotiateMappings : Concerns .dictionary c.slave (negotiateMappings c) := by
  have hreads : Reads (fun r => r.part = .dictionary ∧ r.slave? = some c.slave) c.slave :=
    fun _ _ => ⟨rfl, rfl⟩
  have hwrites (index : UInt16) :
      WritesTo (fun r => r.part = .dictionary ∧ r.slave? = some c.slave) c.slave index :=
    fun _ _ => ⟨rfl, rfl⟩
  unfold negotiateMappings
  split
  · exact only_pure _
  · refine (DataObject.only_read hreads).bind fun answer => ?_
    cases answer with
    | error => exact only_pure _
    | ok =>
      refine (only_negotiateOne hreads (hwrites _) (hwrites _)).bind fun _ => ?_
      exact (only_negotiateOne hreads (hwrites _) (hwrites _)).bind fun _ => only_pure _

theorem only_exchangeTimes (n : Nat) : (exchangeTimes n).Only fun r : Bus.Request => r = .exchange := by
  induction n with
  | zero => exact only_pure _
  | succ n ih =>
    have hfirst : (Bus.perform .exchange).Only fun r : Bus.Request => r = .exchange :=
      only_perform rfl
    exact hfirst.bind fun _ => ih

theorem within_exchangeTimes (n : Nat) : Within .image (exchangeTimes n) :=
  (only_exchangeTimes n).mono fun _ h => h ▸ rfl

/-- Of the parameters only the operation mode can be the end, if it is refused. -/
theorem leaves_writeParameters : Leaves h (Exit c layout name slaves) (writeParameters c) := by
  unfold writeParameters
  refine Leaves.bind ?_ fun _ => ?_
  · refine leaves_failing (show Within .dictionary _ from within_perform rfl) (by decide) fun hrun => ?_
    rw [runs_perform_iff.1 hrun]
    exact .modeRefused _
  · refine (leaves_lift (concerns_writeOptional _).within (by decide)).bind fun _ => ?_
    refine (leaves_lift (DataObject.only_read fun _ _ => rfl) (by decide)).bind fun _ => ?_
    exact leaves_pure _

/-- Preparing the image fails where it cannot be laid out, is too small or cannot be made
safe, and comes down where its size cannot be computed. -/
theorem leaves_prepareImage : Leaves h (Exit c layout name slaves) (prepareImage c layout) := by
  unfold prepareImage
  refine Leaves.bind ?_ fun {u map} hmap => ?_
  · refine leaves_failing (within_perform rfl) (by decide) fun hrun => ?_
    rw [runs_perform_iff.1 hrun]
    exact .unmapped _
  · have hu := runs_perform_iff.1 (runs_require_ok_iff.1 hmap)
    refine Leaves.bind ?_ fun {v required} hcomputed => ?_
    · exact leaves_computed fun hnone => ⟨h, u, rfl, hu ▸ .overflowed map hnone⟩
    obtain ⟨rfl, hrequired⟩ := runs_computed_ok_iff.1 hcomputed
    rw [List.append_nil]
    refine (leaves_check fun {e} hcheck => ?_).bind fun _ => ?_
    · exact ⟨h, u, rfl, hu ▸ .undersized map hrequired hcheck⟩
    · refine (leaves_request (r := .outputs c.slave) nofun).bind fun {v outputs} houtputs => ?_
      have hv := runs_stage_request_iff.1 houtputs
      cases hsafe : layout.safeOutputs outputs OperationMode.torqueProfile.raw with
      | mk safe result =>
        refine (leaves_request (r := .setOutputs c.slave safe) nofun).bind fun {w _} hset => ?_
        have hw := runs_stage_request_iff.1 hset
        refine (leaves_check fun {e} he => ?_).bind fun _ => leaves_pure map
        refine ⟨_, v ++ w, List.append_assoc .., ?_⟩
        rw [hv, hw]
        exact .unsafeOutputs outputs safe (he ▸ hsafe)

/-- The last look fails at the first slave that is not operational. -/
theorem leaves_checkOperational {list : List UInt16}
    (hlist : ∀ slave ∈ list, slave ∈ slavesOf slaves) :
    Leaves h (Exit c layout name slaves) (checkOperational list) := by
  induction list generalizing h with
  | nil => exact leaves_pure ()
  | cons slave rest ih =>
    obtain ⟨hslave, hrest⟩ := List.forall_mem_cons.1 hlist
    unfold checkOperational
    refine (leaves_request (r := .state slave) nofun).bind fun {u answer} hstate => ?_
    have hu := runs_stage_request_iff.1 hstate
    dsimp only
    split
    next hlost =>
      refine Leaves.bind (leaves_throw ⟨h, u, rfl, ?_⟩) fun _ => ih hrest
      rw [hu]
      exact .notOperational answer hslave hlost
    next => exact ih hrest

-- ============================================================ the whole

/-- The stages leave by the exits alone, each after all that came before. -/
theorem leaves_stages : Leaves (h ++ [⟨.discover, .ok slaves⟩]) (Exit c layout name slaves)
    (stages c layout slaves) := by
  have hall : ∀ slave ∈ slavesOf slaves, slave ∈ slavesOf slaves := fun _ hs => hs
  unfold stages
  by_cases hzero : slaves = 0
  · rw [if_pos hzero]
    exact (leaves_throw ⟨h, _, rfl, .noSlaves hzero⟩).bind fun hrun => by cases hrun
  by_cases hmissing : slaves < c.slave
  · rw [if_neg hzero, if_pos hmissing]
    exact (leaves_throw ⟨h, _, rfl, .missingSlave hzero hmissing⟩).bind fun hrun => by cases hrun
  rw [if_neg hzero, if_neg hmissing]
  refine Leaves.bind (leaves_bringTo (by simp) hall) fun _ => ?_
  refine Leaves.bind (leaves_bringTo (by simp) hall) fun _ => ?_
  refine Leaves.bind leaves_writeParameters fun {_ parameters} _ => ?_
  refine Leaves.bind (leaves_lift concerns_negotiateMappings.within (by decide)) fun {_ mappings} _ => ?_
  refine Leaves.bind (leaves_request (r := .clocks) nofun) fun _ => ?_
  refine Leaves.bind leaves_prepareImage fun _ => ?_
  refine Leaves.bind (leaves_bringTo (by simp) hall) fun _ => ?_
  refine Leaves.bind (leaves_lift (within_exchangeTimes _) (by decide)) fun _ => ?_
  refine Leaves.bind (leaves_bringTo (by simp) hall) fun _ => ?_
  exact Leaves.bind (leaves_checkOperational hall) fun _ => leaves_pure _

/-- A bus is open once its interface is and its slaves were counted. -/
theorem runs_openBus_ok (hrun : Runs (openBus name).run t (.ok slaves)) :
    t = [⟨.init name, .ok ()⟩, ⟨.discover, .ok slaves⟩] := by
  obtain ⟨u, v, w, rfl, hinit, hdiscover⟩ := runs_bind_ok_iff.1 hrun
  rw [runs_perform_iff.1 (runs_require_ok_iff.1 hinit),
    runs_perform_iff.1 (runs_require_ok_iff.1 hdiscover)]
  rfl

/-- The bus could not be opened, or the slaves not be found. None is known then. -/
theorem runs_openBus_error (c : Config) (layout : Layout) {stop : Stop}
    (hrun : Runs (openBus name).run t (.error stop)) :
    found t = 0 ∧ (∀ e ∈ t, e.1 ≠ .close)
      ∧ ∃ u v, t = u ++ v ∧ Exit c layout name 0 v stop := by
  rcases runs_bind_error_iff.1 hrun with hinit | ⟨u, _, v, rfl, hinit, hdiscover⟩
  · obtain ⟨r, hr, hp⟩ := runs_failing_iff.1 hinit
    cases r with
    | ok => cases hr
    | error fault =>
      cases hr
      rw [runs_perform_iff.1 hp]
      exact ⟨rfl, List.forall_mem_singleton.2 nofun, [], _, rfl, .unopened fault⟩
  · obtain ⟨r, hr, hp⟩ := runs_failing_iff.1 hdiscover
    cases r with
    | ok => cases hr
    | error fault =>
      cases hr
      rw [runs_perform_iff.1 (runs_require_ok_iff.1 hinit), runs_perform_iff.1 hp]
      refine ⟨rfl, ?_, [_], _, rfl, .unfound fault⟩
      exact List.forall_mem_cons.2 ⟨nofun, List.forall_mem_singleton.2 nofun⟩

/-- Every slave is asked back to its initial state, whatever the answers are. -/
theorem runs_resetSlaves {list : List UInt16} {v : Unit} (hrun : Runs (resetSlaves list) t v) :
    requests t = list.map (.setState · .init) := by
  induction list generalizing t with
  | nil =>
    obtain ⟨rfl, -⟩ := runs_pure_iff.1 hrun
    rfl
  | cons slave rest ih =>
    obtain ⟨answer, u, rfl, hrest⟩ := runs_request_bind_iff.1 hrun
    show _ :: requests u = _
    rw [ih hrest]
    rfl

/-- The way out: every slave back to its initial state, whatever it answers, then
the bus closed. -/
theorem runs_release {v : Unit} (hrun : Runs (release slaves) t v) :
    requests t = (slavesOf slaves).map (.setState · .init) ++ [.close] := by
  obtain ⟨u, _, w, rfl, hreset, hclose⟩ := runs_bind_iff.1 hrun
  rw [requests_append, runs_resetSlaves hreset, runs_perform_iff.1 hclose]
  rfl

/-- Only the last request of the way out closes the bus. -/
theorem not_close_of_keeps (h : ∀ e ∈ t, e.1 ≠ .close) : .close ∉ requests t := by
  intro hmem
  obtain ⟨e, he, hclose⟩ := List.mem_map.1 hmem
  exact h e he hclose

/-- What failed is given back, and what came down is not. -/
theorem runs_abandon {stop : Stop} {result : Except Stop Report}
    (hrun : Runs (abandon slaves stop) t result) :
    result = .error stop ∧ ((∃ e, stop = .failed e ∧ Runs (release slaves) t ())
      ∨ stop = .panicked ∧ t = []) := by
  cases stop with
  | failed e =>
    obtain ⟨u, _, v, rfl, hrelease, hreturn⟩ := runs_bind_iff.1 hrun
    obtain ⟨rfl, hr⟩ := runs_pure_iff.1 hreturn
    rw [List.append_nil]
    exact ⟨hr, .inl ⟨e, rfl, hrelease⟩⟩
  | panicked =>
    obtain ⟨rfl, hr⟩ := runs_pure_iff.1 hrun
    exact ⟨hr, .inr ⟨rfl, rfl⟩⟩

/-- How a run of a bring-up leaves the bus, by how it ends: the stages have their turn, and
what follows them is the way out of a failure. -/
inductive Left (c : Config) (layout : Layout) (name : String) : Trace → Except Stop Report → Prop
  | ok {t : Trace} {report : Report} : (∀ e ∈ t, e.1 ≠ .close) →
      Runs (openBus name >>= stages c layout).run t (.ok report) → Left c layout name t (.ok report)
  | failed {before after : Trace} {e : Error} : (∀ e ∈ before, e.1 ≠ .close) →
      Runs (openBus name >>= stages c layout).run before (.error (.failed e)) →
      (∃ u v, before = u ++ v ∧ Exit c layout name (found before) v (.failed e)) →
      Runs (release (found before)) after () →
      Left c layout name (before ++ after) (.error (.failed e))
  | panicked {t : Trace} : (∀ e ∈ t, e.1 ≠ .close) →
      Runs (openBus name >>= stages c layout).run t (.error .panicked) →
      (∃ u v, t = u ++ v ∧ Exit c layout name (found t) v .panicked) →
      Left c layout name t (.error .panicked)

/-- An early end, once the stage that it comes from is behind. -/
theorem left_of_abandon {before after : Trace} {stop : Stop} {result : Except Stop Report}
    (hkeeps : ∀ e ∈ before, e.1 ≠ .close) (hfound : found before = slaves)
    (hstop : Runs (openBus name >>= stages c layout).run before (.error stop))
    (hexit : ∃ u v, before = u ++ v ∧ Exit c layout name slaves v stop)
    (hrun : Runs (abandon slaves stop) after result) :
    Left c layout name (before ++ after) result := by
  subst hfound
  obtain ⟨rfl, ⟨e, rfl, hrelease⟩ | ⟨rfl, rfl⟩⟩ := runs_abandon hrun
  · exact .failed hkeeps hstop hexit hrelease
  · rw [List.append_nil]
    exact .panicked hkeeps hstop hexit

/-- Every run leaves the bus by the one way out, or open if it succeeds. -/
theorem runs_run {result : Except Stop Report} (hrun : Runs (run c layout name) t result) :
    Left c layout name t result := by
  unfold run at hrun
  rw [runs_bind_iff] at hrun
  obtain ⟨u, opened, v, rfl, hopen, hrun⟩ := hrun
  cases opened with
  | error stop =>
    obtain ⟨hfound, hkeeps, hexit⟩ := runs_openBus_error c layout hopen
    exact left_of_abandon hkeeps hfound (runs_bind_error_iff.2 (.inl hopen)) hexit hrun
  | ok n =>
    have hu := runs_openBus_ok hopen
    have hleaves : Leaves ([⟨.init name, .ok ()⟩] ++ [⟨.discover, .ok n⟩])
        (Exit c layout name n) (stages c layout n) := leaves_stages
    obtain ⟨w, finished, z, rfl, hstages, hrun⟩ := runs_bind_iff.1 hrun
    have hkeeps : ∀ e ∈ u ++ w, e.1 ≠ .close := by
      rw [hu]
      refine List.forall_mem_append.2 ⟨?_, hleaves.keeps hstages⟩
      exact List.forall_mem_cons.2 ⟨nofun, List.forall_mem_singleton.2 nofun⟩
    cases finished with
    | ok report =>
      obtain ⟨rfl, rfl⟩ := runs_pure_iff.1 hrun
      rw [List.append_nil]
      exact .ok hkeeps (runs_bind_ok_iff.2 ⟨u, n, w, rfl, hopen, hstages⟩)
    | error stop =>
      have hfound : found (u ++ w) = n := by
        rw [hu]
        rfl
      have hexit : ∃ v z, u ++ w = v ++ z ∧ Exit c layout name n z stop := by
        rw [hu]
        exact hleaves.exits hstages
      rw [← List.append_assoc]
      exact left_of_abandon hkeeps hfound
        (runs_bind_error_iff.2 (.inr ⟨u, n, w, rfl, hopen, hstages⟩)) hexit hrun

/-- Every run of a bring-up that succeeds leaves the bus open. One that fails ends
with the slaves it found being asked back to their initial state, in order, and
the bus being closed, and its error is that of the stage which failed. One that
comes down ends where the stage did, and leaves the bus open. -/
theorem run_leaves {result : Except Stop Report} (hrun : Runs (run c layout name) t result) :
    (∀ report, result = .ok report → .close ∉ requests t)
      ∧ (∀ e, result = .error (.failed e) → ∃ before after, t = before ++ after
        ∧ .close ∉ requests before
        ∧ requests after = (slavesOf (found before)).map (.setState · .init) ++ [.close]
        ∧ Runs (openBus name >>= stages c layout).run before (.error (.failed e))
        ∧ ∃ u v, before = u ++ v ∧ Exit c layout name (found before) v (.failed e))
      ∧ (result = .error .panicked → .close ∉ requests t
        ∧ Runs (openBus name >>= stages c layout).run t (.error .panicked)
        ∧ ∃ u v, t = u ++ v ∧ Exit c layout name (found t) v .panicked) := by
  cases runs_run hrun with
  | ok hkeeps _ =>
    exact ⟨fun _ _ => not_close_of_keeps hkeeps, fun _ h => (by cases h), fun h => by cases h⟩
  | @failed before after e hkeeps hfail hexit hrelease =>
    refine ⟨fun _ h => (by cases h), fun e' he => ?_, fun h => by cases h⟩
    cases he
    exact ⟨before, after, rfl, not_close_of_keeps hkeeps, runs_release hrelease, hfail, hexit⟩
  | panicked hkeeps hdown hexit =>
    refine ⟨fun _ h => (by cases h), fun _ h => (by cases h), fun _ => ?_⟩
    exact ⟨not_close_of_keeps hkeeps, hdown, hexit⟩

/-- Two slaves are found where a third one is configured, and the first of them
does not go back. -/
def missingSlaveTrace : Trace :=
  [⟨.init "eth0", .ok ()⟩, ⟨.discover, .ok 2⟩,
   ⟨.setState 1 .init, .error (.timeout "no reply")⟩, ⟨.setState 2 .init, .ok ()⟩, ⟨.close, ()⟩]

theorem run_leaves_missingSlave : ∃ before after, missingSlaveTrace = before ++ after
    ∧ .close ∉ requests before
    ∧ requests after = (slavesOf (found before)).map (.setState · .init) ++ [.close]
    ∧ Runs (openBus "eth0" >>= stages { slave := 3 } .standard).run before
        (.error (.failed (.segment (.missingSlave 3 2))))
    ∧ ∃ u v, before = u ++ v
      ∧ Exit { slave := 3 } .standard "eth0" (found before) v
        (.failed (.segment (.missingSlave 3 2))) := by
  have hrun : Runs (run { slave := 3 } .standard "eth0") missingSlaveTrace
      (.error (.failed (.segment (.missingSlave 3 2)))) := Runs.of_replay rfl
  exact (run_leaves hrun).2.1 _ rfl

end Servo.Bringup
