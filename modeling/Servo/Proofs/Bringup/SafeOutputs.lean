/-
What a bring-up exchanges.

From the safe state on a drive may act on its outputs, so these must be safe before any
slave is asked for that state, and at every exchange (`safe_before_acting`). The
bring-up puts them there once, after the image is laid out, and it is the order of the
stages that makes them last: nothing acts before, and nothing hands outputs over after.

# Guards

`Guards I J p` is a stage's part in that. From where the outputs are as `I` says, the
stage acts only on safe outputs, however it ends, and where it succeeds the outputs are
as `J` says. Stages compose (`Guards.bind`), and one that makes only certain requests
guards whatever it finds: one that does not act (`guards_idle`), and one that acts
where the outputs are safe already (`guards_safe`).
-/
import Servo.Proofs.Bringup.Success
import Servo.Proofs.Layout

namespace Servo

namespace Bringup

open Program Bus

variable {α β : Type} {c : Config} {layout : Layout} {name : String} {slaves k : UInt16}
  {h t : Trace} {I J K : Option Bytes → Prop}

-- ============================================================ requests

/-- A slave may act on its outputs at an exchange, and once it is in one of the states in
which they count. -/
def Acts : Bus.Request → Prop
  | .exchange => True
  | .setState _ target => target = .safeOperational ∨ target = .operational
  | _ => False

/-- The request replaces the outputs of a slave. -/
def Replaces : Bus.Request → Prop
  | .map | .setOutputs _ _ => True
  | _ => False

-- ============================================================= outputs

/-- The outputs of a slave after an event: those that were handed over last, none since
the image was laid out. -/
def nextOutputs (k : UInt16) (held : Option Bytes) : Event → Option Bytes
  | ⟨.setOutputs slave outputs, _⟩ => if slave = k then some outputs else held
  | ⟨.map, _⟩ => none
  | _ => held

/-- The outputs of a slave that the next exchange would send. -/
def outputsAfter (k : UInt16) (t : Trace) : Option Bytes := t.foldl (nextOutputs k) none

/-- The outputs after two traces are those after the first one, as the second one replaces
them. -/
theorem outputsAfter_append (t u : Trace) :
    outputsAfter k (t ++ u) = u.foldl (nextOutputs k) (outputsAfter k t) :=
  List.foldl_append

/-- Only handing outputs over and laying the image out replace them. -/
theorem outputsAfter_of_not_replaces {u : Trace} (hu : ∀ e ∈ u, ¬ Replaces e.1) :
    outputsAfter k (t ++ u) = outputsAfter k t := by
  rw [outputsAfter_append]
  induction u generalizing t with
  | nil => rfl
  | cons e u ih =>
    obtain ⟨he, hrest⟩ := List.forall_mem_cons.1 hu
    have hsame : nextOutputs k (outputsAfter k t) e = outputsAfter k t := by
      obtain ⟨r, answer⟩ := e
      cases r with
      | map | setOutputs => exact absurd trivial he
      | _ => rfl
    rw [List.foldl_cons, hsame]
    exact ih hrest

/-- The outputs are there, and safe. -/
def Safe (layout : Layout) (held : Option Bytes) : Prop :=
  ∃ outputs, held = some outputs ∧ layout.Safe OperationMode.torqueProfile.raw outputs

/-- What acts, acts on safe outputs. -/
def Guarded (k : UInt16) (layout : Layout) (before : Trace) (e : Event) : Prop :=
  Acts e.1 → Safe layout (outputsAfter k before)

-- ============================================================== guards

/-- A stage that acts on safe outputs only. -/
structure Guards (k : UInt16) (layout : Layout) (I J : Option Bytes → Prop) (p : Stage α) :
    Prop where
  acts {h t : Trace} {r : Except Stop α} : I (outputsAfter k h) → Runs p.run t r →
    Always (Guarded k layout) h t
  leaves {h t : Trace} {a : α} : I (outputsAfter k h) → Runs p.run t (.ok a) →
    J (outputsAfter k (h ++ t))

/-- Stages in sequence are guarded, if the first one leaves what the second one begins with.
-/
theorem Guards.bind {p : Stage α} {f : α → Stage β} (hp : Guards k layout I J p)
    (hf : ∀ a, Guards k layout J K (f a)) : Guards k layout I K (p >>= f) where
  acts {h t r} hi hrun := by
    cases r with
    | error e =>
      rcases runs_bind_error_iff.1 hrun with hfirst | ⟨u, a, v, rfl, hfirst, hrest⟩
      · exact hp.acts hi hfirst
      · exact always_append.2 ⟨hp.acts hi hfirst, (hf a).acts (hp.leaves hi hfirst) hrest⟩
    | ok b =>
      obtain ⟨u, a, v, rfl, hfirst, hrest⟩ := runs_bind_ok_iff.1 hrun
      exact always_append.2 ⟨hp.acts hi hfirst, (hf a).acts (hp.leaves hi hfirst) hrest⟩
  leaves {h t b} hi hrun := by
    obtain ⟨u, a, v, rfl, hfirst, hrest⟩ := runs_bind_ok_iff.1 hrun
    rw [← List.append_assoc]
    exact (hf a).leaves (hp.leaves hi hfirst) hrest

/-- Where nothing lets a drive act, nothing has to be safe. -/
theorem always_guarded_of_idle (ht : ∀ e ∈ t, ¬ Acts e.1) : Always (Guarded k layout) h t :=
  always_of_forall fun e he _ hacts => absurd hacts (ht e he)

/-- Outputs that are safe stay so until they are replaced. -/
theorem always_guarded_of_safe (hsafe : Safe layout (outputsAfter k h))
    (ht : ∀ e ∈ t, ¬ Replaces e.1) : Always (Guarded k layout) h t := by
  induction t generalizing h with
  | nil => exact always_nil
  | cons e t ih =>
    refine always_cons.2 ⟨fun _ => hsafe, ih ?_ fun e' he' => ht e' (List.mem_cons_of_mem _ he')⟩
    rw [outputsAfter_of_not_replaces fun e' he' => ?_]
    · exact hsafe
    · rw [List.mem_singleton.1 he']
      exact ht e List.mem_cons_self

/-- A stage that does not act guards whatever it finds. -/
theorem guards_idle {p : Stage α} (hp : p.run.Only fun r => ¬ Acts r ∧ ¬ Replaces r) :
    Guards k layout I I p where
  acts _ hrun := always_guarded_of_idle fun e he => (hp.of_runs hrun e he).1
  leaves hi hrun := by
    rw [outputsAfter_of_not_replaces fun e he => (hp.of_runs hrun e he).2]
    exact hi

/-- A stage that acts where the outputs are safe already keeps them. -/
theorem guards_safe {p : Stage α} (hp : p.run.Only fun r => ¬ Replaces r) :
    Guards k layout (Safe layout) (Safe layout) p where
  acts hsafe hrun := always_guarded_of_safe hsafe (hp.of_runs hrun)
  leaves hsafe hrun := by
    rw [outputsAfter_of_not_replaces (hp.of_runs hrun)]
    exact hsafe

-- ============================================================== stages

theorem only_lift {P : Bus.Request → Prop} {p : BusProgram α} (hp : p.Only P) :
    (liftM p : Stage α).run.Only P := by
  rw [ExceptT.run_liftM, map_eq_pure_bind]
  exact hp.bind fun _ => only_pure _

theorem only_failing {ε : Type} {g : ε → Error} {P : Bus.Request → Prop}
    {p : BusProgram (Except ε α)} (hp : p.Only P) : (failing g p).run.Only P :=
  hp.bind fun _ => only_pure _

theorem only_computed {P : Bus.Request → Prop} (o : Option α) : (computed o).run.Only P := by
  cases o <;> exact only_pure _

/-- Bringing slaves to a state asks for it, looks, and may lead through the safe state. -/
theorem only_bringTo {P : Bus.Request → Prop} {timing : Timing} {target : AlState}
    {list : List UInt16} (hstates : ∀ slave, P (.clearAl slave) ∧ P (.state slave))
    (hask : ∀ slave, P (.setState slave target))
    (hdetour : ∀ slave, target = .operational → P (.setState slave .safeOperational)) :
    (bringTo timing target list).run.Only P := by
  induction list with
  | nil => exact only_pure _
  | cons slave rest ih =>
    have hreach : (StateControl.reach timing slave target).Only P :=
      StateControl.only_reach (hstates slave).1 (hstates slave).2 (hask slave) (hdetour slave)
    exact (only_failing hreach).bindExcept fun _ => ih

/-- The last look only looks. -/
theorem only_checkOperational {P : Bus.Request → Prop} {list : List UInt16}
    (hlook : ∀ slave, P (.state slave)) : (checkOperational list).run.Only P := by
  induction list with
  | nil => exact only_pure _
  | cons slave rest ih =>
    unfold checkOperational
    refine (only_lift (only_perform (hlook slave))).bindExcept fun answer => ?_
    dsimp only
    split
    · exact Only.bindExcept (only_pure _) fun _ => ih
    · exact ih

/-- What is about dictionaries neither acts nor replaces any outputs. -/
theorem idle_of_dictionary {r : Bus.Request} (h : r.part = .dictionary) :
    ¬ Acts r ∧ ¬ Replaces r := by
  cases r with
  | sdoRead | sdoWrite => exact ⟨id, id⟩
  | _ => cases h

/-- The parameters are written to dictionaries only. -/
theorem only_writeParameters {P : Bus.Request → Prop} (h : ∀ r, r.part = .dictionary → P r) :
    (writeParameters c).run.Only P := by
  have hwrites : Within .dictionary (writeOptional c.slave (optionalParameters c.parameters)) :=
    (concerns_writeOptional _).within
  unfold writeParameters
  refine (only_failing (only_perform (h _ rfl))).bindExcept fun _ => ?_
  refine (only_lift (hwrites.mono h)).bindExcept fun _ => ?_
  refine (only_lift (DataObject.only_read fun _ _ => h _ rfl)).bindExcept fun _ => ?_
  exact only_pure _

/-- Preparing the image puts safe outputs there. -/
theorem guards_prepareImage (hl : layout.Sound) :
    Guards c.slave layout I (Safe layout) (prepareImage c layout) where
  acts {h t r} _ hrun := by
    have hidle : (prepareImage c layout).run.Only fun r => ¬ Acts r := by
      unfold prepareImage
      refine (only_failing (only_perform id)).bindExcept fun map => ?_
      refine (only_computed _).bindExcept fun required => ?_
      refine (only_failing (only_pure _)).bindExcept fun _ => ?_
      refine (only_lift (only_perform id)).bindExcept fun outputs => ?_
      refine (only_lift (only_perform id)).bindExcept fun _ => ?_
      exact (only_failing (only_pure _)).bindExcept fun _ => only_pure _
    exact always_guarded_of_idle (hidle.of_runs hrun)
  leaves {h t map} _ hrun := by
    obtain ⟨-, outputs, safe, hsafe, rfl⟩ := prepareImage_requests hrun
    refine ⟨safe, ?_, (Layout.safe_safeOutputs hl hsafe).1⟩
    rw [outputsAfter_append]
    simp [nextOutputs]

/-- The stages make the outputs safe before they let the drive act. -/
theorem guards_stages (hl : layout.Sound) :
    Guards c.slave layout I (Safe layout) (stages c layout slaves) := by
  have hthrow (e : SegmentError) {f : Unit → Stage Report} :
      Guards c.slave layout I (Safe layout) ((fail (.segment e) : Stage Unit) >>= f) := by
    constructor
    · intro h t r _ hrun
      obtain ⟨rfl, -⟩ := runs_pure_iff.1 hrun
      exact always_nil
    · intro h t a _ hrun
      obtain ⟨-, hr⟩ := runs_pure_iff.1 hrun
      cases hr
  have hwaiting {target : AlState} (htarget : target = .init ∨ target = .preOperational) :
      Guards c.slave layout I I (bringTo c.timing target (slavesOf slaves)) := by
    refine guards_idle (only_bringTo (fun _ => ⟨⟨id, id⟩, id, id⟩) (fun _ => ⟨?_, id⟩) fun _ h => ?_)
    · rcases htarget with rfl | rfl <;> exact nofun
    · rcases htarget with rfl | rfl <;> cases h
  have hacting (target : AlState) :
      Guards c.slave layout (Safe layout) (Safe layout)
        (bringTo c.timing target (slavesOf slaves)) :=
    guards_safe (only_bringTo (fun _ => ⟨id, id⟩) (fun _ => id) fun _ _ => id)
  unfold stages
  by_cases hzero : slaves = 0
  · rw [if_pos hzero]
    exact hthrow _
  by_cases hmissing : slaves < c.slave
  · rw [if_neg hzero, if_pos hmissing]
    exact hthrow _
  rw [if_neg hzero, if_neg hmissing]
  refine (hwaiting (.inl rfl)).bind fun _ => (hwaiting (.inr rfl)).bind fun _ => ?_
  refine (guards_idle (only_writeParameters fun _ => idle_of_dictionary)).bind fun _ => ?_
  refine (guards_idle (only_lift (concerns_negotiateMappings.mono fun _ h =>
    idle_of_dictionary h.1))).bind fun _ => ?_
  refine (guards_idle (only_lift (only_perform ⟨id, id⟩))).bind fun _ => ?_
  refine (guards_prepareImage hl).bind fun _ => (hacting _).bind fun _ => ?_
  refine (guards_safe (only_lift ?_)).bind fun _ => (hacting _).bind fun _ => ?_
  · exact (only_exchangeTimes _).mono fun _ h => h ▸ id
  · exact (guards_safe (only_checkOperational fun _ => id)).bind fun _ =>
      guards_safe (only_pure _)

-- ============================================================ the whole

theorem only_openBus {P : Bus.Request → Prop} (hinit : P (.init name)) (hdiscover : P .discover) :
    (openBus name).run.Only P := by
  unfold openBus
  exact (only_failing (only_perform hinit)).bindExcept fun _ =>
    only_failing (only_perform hdiscover)

/-- Giving the bus back does not act: slaves are asked for their initial state. -/
theorem always_guarded_release {v : Unit} (hrun : Runs (release slaves) t v) :
    Always (Guarded k layout) h t := by
  refine always_guarded_of_idle (forall_of_requests (P := fun r => ¬ Acts r) ?_)
  rw [runs_release hrun]
  refine List.forall_mem_append.2 ⟨fun r hr => ?_, List.forall_mem_singleton.2 id⟩
  obtain ⟨slave, -, rfl⟩ := List.mem_map.1 hr
  exact nofun

/-- Giving up lets no drive act: it asks for the initial state and closes. -/
theorem always_guarded_abandon {stop : Stop} {result : Except Stop Report}
    (hrun : Runs (abandon slaves stop) t result) : Always (Guarded k layout) h t := by
  obtain ⟨-, ⟨_, -, hrelease⟩ | ⟨-, rfl⟩⟩ := runs_abandon hrun
  · exact always_guarded_release hrelease
  · exact always_nil

/-- A whole bring-up is guarded, however it ends. -/
theorem always_guarded_run {result : Except Stop Report} (hl : layout.Sound)
    (hrun : Runs (run c layout name) t result) : Always (Guarded c.slave layout) [] t := by
  unfold run at hrun
  obtain ⟨u, opened, v, rfl, hopen, hrest⟩ := runs_bind_iff.1 hrun
  have hidle : (openBus name).run.Only fun r => ¬ Acts r := only_openBus id id
  refine always_append.2 ⟨always_guarded_of_idle (hidle.of_runs hopen), ?_⟩
  cases opened with
  | error stop => exact always_guarded_abandon hrest
  | ok slaves =>
    obtain ⟨w, finished, x, rfl, hstages, hdone⟩ := runs_bind_iff.1 hrest
    refine always_append.2 ⟨(guards_stages (I := fun _ => True) hl).acts trivial hstages, ?_⟩
    cases finished with
    | error stop => exact always_guarded_abandon hdone
    | ok found =>
      obtain ⟨rfl, -⟩ := runs_pure_iff.1 hdone
      exact always_nil

/-- However a bring-up ends: whenever it exchanges, or asks a slave for a state in which
outputs count, the outputs of the drive have been handed over since the image was laid
out, and are safe. -/
theorem safe_before_acting {result : Except Stop Report} {before after : Trace} {e : Event}
    (hl : layout.Sound) (hrun : Runs (run c layout name) t result)
    (hsplit : t = before ++ e :: after) (hacts : Acts e.1) :
    ∃ outputs, outputsAfter c.slave before = some outputs
      ∧ layout.Safe OperationMode.torqueProfile.raw outputs := by
  have halways := always_guarded_run hl hrun
  rw [hsplit] at halways
  exact halways.at_split hacts

/-- A bring-up of a drive whose image has room for the control word alone, and which
refuses to become operational. -/
def refusedRun : Trace × Except Stop Report × Simulation.Segment :=
  (run { timing := { stateAttempts := 1, statePolls := 1, watchdogCycles := 0 } } .standard
    "eth0").record Simulation.Segment.answer
    { slaves := [{ imageOverride := some ⟨2, 2⟩, refused := [(.operational, ⟨0x1e⟩)] }] }

/-- It fails, and its one exchange was made with safe outputs all the same. -/
theorem safe_before_acting_refused : ∃ before after answer,
    refusedRun.1 = before ++ ⟨.exchange, answer⟩ :: after
      ∧ ¬ refusedRun.2.1.isOk
      ∧ ∃ outputs, outputsAfter 1 before = some outputs
        ∧ Layout.standard.Safe OperationMode.torqueProfile.raw outputs := by
  have hsplit : refusedRun.1
      = refusedRun.1.take 45 ++ ⟨.exchange, .ok 1⟩ :: refusedRun.1.drop 46 := rfl
  refine ⟨_, _, _, hsplit, by decide, ?_⟩
  exact safe_before_acting Layout.standard_sound (runs_record ..) hsplit trivial

end Bringup

end Servo
