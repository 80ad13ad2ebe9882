/-
How the cyclic exchange comes to an end.

An exchange that ends has either never touched the bus, the master not being ready, or
its last request there is an exchange of outputs that shut the drive down
(`SafeEnd`). The stop flag may be raised anywhere: what is left of the exchange from
then on is the end of what was begun, waiting or a step, and the stop (`WindsUp`). An
exchange that does not end was never told to.

# The flag

The flag is not lowered again, so from some point on every look at it finds it raised
(`Raised`). The loop looks before each step, and begins one only if it finds it
lowered; that is all there is to it, once a step itself is known never to look
(`Stepped.stopLooks`).
-/
import Servo.Proofs.Cyclic.Interlock
import Servo.Proofs.Cyclic.Steps
import Servo.Proofs.Cyclic.Tame

namespace Servo.Cyclic

open Program

variable {c : Settings} {o : Observed} {s s' : State} {t u v : Trace} {good : Bool} {bound : Nat}

-- =============================================================== looks

/-- The answers to looking at the stop flag, in order. -/
def stopLooks (t : Trace) : List Bool :=
  t.filterMap fun
    | ⟨.isStopped, stopped⟩ => some stopped
    | _ => none

@[simp] theorem stopLooks_append : stopLooks (t ++ u) = stopLooks t ++ stopLooks u :=
  List.filterMap_append

@[simp] theorem stopLooks_cons_isStopped {stopped : Bool} :
    stopLooks (⟨.isStopped, stopped⟩ :: t) = stopped :: stopLooks t := rfl

/-- Whenever the flag is looked at, it is raised. -/
def Raised (t : Trace) : Prop := ∀ stopped ∈ stopLooks t, stopped = true

/-- A flag that stays raised over two traces in a row stays so over each. -/
theorem Raised.of_append (h : Raised (t ++ u)) : Raised t ∧ Raised u := by
  unfold Raised at h
  rw [stopLooks_append] at h
  exact List.forall_mem_append.1 h

theorem not_raised_of_lowered : ¬ Raised (⟨.isStopped, false⟩ :: t) := by
  intro h
  exact absurd (h false List.mem_cons_self) Bool.false_ne_true

/-- A cycle does not look at the stop flag. -/
theorem Cycled.stopLooks (h : Cycled c s t (good, s')) : Cyclic.stopLooks t = [] := by
  cases h with
  | degraded => rfl
  | @good again setpoint outputs answer inputs clock _ hgood hclock =>
    have hread : Cyclic.stopLooks (⟨.bus (.inputs c.slave), inputs⟩ :: clock) = [] :=
      filterMap_reading rfl (fun _ => rfl) (runs_updateVelocity hclock).1
    rw [stopLooks_append, stopLooks_append, hread]
    rfl

/-- Neither does an enabling sequence, so a stop waits for its end. -/
theorem attempts_stopLooks {slave : UInt16} {layout : Layout} {left : Nat} {last : Option UInt16}
    {out : Enabling.Outcome} (h : Enabling.Attempts slave layout left last t out) :
    stopLooks t = [] := by
  induction h with
  | exhausted | noRoom | there => rfl
  | again inputs outputs answer _ _ _ ih =>
    rw [stopLooks_append]
    exact ih

theorem Looked.stopLooks (h : Looked c s t) : Cyclic.stopLooks t = [] := by
  cases h with
  | due _ hwatched => cases hwatched <;> rfl
  | spared => rfl

/-- A step does not look at the flag. -/
theorem Stepped.stopLooks (h : Stepped c s t (good, s')) : Cyclic.stopLooks t = [] := by
  cases h with
  | plain hcycle _ hlooked => rw [stopLooks_append, hcycle.stopLooks, hlooked.stopLooks]; rfl
  | enabling hcycle _ hattempts hlooked =>
    rw [stopLooks_append, stopLooks_append, hcycle.stopLooks, attempts_stopLooks hattempts,
      hlooked.stopLooks]
    rfl

-- ============================================================= waiting

/-- The master was not ready: a stop came first, or there was no poll left. -/
structure Unready (c : Settings) (t : Trace) : Prop where
  untouched : busTrace t = []
  notReady : ∀ ready, ⟨.isReady, ready⟩ ∈ t → ready = false
  reason : true ∈ stopLooks t ∨ (stopLooks t).length = c.timing.masterReadyPolls.toNat

/-- A wait that does not end running ends stopped. -/
theorem Awaited.phase {polls : Nat} (h : Awaited s polls t s') (hnot : s'.phase ≠ .running) :
    s'.phase = .stopped := by
  induction h with
  | timedOut | stopped => rfl
  | ready => exact absurd rfl hnot
  | again _ ih => exact ih hnot

/-- It found no readiness, and either a stop or no poll left. -/
theorem Awaited.notReady {polls : Nat} (h : Awaited s polls t s') (hnot : s'.phase ≠ .running) :
    (∀ ready, ⟨.isReady, ready⟩ ∈ t → ready = false)
      ∧ (true ∈ Cyclic.stopLooks t ∨ (Cyclic.stopLooks t).length = polls) := by
  induction h with
  | timedOut => exact ⟨fun _ hmem => absurd hmem List.not_mem_nil, .inr rfl⟩
  | stopped => exact ⟨by simp, .inl List.mem_cons_self⟩
  | ready => exact absurd rfl hnot
  | again _ ih =>
    obtain ⟨hready, hreason⟩ := ih hnot
    refine ⟨by simpa using hready, ?_⟩
    rcases hreason with hmem | hlength
    · exact .inl (List.mem_cons_of_mem _ hmem)
    · exact .inr (congrArg Nat.succ hlength)

/-- Where the master is ready, no look found the flag raised. -/
theorem Awaited.lowered {polls : Nat} (h : Awaited s polls t s') (hrunning : s'.phase = .running) :
    ∀ stopped ∈ Cyclic.stopLooks t, stopped = false := by
  induction h with
  | timedOut | stopped => cases hrunning
  | ready => simp [Cyclic.stopLooks]
  | again _ ih => exact List.forall_mem_cons.2 ⟨rfl, ih hrunning⟩

-- ============================================================ the stop

/-- The outputs that are handed over shut the drive down and ask for no torque, as far as
they have room for that. -/
def ShutsDown (c : Settings) (o : Observed) : Prop :=
  Carries c o 0 ∧ ∃ outputs, o.outputs = some outputs
    ∧ (c.layout.controlword.Fits outputs.length →
      c.layout.controlword.get outputs = .ok Drive.Command.shutdown.bits)

/-- The flag is found raised, and the exchange stops. -/
def Stops (c : Settings) (t : Trace) : Prop :=
  ∃ outputs answer, t = ⟨.isStopped, true⟩ :: stopTrace c outputs answer

/-- The exchange ends with outputs that shut the drive down, and says so. -/
structure SafeEnd (c : Settings) (o : Observed) (t : Trace) : Prop where
  /-- The last request to the bus exchanges them. -/
  last : ∃ pre answer, t = pre ++ [⟨.bus .exchange, answer⟩, ⟨.publish (.stopped 6), ()⟩]
    ∧ ShutsDown c (o.follow c pre)
  /-- It is the only exchange since the flag was found raised. -/
  once : ∃ before after answer, t = before ++ ⟨.isStopped, true⟩ :: after
    ∧ (∀ stopped ∈ stopLooks before, stopped = false) ∧ exchanges after = [answer]
  enabled : (o.follow c t).telemetry.enabled = false
  controlword : (o.follow c t).telemetry.controlword = 6

/-- The outputs of a stop hold a shutdown command, and no torque. -/
theorem shutsDown_stop (hl : c.layout.Sound) (outputs : Bytes) (answer : Except Bus.Fault UInt16) :
    ShutsDown c (o.follow c ((stopTrace c outputs answer).take 2)) := by
  have hhanded : (o.follow c ((stopTrace c outputs answer).take 2)).outputs
      = some (c.layout.targetTorque.put
          (c.layout.controlword.put outputs Drive.Command.shutdown.bits) 0) := by
    simp [stopTrace]
  refine ⟨carries_put _ hl hhanded, _, hhanded, fun hfit => ?_⟩
  rw [Field.length_put, Field.length_put] at hfit
  rw [Field.get_put_of_apart hl.controlword_apart.2.1.symm]
  exact Field.get_put_self hfit hl.wide.1

/-- Stopping at a look at the flag, the first one to find it raised. -/
theorem Stops.safeEnd (hl : c.layout.Sound) (h : Stops c v)
    (hbefore : ∀ stopped ∈ stopLooks u, stopped = false) : SafeEnd c o (u ++ v) := by
  obtain ⟨outputs, answer, rfl⟩ := h
  constructor
  case last =>
    refine ⟨u ++ ⟨.isStopped, true⟩ :: (stopTrace c outputs answer).take 2, answer, ?_, ?_⟩
    · rw [List.append_assoc]
      rfl
    · rw [Observed.follow_append, Observed.follow_cons]
      exact shutsDown_stop hl outputs answer
  case once => exact ⟨u, stopTrace c outputs answer, answer, rfl, hbefore, rfl⟩
  case enabled => rw [Observed.follow_append]; simp [stopTrace, Telemetry.publish]
  case controlword =>
    rw [Observed.follow_append]
    simp [stopTrace, Telemetry.publish, Drive.Command.bits]

theorem runs_stop_stops (h : Runs (stop c s) t s') :
    Stops c (⟨.isStopped, true⟩ :: t) ∧ s'.phase = .stopped := by
  obtain ⟨rfl, outputs, answer, rfl⟩ := runs_stop h
  exact ⟨⟨outputs, answer, rfl⟩, rfl⟩

-- ============================================================ the loop

/-- An exchange that has made the requests of `u` makes those of `v`, and ends. The flag
stays raised meanwhile, and what was begun is finished. -/
inductive WindsUp (c : Settings) (s : State) : Trace → Trace → Prop
  /-- Waiting for the master is given up. -/
  | waiting {u v : Trace} {s' : State} :
      Runs (waitForMaster c s) (u ++ v) (false, s') → WindsUp c s u v
  /-- The master was found ready, and no step is made. -/
  | ready {u rest v : Trace} {s' : State} :
      Runs (waitForMaster c s) (u ++ rest) (true, s') → Stops c v → WindsUp c s u (rest ++ v)
  /-- A look has found the flag lowered: the step it was for is finished, and no other one
  is made. -/
  | stepping {u begun rest v : Trace} {good : Bool} {s₁ s₂ : State} :
      Runs (step c s₁) (begun ++ rest) (good, s₂) → Stops c v →
      WindsUp c s (u ++ ⟨.isStopped, false⟩ :: begun) (rest ++ v)
  /-- The exchange is stopping already. -/
  | stopping {u begun v : Trace} : Stops c (begun ++ v) → WindsUp c s (u ++ begun) v

/-- A loop that stops finds the flag lowered until its last look, with nothing after it. -/
theorem Looped.stopped_eq (h : Looped c bound s t (some s')) :
    ∃ u, t = u ++ [⟨.isStopped, true⟩] ∧ ∀ stopped ∈ stopLooks u, stopped = false := by
  generalize hr : some s' = r at h
  induction h with
  | exceeded => cases hr
  | stopped => exact ⟨[], rfl, fun _ hmem => absurd hmem List.not_mem_nil⟩
  | @again _ _ _ t u good r hstep _ ih =>
    obtain ⟨u', rfl, hlowered⟩ := ih hr
    refine ⟨⟨.isStopped, false⟩ :: t ++ u', (List.append_assoc ..).symm, ?_⟩
    rw [stopLooks_append, stopLooks_cons_isStopped, (runs_step hstep).stopLooks]
    exact List.forall_mem_cons.2 ⟨rfl, hlowered⟩

/-- A loop that does not stop makes all its steps, and never finds the flag raised. -/
theorem Looped.exceeded_stopLooks (h : Looped c bound s t none) :
    stopLooks t = List.replicate bound false := by
  generalize hr : none = r at h
  induction h with
  | exceeded => rfl
  | stopped => cases hr
  | again hstep _ ih =>
    rw [stopLooks_append, stopLooks_cons_isStopped, (runs_step hstep).stopLooks, ih hr]
    rfl

/-- Where the flag is raised, the loop makes no step. -/
theorem Looped.eq_of_raised (h : Looped c bound s t (some s')) (hraised : Raised t) :
    t = [⟨.isStopped, true⟩] := by
  cases h with
  | stopped => rfl
  | again => exact absurd hraised not_raised_of_lowered

/-- What is left of a loop and its stop from where the flag stays raised; `h` is what was
requested before the loop. -/
theorem Looped.windsUp {s₀ : State} {w h : Trace} (hloop : Looped c bound s w (some s'))
    (hstop : Stops c (⟨.isStopped, true⟩ :: t)) (hsplit : w ++ t = u ++ v) (hraised : Raised v) :
    WindsUp c s₀ (h ++ u) v := by
  generalize hr : some s' = r at hloop
  -- a round that ends before the split goes to `h`
  induction hloop generalizing h u with
  | exceeded => cases hr
  | stopped =>
    apply WindsUp.stopping
    rw [← hsplit]
    exact hstop
  | @again bound s s₂ w w' good r hstep hloop ih =>
    cases u with
    | nil =>
      -- the look of this round would come after the flag was raised
      rw [List.nil_append] at hsplit
      rw [← hsplit] at hraised
      exact absurd hraised not_raised_of_lowered
    | cons e u =>
      rw [List.append_assoc] at hsplit
      obtain ⟨rfl, htail⟩ := List.cons.inj hsplit
      rcases List.append_eq_append_iff.1 htail with ⟨begun, rfl, hrest⟩ | ⟨rest, rfl, rfl⟩
      · have hwinds := ih (h := h ++ ⟨.isStopped, false⟩ :: w) hrest hr
        rw [List.append_assoc] at hwinds
        exact hwinds
      · -- the step was begun when the flag was raised, so the next look ends the loop
        subst hr
        rw [hloop.eq_of_raised hraised.of_append.2.of_append.1]
        exact .stepping hstep hstop

-- ================================================= the whole exchange

/-- An exchange that does not end finds the flag lowered whenever it looks. One that ends
has never touched the bus, the master not being ready, or ends with outputs that shut the
drive down. From any point on where the flag stays raised it only finishes what was begun,
and makes no step that was not. -/
theorem run_ends {r : Option State} (hl : c.layout.Sound) (h : Runs (run c bound s) t r)
    (o : Observed) :
    (r = none → (∀ stopped ∈ stopLooks t, stopped = false) ∧ bound ≤ (stopLooks t).length)
      ∧ ∀ s', r = some s' → s'.phase = .stopped ∧ (Unready c t ∨ SafeEnd c o t)
        ∧ ∀ u v, t = u ++ v → Raised v → WindsUp c s u v := by
  cases runs_run h with
  | @unready _ s₁ hwait =>
    refine ⟨nofun, fun s' hr => ?_⟩
    obtain rfl := Option.some.inj hr
    obtain ⟨hawaited, hphase⟩ := runs_waitForMaster hwait
    have hnot := of_decide_eq_false hphase.symm
    obtain ⟨hready, hreason⟩ := hawaited.notReady hnot
    refine ⟨hawaited.phase hnot, .inl ⟨hawaited.busTrace, hready, hreason⟩, fun u v hsplit _ => ?_⟩
    rw [hsplit] at hwait
    exact .waiting hwait
  | @exceeded w w' _ hwait hloop =>
    refine ⟨fun _ => ?_, nofun⟩
    obtain ⟨hawaited, hphase⟩ := runs_waitForMaster hwait
    rw [stopLooks_append, hloop.exceeded_stopLooks]
    constructor
    · refine List.forall_mem_append.2 ⟨hawaited.lowered (of_decide_eq_true hphase.symm), ?_⟩
      exact fun _ hmem => List.eq_of_mem_replicate hmem
    · rw [List.length_append, List.length_replicate]
      omega
  | @stopped w w' z _ s₂ s₃ hwait hloop hstop =>
    refine ⟨nofun, fun s' hr => ?_⟩
    obtain rfl := Option.some.inj hr
    obtain ⟨hawaited, hphase⟩ := runs_waitForMaster hwait
    have hlowered := hawaited.lowered (of_decide_eq_true hphase.symm)
    obtain ⟨hstops, hstopped⟩ := runs_stop_stops hstop
    refine ⟨hstopped, .inr ?_, fun u v hsplit hraised => ?_⟩
    · obtain ⟨w'', rfl, hlowered'⟩ := hloop.stopped_eq
      rw [List.append_assoc, List.append_assoc, ← List.append_assoc]
      refine hstops.safeEnd hl ?_
      rw [stopLooks_append]
      exact List.forall_mem_append.2 ⟨hlowered, hlowered'⟩
    · rw [List.append_assoc] at hsplit
      rcases List.append_eq_append_iff.1 hsplit with ⟨begun, rfl, hrest⟩ | ⟨rest, rfl, rfl⟩
      · exact hloop.windsUp hstops hrest hraised
      · rw [hloop.eq_of_raised hraised.of_append.2.of_append.1]
        exact .ready hwait hstops

/-- A run that is stopped in its first step, while the drive is being enabled. -/
def stoppedRun : Trace :=
  [⟨.isStopped, false⟩, ⟨.isReady, true⟩, ⟨.publish .started, ()⟩]
    ++ ⟨.isStopped, false⟩ :: (sampleCycle {} 0x21).trace ++ (sampleFailure (.ok 3)).trace
    ++ ⟨.isStopped, true⟩ :: stopTrace sample (15 :: List.replicate 8 0) (.ok 3)

theorem stoppedRun_runs : Runs (run sample 2 {}) stoppedRun
    (some { sampleFailed with controlword := 6, phase := .stopped }) :=
  Runs.of_replay rfl

/-- It ends with a safe exchange, and what is left of it once the flag is raised, behind the
first attempt at enabling the drive, is the end of that step and the stop. -/
theorem run_ends_stopped :
    SafeEnd sample {} stoppedRun
      ∧ WindsUp sample {} (stoppedRun.take 16) (stoppedRun.drop 16) := by
  obtain ⟨-, hended⟩ := run_ends Layout.standard_sound stoppedRun_runs {}
  obtain ⟨-, hend, hwinds⟩ := hended _ rfl
  constructor
  · rcases hend with hunready | hsafe
    · -- the bus was touched
      cases hunready.untouched
    · exact hsafe
  · refine hwinds _ _ (List.take_append_drop 16 _).symm ?_
    show ∀ stopped ∈ [true], stopped = true
    simp

end Servo.Cyclic
