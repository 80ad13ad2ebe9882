/-
The control word that is published, and the one that is sent.

An exchange remembers a control word, and there are two more of it: in the outputs of the
slave and in the telemetry. A step writes the remembered word into the outputs, and so does
each attempt of an enabling sequence and a stop with a new one, which is then remembered;
so where there is room for it, the outputs hold what is remembered after each of these
(`Stepped.sends`, `stop_sends`).

# What is told of it

The telemetry gets the word from a good cycle, an attempt and a stop, but not from a degraded
cycle, which changes no word either (`Returned.tells`). So the three agree from the first
good step or stop on, and stay so through degraded steps. Before that the word in the outputs
is the one an exchange begins with, a shutdown, and the telemetry has none yet
(`Called.controlword`): of steps that are all degraded so far it tells another word than the
one that is sent, and those are the only ones (`inFlight_iff`).
-/
import Servo.Proofs.Cyclic.Attempts
import Servo.Proofs.Cyclic.Telemetry

namespace Servo.Cyclic

open Program

variable {c : Settings} {o : Observed} {s s' : State} {t u : Trace} {x : Call}
  {calls : List Call} {good : Bool}

/-- The outputs that were handed over last hold a control word. -/
def Holds (c : Settings) (o : Observed) (word : UInt16) : Prop :=
  ∃ outputs, o.outputs = some outputs ∧ c.layout.controlword.get outputs = .ok word

/-- Wherever the outputs of the slave were found, there is room for the control word. -/
def Roomy (c : Settings) (t : Trace) : Prop :=
  ∀ outputs, ⟨.bus (.outputs c.slave), outputs⟩ ∈ t → c.layout.controlword.HasRoom outputs

theorem Roomy.of_append (h : Roomy c (t ++ u)) : Roomy c t ∧ Roomy c u :=
  ⟨fun outputs ht => h outputs (List.mem_append_left u ht),
    fun outputs hu => h outputs (List.mem_append_right t hu)⟩

-- =============================================================== asides

/-- What is no part of the process image, and tells nothing of the drive, changes neither
word. -/
theorem follow_detached (hquiet : ∀ e ∈ t, Quiet e) (hdetached : ∀ p ∈ publications t, Detached p) :
    (o.follow c t).outputs = o.outputs
      ∧ (o.follow c t).telemetry.controlword = o.telemetry.controlword := by
  constructor
  · rw [(Quiet.follow hquiet).1]
  · rw [follow_telemetry]
    exact (sameDrive_of_detached hdetached o.telemetry).controlword

/-- A look at the slave leaves the outputs, and what is told of the control word. -/
theorem Looked.follow (h : Looked c s t) :
    (o.follow c t).outputs = o.outputs
      ∧ (o.follow c t).telemetry.controlword = o.telemetry.controlword := by
  apply follow_detached
  · cases h with
    | due _ hwatched => exact hwatched.quiet
    | spared => simp
  · intro p hp
    obtain ⟨operational, rfl⟩ := h.publications.2 p hp
    trivial

/-- So does waiting. -/
theorem Awaited.follow {polls : Nat} (h : Awaited s polls t s') :
    (o.follow c t).outputs = o.outputs
      ∧ (o.follow c t).telemetry.controlword = o.telemetry.controlword := by
  apply follow_detached h.quiet
  intro p hp
  rw [h.publications p hp]
  trivial

-- ============================================================== a cycle

/-- A cycle keeps the word that it sends, and tells it if it is a good one. -/
theorem Cycled.tells (h : Cycled c s t (good, s')) :
    s'.controlword = s.controlword
      ∧ (o.follow c t).telemetry.controlword
        = if good then s'.controlword else o.telemetry.controlword := by
  cases h with
  | degraded => simp [sendTrace, Telemetry.publish, State.begun]
  | good again setpoint outputs answer inputs hgood hclock =>
    obtain ⟨hnow, hs'⟩ := runs_updateVelocity hclock
    constructor
    · rw [hs']
      rfl
    · simp [sendTrace, Observed.follow_clock hnow, Telemetry.publish]

/-- A cycle sends the control word that it remembers: neither the mode nor the torque goes
over it. -/
theorem Cycled.sends (hmode : c.layout.controlword.Apart c.layout.mode)
    (htorque : c.layout.controlword.Apart c.layout.targetTorque) (h : Cycled c s t (good, s'))
    (hroom : Roomy c t) : Holds c (o.follow c t) s.controlword := by
  have hget (setpoint : Single) (outputs : Bytes) (hfits : c.layout.controlword.HasRoom outputs) :
      c.layout.controlword.get (s.commanded c setpoint outputs) = .ok s.controlword := by
    unfold State.commanded
    rw [Field.get_put_of_apart htorque.symm, Field.get_put_of_apart hmode.symm]
    exact Field.get_put_self hfits.1 hfits.2
  cases h with
  | degraded again setpoint outputs answer =>
    have hfits := hroom outputs (by simp [sendTrace])
    exact ⟨s.commanded c setpoint outputs, by simp [sendTrace], hget setpoint outputs hfits⟩
  | good again setpoint outputs answer inputs hgood hclock =>
    have hfits := hroom outputs (by simp [sendTrace])
    have hnow := (runs_updateVelocity hclock).1
    exact ⟨s.commanded c setpoint outputs, by simp [sendTrace, Observed.follow_clock hnow],
      hget setpoint outputs hfits⟩

-- =========================================================== a sequence

/-- A sequence without attempts changes nothing. Any other one leaves what its last attempt
does, and the word of that attempt is remembered. -/
theorem attempts_last {left : Nat} {out : Enabling.Outcome}
    (h : Enabling.Attempts c.slave c.layout left none t out) (s : State) (o : Observed) :
    t = [] ∧ (s.settle out).controlword = s.controlword
      ∨ ∃ (a : Enabling.Attempt) (o' : Observed),
        ⟨.bus (.outputs c.slave), a.outputs⟩ ∈ t
          ∧ (s.settle out).controlword = (a.drive c.layout).controlword
          ∧ o.follow c t = o'.follow c (a.trace c.slave c.layout) := by
  obtain ⟨row, rfl, -, -, hword⟩ := Enabling.attempts_row h
  unfold State.settle
  rw [hword]
  cases hlast : row.getLast? with
  | none =>
    obtain rfl := List.getLast?_eq_none_iff.1 hlast
    exact .inl ⟨rfl, rfl⟩
  | some a =>
    obtain ⟨o', hseen⟩ := follow_row (c := c) (o := o) hlast
    refine .inr ⟨a, o', List.mem_flatMap.2 ⟨a, List.mem_of_getLast? hlast, ?_⟩, rfl, hseen⟩
    simp [Enabling.Attempt.trace, Enabling.attemptTrace]

/-- A sequence tells the control word of its last attempt. -/
theorem attempts_tell {left : Nat} {out : Enabling.Outcome}
    (h : Enabling.Attempts c.slave c.layout left none t out)
    (htold : o.telemetry.controlword = s.controlword) :
    (o.follow c t).telemetry.controlword = (s.settle out).controlword := by
  rcases attempts_last h s o with ⟨rfl, hsame⟩ | ⟨a, o', -, hword, hseen⟩
  · exact htold.trans hsame.symm
  · obtain ⟨-, -, htelemetry⟩ := follow_attempt (c := c) (o := o') a
    rw [hword, hseen, htelemetry]
    rfl

/-- The outputs hold the control word of the last attempt behind a sequence. -/
theorem attempts_send {left : Nat} {out : Enabling.Outcome}
    (h : Enabling.Attempts c.slave c.layout left none t out) (hroom : Roomy c t)
    (hholds : Holds c o s.controlword) : Holds c (o.follow c t) (s.settle out).controlword := by
  rcases attempts_last h s o with ⟨rfl, hsame⟩ | ⟨a, o', hfound, hword, hseen⟩
  · rw [hsame]
    exact hholds
  · obtain ⟨houtputs, -, -⟩ := follow_attempt (c := c) (o := o') a
    rw [hword, hseen]
    exact ⟨_, houtputs, Enabling.Attempt.get_sent (hroom a.outputs hfound)⟩

-- ============================================================== a step

/-- After a good step the word that is remembered is told; a degraded one tells none, and
keeps the word. -/
theorem Stepped.tells (h : Stepped c s t (good, s')) :
    (good = true → (o.follow c t).telemetry.controlword = s'.controlword)
      ∧ (good = false → (o.follow c t).telemetry.controlword = o.telemetry.controlword
        ∧ s'.controlword = s.controlword) := by
  cases h with
  | plain hcycle _ hlooked =>
    obtain ⟨hkept, htold⟩ := hcycle.tells (o := o)
    rw [Observed.follow_append, hlooked.follow.2, htold]
    exact ⟨fun hgood => by rw [if_pos hgood],
      fun hlow => ⟨by rw [if_neg (by simp [hlow])], hkept⟩⟩
  | enabling hcycle _ hattempts hlooked =>
    have htold := (hcycle.tells (o := o)).2
    rw [if_pos rfl] at htold
    rw [Observed.follow_append, Observed.follow_append, hlooked.follow.2,
      attempts_tell hattempts htold]
    exact ⟨fun _ => rfl, nofun⟩

/-- After a step the outputs hold the word that is remembered. -/
theorem Stepped.sends (hmode : c.layout.controlword.Apart c.layout.mode)
    (htorque : c.layout.controlword.Apart c.layout.targetTorque) (h : Stepped c s t (good, s'))
    (hroom : Roomy c t) : Holds c (o.follow c t) s'.controlword := by
  cases h with
  | plain hcycle _ hlooked =>
    have hsent := hcycle.sends (o := o) hmode htorque hroom.of_append.1
    rw [← (hcycle.tells (o := o)).1] at hsent
    unfold Holds
    rwa [Observed.follow_append, hlooked.follow.1]
  | enabling hcycle _ hattempts hlooked =>
    obtain ⟨hcycleRoom, hattemptsRoom⟩ := hroom.of_append.1.of_append
    have hsent := hcycle.sends (o := o) hmode htorque hcycleRoom
    rw [← (hcycle.tells (o := o)).1] at hsent
    unfold Holds
    rw [Observed.follow_append, Observed.follow_append, hlooked.follow.1]
    exact attempts_send hattempts hattemptsRoom hsent

/-- A stop sends the shutdown command, and tells it. -/
theorem stop_sends (htorque : c.layout.controlword.Apart c.layout.targetTorque)
    (h : Runs (stop c s) t s') (hroom : Roomy c t) :
    Holds c (o.follow c t) s'.controlword := by
  obtain ⟨rfl, outputs, answer, rfl⟩ := runs_stop h
  have hfits := hroom outputs (by simp [stopTrace])
  refine ⟨c.layout.targetTorque.put
    (c.layout.controlword.put outputs Drive.Command.shutdown.bits) 0, by simp [stopTrace], ?_⟩
  rw [Field.get_put_of_apart htorque.symm]
  exact Field.get_put_self hfits.1 hfits.2

-- ================================================================ calls

/-- The call tells a control word. -/
def Call.Tells : Call → Prop
  | .step true | .stop => True
  | _ => False

instance : DecidablePred Call.Tells
  | .step true | .stop => .isTrue trivial
  | .step false | .waitForMaster _ | .look _ => .isFalse id

/-- The call sends a control word. -/
def Call.Sends : Call → Prop
  | .step _ | .stop => True
  | _ => False

/-- A call tells the word that it leaves to be remembered, or tells none and keeps it. -/
theorem Returned.tells (h : Returned c s x t s') :
    (x.Tells → (o.follow c t).telemetry.controlword = s'.controlword)
      ∧ (¬ x.Tells → (o.follow c t).telemetry.controlword = o.telemetry.controlword
        ∧ s'.controlword = s.controlword) := by
  cases h with
  | waitForMaster hwait =>
    have hawaited := (runs_waitForMaster hwait).1
    have hkept : s' = { s with phase := s'.phase } := hawaited.state_eq
    refine ⟨False.elim, fun _ => ⟨hawaited.follow.2, ?_⟩⟩
    rw [hkept]
  | look => exact ⟨False.elim, fun _ => ⟨rfl, rfl⟩⟩
  | @step good _ _ hstep =>
    obtain ⟨hgood, hlow⟩ := (runs_step hstep).tells (o := o)
    cases good with
    | true => exact ⟨fun _ => hgood rfl, fun hnot => absurd trivial hnot⟩
    | false => exact ⟨False.elim, fun _ => hlow rfl⟩
  | stop hstop =>
    obtain ⟨rfl, outputs, answer, rfl⟩ := runs_stop hstop
    refine ⟨fun _ => ?_, fun hnot => absurd trivial hnot⟩
    simp [stopTrace, Telemetry.publish]

/-- Every call that sends anything sends what it remembers. -/
theorem Returned.sends (hmode : c.layout.controlword.Apart c.layout.mode)
    (htorque : c.layout.controlword.Apart c.layout.targetTorque) (h : Returned c s x t s')
    (hx : x.Sends) (hroom : Roomy c t) : Holds c (o.follow c t) s'.controlword := by
  cases h with
  | waitForMaster | look => exact hx.elim
  | step hstep => exact (runs_step hstep).sends hmode htorque hroom
  | stop hstop => exact stop_sends htorque hstop hroom

/-- What is remembered is told, as soon as anything is. -/
theorem Called.controlword (h : Called c calls t s) :
    ((∃ x ∈ calls, x.Tells) → (observe c t).telemetry.controlword = s.controlword)
      ∧ ((∀ x ∈ calls, ¬ x.Tells) → (observe c t).telemetry.controlword = 0
        ∧ s.controlword = Drive.Command.shutdown.bits) := by
  induction h with
  | new => exact ⟨by simp, fun _ => ⟨rfl, rfl⟩⟩
  | @call calls t _ _ _ x _ hx ih =>
    obtain ⟨htells, hkeeps⟩ := hx.tells (o := observe c t)
    rw [observe_append]
    by_cases hx : x.Tells
    · exact ⟨fun _ => htells hx, fun hnone => absurd hx (hnone x (by simp))⟩
    · obtain ⟨htold, hkept⟩ := hkeeps hx
      rw [htold, hkept]
      refine ⟨fun hsome => ih.1 ?_, fun hnone => ih.2 fun y hy => hnone y (by simp [hy])⟩
      simpa [hx] using hsome

-- ============================================================ in flight

/-- After a step or a stop, behind any other calls, the outputs hold the control word that is
published exactly if some step was good by then, or the exchange was stopped. After nothing
but degraded steps they hold a shutdown command, and 0 is published. -/
theorem inFlight_iff (hmode : c.layout.controlword.Apart c.layout.mode)
    (htorque : c.layout.controlword.Apart c.layout.targetTorque) (h : Called c calls t s)
    (hx : Returned c s x u s') (hsends : x.Sends) (hroom : Roomy c u) :
    let o := observe c (t ++ u)
    (Holds c o o.telemetry.controlword ↔ ∃ y ∈ calls ++ [x], y.Tells)
      ∧ ((∀ y ∈ calls ++ [x], ¬ y.Tells) →
        Holds c o Drive.Command.shutdown.bits ∧ o.telemetry.controlword = 0) := by
  intro o
  have hsent : Holds c o s'.controlword := by
    have hsent := hx.sends (o := observe c t) hmode htorque hsends hroom
    rwa [← observe_append] at hsent
  obtain ⟨htold, hnone⟩ := (h.call hx).controlword
  refine ⟨⟨fun hholds => ?_, fun hsome => htold hsome ▸ hsent⟩, fun hall => ?_⟩
  · apply Classical.byContradiction
    intro hnot
    obtain ⟨hzero, hshutdown⟩ := hnone fun y hy htells => hnot ⟨y, hy, htells⟩
    -- the outputs hold one word only, and a shutdown is not 0
    obtain ⟨sent, hout, hget⟩ := hholds
    obtain ⟨sent', hout', hget'⟩ := hsent
    obtain rfl := Option.some.inj (hout.symm.trans hout')
    have hword := Except.ok.inj (hget.symm.trans hget')
    rw [hzero, hshutdown] at hword
    exact absurd hword (by decide)
  · obtain ⟨hzero, hshutdown⟩ := hnone hall
    exact ⟨hshutdown ▸ hsent, hzero⟩

/-- The first cycle of the sample counts one too few. -/
def lowCycle : Trace :=
  sendTrace sample {} false ⟨0⟩ (List.replicate 9 0) (.ok 2) ++ [⟨.publish (.degraded 2), ()⟩]

theorem lowCycle_returned : Returned sample {} (.step false) lowCycle (State.begun {} false) :=
  .step (Runs.of_replay rfl)

theorem roomy_lowCycle : Roomy sample lowCycle := by
  intro outputs houtputs
  have hfound : outputs = List.replicate 9 0 := by simpa [lowCycle, sendTrace] using houtputs
  rw [hfound]
  decide

/-- The word that it sends is not published. -/
theorem inFlight_iff_low :
    Holds sample (observe sample lowCycle) Drive.Command.shutdown.bits
      ∧ (observe sample lowCycle).telemetry.controlword = 0 := by
  obtain ⟨-, hlow⟩ := inFlight_iff (c := sample) (by decide) (by decide) .new lowCycle_returned
    trivial roomy_lowCycle
  exact hlow (by decide)

/-- The control word that is published is not always the one that is sent. -/
theorem not_inFlight :
    ¬ ∀ (c : Settings) (calls : List Call) (x : Call) (t u : Trace) (s s' : State),
      c.layout.Sound → Called c calls t s → Returned c s x u s' → x.Sends → Roomy c u →
      Holds c (observe c (t ++ u)) (observe c (t ++ u)).telemetry.controlword := by
  intro h
  obtain ⟨sent, hsent, hget⟩ := h sample [] (.step false) [] lowCycle {} (State.begun {} false)
    Layout.standard_sound .new lowCycle_returned trivial roomy_lowCycle
  cases Option.some.inj hsent
  cases hget

end Servo.Cyclic
