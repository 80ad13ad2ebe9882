/-
What is left of the interlock when an enabling sequence has failed.

A failed sequence shuts nothing. The torque of a step depends on the drive state
alone, and the last command of the sequence stays in the outputs: a drive that
follows it late reports operation enabled at a later cycle, and from then on the
setpoint applies, although no sequence has succeeded.

`torque_after_failure` says exactly when that happens, and `not_staysOff` that it
does happen, on a segment where nothing goes wrong. It is about sessions;
`step_after_failure` and `run_after_failure` say the same of the programs.

# Who reports operation enabled

A sequence that runs out of attempts has found some other state at each of them.
So the report comes from a good cycle after it. There is one exception: a
sequence also fails when the image has no room for the control word, and it may
find operation enabled before it notices (`attempts_failed`).
-/
import Servo.Proofs.Config
import Servo.Proofs.Cyclic.Interlock
import Servo.Proofs.Cyclic.Steps

namespace Servo.Cyclic

open Program

variable {c : Settings} {o : Observed} {s s' : State} {log before between : List Stretch}
  {p p' : Point} {x failed : Stretch} {t pre post : Trace} {answer : Except Bus.Fault UInt16}

-- ============================================================== reports

/-- The stretch is an enabling sequence that did not enable the drive. -/
def Stretch.Failed (x : Stretch) : Prop := ∃ o, x.act = .enabling o ∧ o.enabled = false

/-- The stretch is an enabling sequence that enabled the drive. -/
def Stretch.Succeeded (x : Stretch) : Prop := ∃ o, x.act = .enabling o ∧ o.enabled = true

theorem Stretch.Failed.not_succeeded (hf : x.Failed) : ¬ x.Succeeded := by
  intro hs
  obtain ⟨out, hact, hfail⟩ := hf
  obtain ⟨out', hact', hok⟩ := hs
  rw [hact] at hact'
  cases hact'
  rw [hfail] at hok
  cases hok

/-- The drive state of the status word that some stretches read last. -/
def reported (c : Settings) (log : List Stretch) : Drive.State :=
  .decode (observe c (events log)).statusword

/-- The stretch handed over outputs that end before the control word does. -/
def NoRoom (c : Settings) (t : Trace) : Prop :=
  ∃ outputs, ⟨.bus (.setOutputs c.slave outputs), ()⟩ ∈ t
    ∧ ¬ c.layout.controlword.Fits outputs.length

theorem follow_statusword_congr {o o' : Observed} (hw : o.statusword = o'.statusword) :
    (o.follow c t).statusword = (o'.follow c t).statusword := by
  induction t generalizing o o' with
  | nil => exact hw
  | cons e t ih =>
    apply ih
    unfold Observed.after
    split
    · split <;> exact hw
    · split
      · rfl
      · exact hw
    all_goals exact hw

/-- A sequence with an attempt left reads a status word, whatever was read
before. -/
theorem attempts_statusword {left : Nat} {last : Option UInt16} {out : Enabling.Outcome}
    {o o' : Observed} (ha : Enabling.Attempts c.slave c.layout left last t out) (hleft : left ≠ 0) :
    (o.follow c t).statusword = (o'.follow c t).statusword := by
  cases ha with
  | exhausted => exact absurd rfl hleft
  | noRoom => simp [Enabling.attemptTrace]
  | there => simp [Enabling.attemptTrace]
  | again =>
    rw [Observed.follow_append, Observed.follow_append]
    apply follow_statusword_congr
    simp [Enabling.attemptTrace]

/-- A sequence that fails read no operation enabled, unless it could not write
the control word. -/
theorem attempts_failed {left : Nat} {last : Option UInt16} {out : Enabling.Outcome}
    (hl : c.layout.Sound) (ha : Enabling.Attempts c.slave c.layout left last t out)
    (hout : out.enabled = false) (hstart : Drive.State.decode o.statusword ≠ .operationEnabled)
    (hon : Drive.State.decode (o.follow c t).statusword = .operationEnabled) : NoRoom c t := by
  induction ha generalizing o with
  | exhausted => exact absurd hon hstart
  | there => cases hout
  | @noRoom left last inputs outputs e hset =>
    refine ⟨c.layout.targetTorque.put outputs 0, by simp [Enabling.attemptTrace], fun hfit => ?_⟩
    have hok := (Field.set_eq_ok_iff (v := (Drive.State.decode
      (c.layout.statuswordIn inputs)).controlword)).2 ⟨hfit, hl.wide.1, rfl⟩
    rw [hset] at hok
    cases hok
  | again inputs outputs answer _ hnext _ ih =>
    rw [Observed.follow_append, Observed.follow_cons] at hon
    obtain ⟨image, hmem, hfit⟩ := ih hout (by
      simpa [Enabling.attemptTrace, Drive.State.next_eq_none_iff] using hnext) hon
    exact ⟨image, List.mem_append_right _ (List.mem_cons_of_mem _ hmem), hfit⟩

/-- Operation enabled is reported anew by a good cycle, or by a sequence that
could not write the control word, if no sequence succeeds. -/
theorem Move.reported (hl : c.layout.Sound) (hm : Move c p x p') (hx : ¬ x.Succeeded)
    (hoff : Drive.State.decode o.statusword ≠ .operationEnabled)
    (hon : Drive.State.decode (o.follow c x.trace).statusword = .operationEnabled) :
    (x.act = .cycle true ∧ reported c [x] = .operationEnabled) ∨ x.Failed ∧ NoRoom c x.trace := by
  by_cases hcycle : x.IsCycle
  · obtain ⟨good, hact⟩ := hcycle
    cases hm with
    | @cycle t good s hidle ht =>
      have hseen := (runs_cycle ht).seen (o := o)
      cases good with
      | false => exact absurd (hseen.2.1 ▸ hon) hoff
      | true =>
        -- the drive state remembered does not depend on what was seen before
        refine .inl ⟨rfl, ?_⟩
        unfold Cyclic.reported
        rw [events_singleton]
        exact ((runs_cycle ht).seen (o := {})).1.symm.trans (hseen.1.trans hon)
    | wait | poll | enabling | watch | stop => cases hact
  · by_cases hseq : x.IsEnabling
    · obtain ⟨-, out, hact, -, ha⟩ := hm.attempts hseq
      cases hout : out.enabled with
      | true => exact absurd ⟨out, hact, hout⟩ hx
      | false => exact .inr ⟨⟨out, hact, hout⟩, attempts_failed hl ha hout hoff hon⟩
    · rw [hm.statusword hcycle hseq] at hon
      exact absurd hon hoff

/-- The same for several stretches. -/
theorem reported_cases {stretches : List Stretch} (hl : c.layout.Sound)
    (hall : ∀ y ∈ stretches, (∃ q q', Move c q y q') ∧ ¬ y.Succeeded)
    (hoff : Drive.State.decode o.statusword ≠ .operationEnabled)
    (hon : Drive.State.decode (o.follow c (events stretches)).statusword = .operationEnabled) :
    ∃ y ∈ stretches, (y.act = .cycle true ∧ reported c [y] = .operationEnabled)
      ∨ y.Failed ∧ NoRoom c y.trace := by
  induction stretches generalizing o with
  | nil => exact absurd hon hoff
  | cons y rest ih =>
    obtain ⟨⟨⟨q, q', hm⟩, hy⟩, hrest⟩ := List.forall_mem_cons.1 hall
    by_cases hnow : Drive.State.decode (o.follow c y.trace).statusword = .operationEnabled
    · exact ⟨y, List.mem_cons_self, hm.reported hl hy hoff hnow⟩
    · rw [show events (y :: rest) = y.trace ++ events rest from rfl, Observed.follow_append] at hon
      obtain ⟨z, hz, hcause⟩ := ih hrest hnow hon
      exact ⟨z, List.mem_cons_of_mem _ hz, hcause⟩

/-- Nothing that was read before a failed sequence matters for the state reported
after it, if the sequence had an attempt at all. -/
theorem reported_of_failed (before between : List Stretch)
    (hm : Move c p failed p') (hf : failed.Failed) (hattempts : c.timing.enableAttempts ≠ 0) :
    reported c (before ++ failed :: between) = reported c (failed :: between) := by
  obtain ⟨out, hact, -⟩ := hf
  obtain ⟨-, _, -, -, ha⟩ := hm.attempts ⟨out, hact⟩
  have hleft : c.timing.enableAttempts.toNat ≠ 0 := by
    intro h
    exact hattempts (UInt32.toNat_inj.1 h)
  unfold reported
  rw [events_append, show events (failed :: between) = failed.trace ++ events between from rfl,
    observe_append, observe_append, Observed.follow_append]
  rw [follow_statusword_congr (attempts_statusword ha hleft)]
  rfl

/-- Outputs that carry a torque carry none only if it is zero, or not sent. -/
theorem Carries.zero_iff {torque : Int16} (hc : Carries c o torque) :
    Carries c o 0 ↔ ¬ (torque ≠ 0
      ∧ ∃ outputs, o.outputs = some outputs ∧ c.layout.targetTorque.Fits outputs.length) := by
  obtain ⟨outputs, ho, hget⟩ := hc
  constructor
  · intro h h'
    obtain ⟨outputs', ho', hzero⟩ := h
    obtain ⟨hne, outputs'', ho'', hfit⟩ := h'
    cases ho.symm.trans ho'
    cases ho.symm.trans ho''
    exact hne (Except.ok.inj ((hget hfit).symm.trans (hzero hfit)))
  · intro hno
    refine ⟨outputs, ho, fun hfit => ?_⟩
    by_cases hzero : torque = 0
    · rw [← hzero]
      exact hget hfit
    · exact absurd ⟨hzero, outputs, ho, hfit⟩ hno

/-- What the exchange of a step carries is a torque only in operation enabled. -/
theorem Carries.commanded_zero_iff {drive : Drive.State} {setpoint : Single}
    (hc : Carries c o (commandedTorque drive setpoint)) :
    Carries c o 0 ↔ ¬ (drive = .operationEnabled ∧ (setpoint.mul .thousand).toInt16 ≠ 0
      ∧ ∃ outputs, o.outputs = some outputs ∧ c.layout.targetTorque.Fits outputs.length) := by
  unfold commandedTorque at hc
  by_cases hon : drive = .operationEnabled
  · rw [if_pos hon] at hc
    rw [hc.zero_iff, and_iff_right hon]
  · rw [if_neg hon] at hc
    exact ⟨fun _ h => hon h.1, fun _ => hc⟩

/-- Who reports operation enabled since a sequence failed, while none succeeds. -/
theorem reported_since_failed (hl : c.layout.Sound)
    (hmoves : ∀ y ∈ failed :: between, ∃ q q', Move c q y q') (hf : failed.Failed)
    (hno : ∀ y ∈ between, ¬ y.Succeeded)
    (hon : reported c (failed :: between) = .operationEnabled) :
    ∃ y ∈ failed :: between, (y.act = .cycle true ∧ reported c [y] = .operationEnabled)
      ∨ y.Failed ∧ NoRoom c y.trace := by
  have hzero : Drive.State.decode (Observed.statusword {}) ≠ .operationEnabled := by decide
  refine reported_cases hl (fun y hy => ⟨hmoves y hy, ?_⟩) hzero hon
  rcases List.mem_cons.1 hy with rfl | hy
  · exact hf.not_succeeded
  · exact hno y hy

/-- What an exchange carries behind a failed sequence depends on the drive state that was
reported since the failure. -/
theorem carries_since_failed (hattempts : c.timing.enableAttempts ≠ 0) (hl : c.layout.Sound)
    (hs : Session c log p)
    (hat : At log (before ++ failed :: between) x pre ⟨.bus .exchange, answer⟩)
    (hf : failed.Failed) :
    let seen := observe c (events (before ++ failed :: between) ++ pre)
    Carries c seen 0 ↔ ¬ (x.IsCycle ∧ reported c (failed :: between) = .operationEnabled
      ∧ ∃ setpoint outputs, setpoints pre = [setpoint] ∧ (setpoint.mul .thousand).toInt16 ≠ 0
        ∧ seen.outputs = some outputs ∧ c.layout.targetTorque.Fits outputs.length) := by
  intro seen
  obtain ⟨hother, hcycle⟩ := carried hl hs hat
  by_cases hx : x.IsCycle
  · obtain ⟨-, setpoint, hset, hcarries⟩ := hcycle hx
    obtain ⟨after, post, hlog, -⟩ := hat
    have hmem : failed ∈ log := by
      rw [hlog]
      exact List.mem_append_left _ (List.mem_append_right _ List.mem_cons_self)
    obtain ⟨q, q', hm⟩ := hs.move_of_mem hmem
    have hword := reported_of_failed before between hm hf hattempts
    rw [show Drive.State.decode _ = reported c (failed :: between) from hword] at hcarries
    rw [hcarries.commanded_zero_iff]
    apply not_congr
    constructor
    · intro h
      obtain ⟨hon, hne, outputs, ho, hfit⟩ := h
      exact ⟨hx, hon, setpoint, outputs, hset, hne, ho, hfit⟩
    · intro h
      obtain ⟨-, hon, setpoint', outputs, hset', hne, ho, hfit⟩ := h
      rw [hset] at hset'
      cases hset'
      exact ⟨hon, hne, outputs, ho, hfit⟩
  · exact ⟨fun _ h => hx h.1, fun _ => hother hx⟩

/-- An enabling sequence failed, and no other one has succeeded since: an
exchange carries a torque all the same if it is that of a step, the setpoint asks
for one, and operation enabled was the last state reported since the failure. It
was then reported by a good cycle, or by a sequence whose image has no room for
the control word. -/
theorem torque_after_failure (config : Config)
    (hv : config.validate = .ok ()) (htiming : c.timing = config.timing) (hl : c.layout.Sound)
    (hs : Session c log p)
    (hat : At log (before ++ failed :: between) x pre ⟨.bus .exchange, answer⟩)
    (hf : failed.Failed) (hno : ∀ y ∈ between, ¬ y.Succeeded) :
    let seen := observe c (events (before ++ failed :: between) ++ pre)
    (Carries c seen 0 ↔ ¬ (x.IsCycle ∧ reported c (failed :: between) = .operationEnabled
      ∧ ∃ setpoint outputs, setpoints pre = [setpoint] ∧ (setpoint.mul .thousand).toInt16 ≠ 0
        ∧ seen.outputs = some outputs ∧ c.layout.targetTorque.Fits outputs.length))
      ∧ (reported c (failed :: between) = .operationEnabled → ∃ y ∈ failed :: between,
        (y.act = .cycle true ∧ reported c [y] = .operationEnabled)
          ∨ y.Failed ∧ NoRoom c y.trace) := by
  intro seen
  have hattempts : c.timing.enableAttempts ≠ 0 := htiming ▸ Config.enableAttempts_ne_zero hv
  refine ⟨carries_since_failed hattempts hl hs hat hf, ?_⟩
  obtain ⟨after, post, hlog, -⟩ := hat
  have hmoves : ∀ y ∈ failed :: between, ∃ q q', Move c q y q' := by
    intro y hy
    apply hs.move_of_mem
    rw [hlog]
    exact List.mem_append_left _ (List.mem_append_right _ hy)
  exact reported_since_failed hl hmoves hf hno

/-- The sample session, with every exchange answered as expected: once the failed
sequence has left its last command in the outputs, a cycle reports operation
enabled, and the exchange after it carries a torque. -/
theorem torque_after_failure_released :
    ¬ Carries sample
      (observe sample (events ((sampleLog (.ok 3)).take 3)
        ++ (sampleCycle (sampleFailed.read 0x27) 0x27).trace.take 4)) 0 := by
  have hat : At (sampleLog (.ok 3))
      ([sampleCycle {} 0x21] ++ sampleFailure (.ok 3) :: [sampleCycle sampleFailed 0x27])
      (sampleCycle (sampleFailed.read 0x27) 0x27)
      ((sampleCycle (sampleFailed.read 0x27) 0x27).trace.take 4) ⟨.bus .exchange, .ok 3⟩ :=
    ⟨[], _, rfl, rfl⟩
  have hno : ∀ y ∈ [sampleCycle sampleFailed 0x27], ¬ y.Succeeded := by
    intro y hy h
    obtain ⟨out, hact, -⟩ := h
    rw [List.mem_singleton.1 hy] at hact
    cases hact
  have hexact := (torque_after_failure sampleConfig rfl rfl Layout.standard_sound
    (sample_session (.ok 3)) hat ⟨_, rfl, rfl⟩ hno).1
  intro hzero
  exact hexact.1 hzero ⟨⟨true, rfl⟩, rfl, _, _, rfl, by decide, rfl, by decide⟩

-- ========================================================= the programs

/-- The first exchange of a step is that of its cycle. -/
theorem Session.at_first {good : Bool} (hs : Session c log { state := s })
    (hstep : Runs (Cyclic.step c s) (pre ++ ⟨.bus .exchange, answer⟩ :: post) (good, s'))
    (hfirst : exchanges pre = []) :
    ∃ u rest, Session c (log ++ ⟨.cycle good, u⟩ :: rest) { state := s' }
      ∧ At (log ++ ⟨.cycle good, u⟩ :: rest) log ⟨.cycle good, u⟩ pre
        ⟨.bus .exchange, answer⟩ := by
  obtain ⟨u, rest, hs', hevents, -⟩ := hs.stepped hstep
  refine ⟨u, rest, hs', ?_⟩
  obtain ⟨q, q', -, hm⟩ := hs'.split rfl
  obtain ⟨good', hc⟩ := hm.cycled ⟨good, rfl⟩
  obtain ⟨own, hown, -⟩ := hc.publications
  rcases List.append_eq_append_iff.1 hevents with ⟨w, hpre, -⟩ | ⟨w, hu, hw⟩
  · rw [hpre, exchanges_append, hown] at hfirst
    cases hfirst
  · cases w with
    | nil =>
      rw [show u = pre from hu.trans (List.append_nil _), hfirst] at hown
      cases hown
    | cons e w =>
      obtain ⟨rfl, -⟩ := List.cons.inj hw
      exact ⟨rest, w, rfl, hu⟩

/-- A step after a failed sequence carries a torque by its own exchange exactly if the
setpoint that it takes asks for one, and operation enabled is what was reported last. -/
theorem step_after_failure {good : Bool} (hattempts : c.timing.enableAttempts ≠ 0)
    (hl : c.layout.Sound) (hs : Session c (before ++ failed :: between) { state := s })
    (hf : failed.Failed)
    (hstep : Runs (step c s) (pre ++ ⟨.bus .exchange, answer⟩ :: post) (good, s'))
    (hfirst : exchanges pre = []) :
    let seen := observe c (events (before ++ failed :: between) ++ pre)
    Carries c seen 0 ↔ ¬ (reported c (failed :: between) = .operationEnabled
      ∧ ∃ setpoint outputs, setpoints pre = [setpoint] ∧ (setpoint.mul .thousand).toInt16 ≠ 0
        ∧ seen.outputs = some outputs ∧ c.layout.targetTorque.Fits outputs.length) := by
  intro seen
  obtain ⟨u, rest, hs', hat⟩ := hs.at_first hstep hfirst
  have hcycle : Stretch.IsCycle ⟨.cycle good, u⟩ := ⟨good, rfl⟩
  exact Iff.trans (carries_since_failed hattempts hl hs' hat hf)
    (not_congr (and_iff_right hcycle))

/-- Every run of the whole program is a session, whose exchanges carry a torque after a
failed sequence on that condition. -/
theorem run_after_failure {bound : Nat} {r : Option State}
    (hattempts : c.timing.enableAttempts ≠ 0) (hl : c.layout.Sound)
    (hrun : Runs (run c bound {}) t r) :
    ∃ log p, Session c log p ∧ events log = t
      ∧ ∀ before failed between x pre answer,
        At log (before ++ failed :: between) x pre ⟨.bus .exchange, answer⟩ → failed.Failed →
        let seen := observe c (events (before ++ failed :: between) ++ pre)
        (Carries c seen 0 ↔ ¬ (x.IsCycle ∧ reported c (failed :: between) = .operationEnabled
          ∧ ∃ setpoint outputs, setpoints pre = [setpoint]
            ∧ (setpoint.mul .thousand).toInt16 ≠ 0 ∧ seen.outputs = some outputs
            ∧ c.layout.targetTorque.Fits outputs.length)) := by
  obtain ⟨log, p, hs, hevents⟩ := Session.run hrun
  refine ⟨log, p, hs, hevents, ?_⟩
  intro before failed between x pre answer hat hf
  exact carries_since_failed hattempts hl hs hat hf

-- ================================================================ never

/-- After a failed sequence no exchange carries a torque until a sequence
succeeds. -/
def StaysOff (c : Settings) (log : List Stretch) : Prop :=
  ∀ before failed between x pre answer,
    At log (before ++ failed :: between) x pre ⟨.bus .exchange, answer⟩ → failed.Failed →
    (∀ y ∈ between, ¬ y.Succeeded) →
    Carries c (observe c (events (before ++ failed :: between) ++ pre)) 0

/-- Not every session of an accepted configuration stays off. -/
theorem not_staysOff : ¬ ∀ (config : Config) (c : Settings) (log : List Stretch) (p : Point),
    config.validate = .ok () → c.timing = config.timing → c.layout.Sound → Session c log p →
    StaysOff c log := by
  intro h
  have hoff := h sampleConfig sample (sampleLog (.ok 3)) _ rfl rfl Layout.standard_sound
    (sample_session (.ok 3)) [sampleCycle {} 0x21] (sampleFailure (.ok 3))
    [sampleCycle sampleFailed 0x27] (sampleCycle (sampleFailed.read 0x27) 0x27)
    ((sampleCycle (sampleFailed.read 0x27) 0x27).trace.take 4) (.ok 3) ⟨[], _, rfl, rfl⟩
    ⟨_, rfl, rfl⟩
  obtain ⟨outputs, houtputs, hget⟩ := hoff (by
    intro y hy h
    obtain ⟨out, hact, -⟩ := h
    rw [List.mem_singleton.1 hy] at hact
    cases hact)
  obtain rfl : _ = outputs := Option.some.inj houtputs
  have hcarried : sample.layout.targetTorque.get ((sampleFailed.read 0x27).commanded sample
      ⟨0x3e800000⟩ (List.replicate 9 0)) = .ok 250 := rfl
  have hzero : (250 : Int16) = 0 := Except.ok.inj (hcarried.symm.trans (hget (by decide)))
  exact absurd hzero (by decide)

end Servo.Cyclic
