/-
Which exchange a drive state was received by.

A step looks at the working counter of its exchange before it decodes anything.
The enabling sequence exchanges as well, and never looks: an attempt decodes the
inputs that the exchange before it left behind, whatever its answer was. So a
drive state can be published, and remembered, that came with an exchange which
failed or reached too few slaves.

# What is asked, and of whom

`TrustsGood` is the law that the program does not keep: every new drive state
comes with a good exchange, and so do the enabled flag and a torque. It is asked
of a whole log. `trustsGood_iff` reduces it to the one place where it can go
wrong, the inputs that an enabling sequence receives by its own exchanges
(`OwnExchangesGood`). All the rest is kept: a cycle, a sequence that looks at the
inputs of the cycle before it, and everything that is derived from a drive state.
`step_good_or_attempted` and `run_good_or_attempted` say it of the bare traces of the
programs.

# Where nothing is expected

A step counts a failed exchange as one that reached no slave. An expected working
counter of zero is reached by that, and then no exchange is ever checked.
-/
import Servo.Proofs.Cyclic.Interlock
import Servo.Proofs.Cyclic.Steps

namespace Servo.Cyclic

open Program

variable {c : Settings} {o o' : Observed} {s : State} {log before after : List Stretch}
  {p p' : Point} {x : Stretch} {t u pre post h : Trace} {e : Event}
  {answer : Except Bus.Fault UInt16} {a : Option (Except Bus.Fault UInt16)}

-- ======================================================== good exchanges

/-- An exchange that was answered, with as many slaves as expected. -/
def Good (c : Settings) (a : Option (Except Bus.Fault UInt16)) : Prop :=
  ∃ wkc, a = some (.ok wkc) ∧ c.expectedWkc ≤ wkc

/-- What counts as enough is good, if anything is expected. -/
theorem good_of_counted (hcount : c.expectedWkc ≤ counted answer) (hexpect : c.expectedWkc ≠ 0) :
    Good c (some answer) := by
  cases answer with
  | ok wkc => exact ⟨wkc, rfl, hcount⟩
  | error fault => exact absurd (UInt16.le_zero_iff.1 hcount) hexpect

/-- The event publishes another drive state than the one before. -/
def Changes (c : Settings) (o : Observed) (e : Event) : Prop :=
  (o.after c e).telemetry.drive ≠ o.telemetry.drive

theorem Quiet.not_changes (hq : Quiet e) : ¬ Changes c o e := fun hc => hc hq.after.2

-- ============================================================== the law

/-- New drive states come with good exchanges, and so does what follows from
them. -/
structure TrustsGood (c : Settings) (log : List Stretch) : Prop where
  published : ∀ before x pre e, At log before x pre e →
    Changes c (observe c (events before ++ pre)) e →
    Good c (observe c (events before ++ pre)).source
  /-- The same for the state that is remembered from one stretch to the next. -/
  cached : ∀ before x after q q', log = before ++ x :: after → Session c before q →
    Move c q x q' → q'.state.drive ≠ q.state.drive →
    Good c (observe c (events before ++ x.trace)).source
  /-- The flag is raised for a drive state that came with a good exchange. -/
  enabled : ∀ before x pre e, At log before x pre e →
    (observe c (events before ++ pre)).telemetry.enabled = false →
    (observe c (events before ++ pre ++ [e])).telemetry.enabled = true →
    Good c (observe c (events before ++ pre ++ [e])).origin
  /-- A torque is commanded for a drive state that came with a good exchange. -/
  commanded : ∀ before after q setpoint, log = before ++ after → Session c before q →
    commandedTorque q.state.drive setpoint ≠ 0 → Good c (observe c (events before)).origin

/-- The new drive states of one stretch come with good exchanges, where they come
with one that was made since `h` began. -/
def GoodSince (c : Settings) (before : List Stretch) (x : Stretch) (h : Trace) : Prop :=
  (∀ pre e post, x.trace = pre ++ e :: post → Changes c (observe c (events before ++ pre)) e →
      (observe c (h ++ pre)).source = none ∨ Good c (observe c (h ++ pre)).source)
    ∧ (Drive.State.decode (observe c (events before ++ x.trace)).statusword
        ≠ .decode (observe c (events before)).statusword →
      (observe c (h ++ x.trace)).source = none ∨ Good c (observe c (h ++ x.trace)).source)

-- ============================================= where inputs come from

/-- After an exchange whose inputs were read, the inputs are those of a later
exchange, or still those of that one. -/
theorem follow_source (hex : o.exchange = o'.exchange.or a) (hsrc : o.source = o'.source.or a) :
    (o.follow c t).source = (o'.follow c t).source.or a := by
  induction t generalizing o o' with
  | nil => exact hsrc
  | cons e t ih =>
    apply ih
    · unfold Observed.after
      split
      · split <;> exact hex
      · split <;> exact hex
      · rfl
      all_goals exact hex
    · unfold Observed.after
      split
      · split <;> exact hsrc
      · split
        · exact hex
        · exact hsrc
      all_goals exact hsrc

/-- A new state that a cycle publishes is from its own exchange, which was enough. -/
theorem Cycled.changes {r : Bool × State} (hc : Cycled c s t r) (ht : t = pre ++ e :: post)
    (hchange : Changes c (o.follow c pre) e) :
    ∃ answer, (o.follow c pre).source = some answer ∧ c.expectedWkc ≤ counted answer := by
  have hall : Always (fun pre e => Changes c (o.follow c pre) e →
      ∃ answer, (o.follow c pre).source = some answer ∧ c.expectedWkc ≤ counted answer) [] t := by
    cases hc with
    | degraded => simp [sendTrace, Changes, Telemetry.publish]
    | good again setpoint outputs answer inputs hgood hclock =>
      have hnow := (runs_updateVelocity hclock).1
      rw [List.append_assoc, List.cons_append]
      refine always_append.2 ⟨by simp [sendTrace, Changes], always_cons.2 ⟨by simp [Changes], ?_⟩⟩
      refine always_append.2 ⟨always_of_forall ?_, always_cons.2 ⟨fun _ => ⟨answer, ?_, hgood⟩, ?_⟩⟩
      · intro e he h hch
        obtain ⟨now, rfl⟩ := hnow e he
        exact absurd rfl hch
      · rw [Observed.follow_append, Observed.follow_append, Observed.follow_clock hnow]
        simp [sendTrace]
      · exact always_nil
  rw [ht] at hall
  exact hall.at_split hchange

/-- A stretch that is neither a cycle nor an enabling sequence publishes no new
state. -/
theorem Move.not_changes (hm : Move c p x p') (hcycle : ¬ x.IsCycle) (hseq : ¬ x.IsEnabling)
    (ht : x.trace = pre ++ e :: post) : ¬ Changes c (o.follow c pre) e := by
  have hall : Always (fun pre e => ¬ Changes c (o.follow c pre) e) [] x.trace := by
    by_cases hstop : x.act = .stop
    · cases hm with
      | stop _ hrun =>
        obtain ⟨-, outputs, answer, rfl⟩ := runs_stop hrun
        simp [stopTrace, Changes, Telemetry.publish]
      | wait | poll | cycle | enabling | watch => cases hstop
    · exact always_of_forall fun e he _ => (hm.quiet hcycle hseq hstop e he).not_changes
  rw [ht] at hall
  exact hall.at_split

/-- A sequence begins with the inputs of a good cycle, and goes on with those of
its own exchanges. -/
theorem Tracked.sequence_source (h : Tracked c o p) (hdue : p.enablingDue = true) :
    ∃ answer, c.expectedWkc ≤ counted answer
      ∧ ∀ t, (o.follow c t).source = (observe c t).source.or (some answer) := by
  obtain ⟨answer, hex, hsrc, hcount⟩ := h.due hdue
  refine ⟨answer, hcount, fun t => follow_source ?_ ?_⟩
  · rw [hex]
    rfl
  · rw [hsrc]
    rfl

/-- The inputs were received by an exchange of the sequence itself, or by one that
was enough. -/
def Sourced (c : Settings) (o : Observed) (x : Stretch) (pre : Trace) : Prop :=
  ∃ answer, (o.follow c pre).source = some answer
    ∧ ((x.IsEnabling ∧ (observe c pre).source = some answer) ∨ c.expectedWkc ≤ counted answer)

/-- Whatever a sequence looks at was received by itself, or by the good cycle before it. -/
theorem Tracked.sourced_sequence (h : Tracked c o p) (hm : Move c p x p') (hx : x.IsEnabling)
    (pre : Trace) : Sourced c o x pre := by
  obtain ⟨answer, hcount, hsource⟩ := h.sequence_source (hm.attempts hx).1
  cases hown : (observe c pre).source with
  | none => exact ⟨answer, by rw [hsource, hown]; rfl, .inr hcount⟩
  | some own => exact ⟨own, by rw [hsource, hown]; rfl, .inl ⟨hx, hown⟩⟩

/-- The inputs behind a state that is published as a new one. -/
theorem Tracked.sourced_change (h : Tracked c o p) (hm : Move c p x p')
    (ht : x.trace = pre ++ e :: post) (hchange : Changes c (o.follow c pre) e) :
    Sourced c o x pre := by
  by_cases hcycle : x.IsCycle
  · obtain ⟨good, hc⟩ := hm.cycled hcycle
    obtain ⟨answer, hsource, hcount⟩ := hc.changes ht hchange
    exact ⟨answer, hsource, .inr hcount⟩
  · by_cases hseq : x.IsEnabling
    · exact h.sourced_sequence hm hseq pre
    · exact absurd hchange (hm.not_changes hcycle hseq ht)

/-- The inputs behind a state that is remembered as a new one. -/
theorem Tracked.sourced_end (h : Tracked c o p) (hm : Move c p x p')
    (hnew : Drive.State.decode (o.follow c x.trace).statusword ≠ .decode o.statusword) :
    Sourced c o x x.trace := by
  by_cases hcycle : x.IsCycle
  · obtain ⟨good, hc⟩ := hm.cycled hcycle
    have hseen := hc.seen (o := o)
    cases good with
    | false => exact absurd (congrArg Drive.State.decode hseen.2.1) hnew
    | true =>
      obtain ⟨-, -, answer, -, hsource, hcount⟩ := hseen
      exact ⟨answer, hsource, .inr hcount⟩
  · by_cases hseq : x.IsEnabling
    · exact h.sourced_sequence hm hseq x.trace
    · exact absurd (congrArg Drive.State.decode (hm.statusword hcycle hseq)) hnew

/-- A new state comes with a good exchange, or an attempt of a sequence publishes it. -/
theorem Session.good_or_attempted (hs : Session c log p) (hexpect : c.expectedWkc ≠ 0)
    (hevents : events log = u ++ e :: post) (hchange : Changes c (observe c u) e) :
    Good c (observe c u).source ∨ ∃ statusword, e = ⟨.publish (.answering statusword), ()⟩ := by
  obtain ⟨before, x, pre, ⟨after, post', hlog, ht⟩, rfl⟩ := exists_at hevents
  obtain ⟨q, q', hq, hm⟩ := hs.split hlog
  rw [observe_append] at hchange ⊢
  obtain ⟨answer, hsource, hfrom⟩ := (tracked_of_session hq).sourced_change hm ht hchange
  rcases hfrom with ⟨hx, -⟩ | hcount
  · obtain ⟨-, out, -, -, ha⟩ := hm.attempts hx
    rcases Observed.after_cases ((observe c (events before)).follow c pre) e with
      ⟨hsame, -⟩ | ⟨q, rfl⟩
    · exact absurd (congrArg Telemetry.drive hsame) hchange
    · have hmem : q ∈ publications x.trace := by
        rw [ht, publications_append]
        exact List.mem_append_right _ List.mem_cons_self
      obtain ⟨statusword, rfl⟩ := attempts_publications ha q hmem
      exact .inr ⟨statusword, rfl⟩
  · rw [hsource]
    exact .inl (good_of_counted hcount hexpect)

/-- So it is with every new state that a step publishes. -/
theorem step_good_or_attempted {s' : State} {good : Bool} (hexpect : c.expectedWkc ≠ 0)
    (hs : Session c log { state := s })
    (hstep : Runs (step c s) (pre ++ e :: post) (good, s'))
    (hchange : Changes c (observe c (events log ++ pre)) e) :
    Good c (observe c (events log ++ pre)).source
      ∨ ∃ statusword, e = ⟨.publish (.answering statusword), ()⟩ := by
  obtain ⟨log', hs', hevents⟩ := hs.step hstep
  have hall : events (log ++ log') = events log ++ pre ++ e :: post := by
    rw [events_append, hevents, List.append_assoc]
  exact hs'.good_or_attempted hexpect hall hchange

/-- So it is with every new state that the whole program publishes. -/
theorem run_good_or_attempted {bound : Nat} {r : Option State} (hexpect : c.expectedWkc ≠ 0)
    (hrun : Runs (run c bound {}) (pre ++ e :: post) r) (hchange : Changes c (observe c pre) e) :
    Good c (observe c pre).source ∨ ∃ statusword, e = ⟨.publish (.answering statusword), ()⟩ := by
  obtain ⟨log, p, hs, hevents⟩ := Session.run hrun
  exact hs.good_or_attempted hexpect hevents hchange

-- =================================================== what follows from it

/-- While every new state comes with a good exchange, the state published is the
first one or came with a good exchange. -/
theorem good_origin (ht : ∀ pre e post, t = pre ++ e :: post → Changes c (o.follow c pre) e →
      Good c (o.follow c pre).source)
    (ho : o.telemetry.drive = .notReady ∨ Good c o.origin) :
    (o.follow c t).telemetry.drive = .notReady ∨ Good c (o.follow c t).origin := by
  induction t generalizing o with
  | nil => exact ho
  | cons e t ih =>
    apply ih
    · intro pre e' post hsplit
      rw [← Observed.follow_cons]
      exact ht (e :: pre) e' post (by rw [hsplit]; rfl)
    · rcases o.after_cases e with ⟨htel, horigin⟩ | ⟨p, rfl⟩
      · rw [htel, horigin]
        exact ho
      · by_cases hsame : (o.telemetry.publish p).drive = o.telemetry.drive
        · rw [Observed.after_publish, if_pos hsame, hsame]
          exact ho
        · rw [Observed.after_publish, if_neg hsame]
          exact .inr (ht [] _ t rfl hsame)

/-- The flag is raised with operation enabled, by the same publication. -/
theorem drive_of_enabled (hdecoded : ∀ q, e = ⟨.publish q, ()⟩ → Decoded q)
    (hoff : o.telemetry.enabled = false) (hon : (o.after c e).telemetry.enabled = true) :
    (o.after c e).telemetry.drive = .operationEnabled := by
  rcases o.after_cases e with ⟨htel, -⟩ | ⟨p, rfl⟩
  · rw [htel, hoff] at hon
    cases hon
  · have hp := hdecoded p rfl
    cases p with
    | attempted statusword =>
      rw [show Publication.attempted statusword .. = .answering statusword from hp] at hon ⊢
      exact Drive.State.next_eq_none_iff.1 (Option.isNone_iff_eq_none.1 hon)
    | stopped => cases hon
    | started | received | degraded | watched => cases hon.symm.trans hoff

/-- Only a drive in operation enabled is sent a torque. -/
theorem operationEnabled_of_commanded {drive : Drive.State} {setpoint : Single}
    (h : commandedTorque drive setpoint ≠ 0) : drive = .operationEnabled := by
  unfold commandedTorque at h
  split at h
  next hdrive => exact hdrive
  next => exact absurd rfl h

/-- The published drive states of a log come with good exchanges when they are new. -/
def PublishesGood (c : Settings) (log : List Stretch) : Prop :=
  ∀ before x pre e, At log before x pre e → Changes c (observe c (events before ++ pre)) e →
    Good c (observe c (events before ++ pre)).source

/-- The drive state that is published, and its origin, anywhere in such a log. -/
theorem PublishesGood.origin {u v : Trace} (hpub : PublishesGood c log)
    (huv : events log = u ++ v) :
    (observe c u).telemetry.drive = .notReady ∨ Good c (observe c u).origin := by
  refine good_origin (o := {}) ?_ (.inl rfl)
  intro pre e post hu hchange
  subst hu
  rw [List.append_assoc, List.cons_append] at huv
  obtain ⟨before, x, pre', hat, rfl⟩ := exists_at huv
  exact hpub before x pre' e hat hchange

/-- The flag has the origin of the state that it is raised with. -/
theorem PublishesGood.enabled (hpub : PublishesGood c log) (hs : Session c log p)
    (hat : At log before x pre e)
    (hoff : (observe c (events before ++ pre)).telemetry.enabled = false)
    (hon : (observe c (events before ++ pre ++ [e])).telemetry.enabled = true) :
    Good c (observe c (events before ++ pre ++ [e])).origin := by
  obtain ⟨after, post, rfl, ht⟩ := hat
  obtain ⟨q, q', -, hm⟩ := hs.split rfl
  have hdecoded (r : Publication) (he : e = ⟨.publish r, ()⟩) : Decoded r := by
    refine hm.decoded r ?_
    rw [ht, he, publications_append]
    exact List.mem_append_right _ List.mem_cons_self
  have hsplit : events (before ++ x :: after)
      = (events before ++ pre ++ [e]) ++ (post ++ events after) := by
    rw [events_append, show events (x :: after) = x.trace ++ events after from rfl, ht]
    simp
  rcases hpub.origin hsplit with hnot | hgood
  · rw [observe_append] at hon hnot
    cases (drive_of_enabled hdecoded hoff hon).symm.trans hnot
  · exact hgood

/-- A torque has the origin of the state that lets it through. -/
theorem PublishesGood.commanded {setpoint : Single} (hpub : PublishesGood c (before ++ after))
    (hs : Session c before p) (hne : commandedTorque p.state.drive setpoint ≠ 0) :
    Good c (observe c (events before)).origin := by
  have htracked := tracked_of_session hs
  rcases hpub.origin (events_append before after) with hnot | hgood
  · rw [htracked.published, ← htracked.cached, operationEnabled_of_commanded hne] at hnot
    cases hnot
  · exact hgood

-- ================================================= the exact condition

/-- The enabling sequences of a log keep the law with the inputs of their own
exchanges; and all stretches do with any inputs, if nothing is expected. -/
def OwnExchangesGood (c : Settings) (log : List Stretch) : Prop :=
  ∀ before x after, log = before ++ x :: after →
    (x.IsEnabling → GoodSince c before x [])
      ∧ (c.expectedWkc = 0 → GoodSince c before x (events before))

/-- Inputs are good if they are where they may have come from. -/
theorem Sourced.good (hs : Sourced c o x pre)
    (hown : x.IsEnabling → (observe c pre).source = none ∨ Good c (observe c pre).source)
    (hzero : c.expectedWkc = 0 → (o.follow c pre).source = none ∨ Good c (o.follow c pre).source) :
    Good c (o.follow c pre).source := by
  obtain ⟨answer, hsource, hfrom⟩ := hs
  by_cases hexpect : c.expectedWkc = 0
  · rcases hzero hexpect with hnone | hgood
    · cases hnone.symm.trans hsource
    · exact hgood
  · rw [hsource]
    rcases hfrom with ⟨hx, hlocal⟩ | hcount
    · rw [hlocal] at hown
      rcases hown hx with hnone | hgood
      · cases hnone
      · exact hgood
    · exact good_of_counted hcount hexpect

/-- If the sequences do their part, every state that is published as a new one is good. -/
theorem OwnExchangesGood.published (hown : OwnExchangesGood c log) (hs : Session c log p) :
    PublishesGood c log := by
  intro before x pre e hat hchange
  obtain ⟨after, post, hlog, ht⟩ := hat
  obtain ⟨q, q', hq, hm⟩ := hs.split hlog
  obtain ⟨hseq, hzero⟩ := hown before x after hlog
  have hsourced := (tracked_of_session hq).sourced_change hm ht (observe_append ▸ hchange)
  rw [observe_append]
  refine hsourced.good (fun hx => (hseq hx).1 pre e post ht hchange) fun hz => ?_
  rw [← observe_append]
  exact (hzero hz).1 pre e post ht hchange

/-- So is every state that is remembered as a new one. -/
theorem OwnExchangesGood.cached {q q' : Point} (hown : OwnExchangesGood c log)
    (hlog : log = before ++ x :: after) (hq : Session c before q) (hm : Move c q x q')
    (hnew : q'.state.drive ≠ q.state.drive) :
    Good c (observe c (events before ++ x.trace)).source := by
  obtain ⟨hseq, hzero⟩ := hown before x after hlog
  have htracked := tracked_of_session hq
  rw [(htracked.move hm).cached, htracked.cached] at hnew
  have hend := hnew
  rw [← observe_append] at hend
  rw [observe_append]
  refine (htracked.sourced_end hm hnew).good (fun hx => (hseq hx).2 hend) fun hz => ?_
  rw [← observe_append]
  exact (hzero hz).2 hend

/-- What a sequence knows of its own inputs is what there is to know of them. -/
theorem Tracked.good_own (h : Tracked c (observe c u) p) (hdue : p.enablingDue = true)
    (hgood : Good c (observe c (u ++ t)).source) :
    (observe c t).source = none ∨ Good c (observe c t).source := by
  obtain ⟨answer, -, hsource⟩ := h.sequence_source hdue
  rw [observe_append, hsource] at hgood
  cases hown : (observe c t).source with
  | none => exact .inl rfl
  | some own =>
    rw [hown] at hgood
    exact .inr hgood

/-- The law asks of the sequences what it asks of all stretches. -/
theorem TrustsGood.ownExchangesGood (hgood : TrustsGood c log) (hs : Session c log p) :
    OwnExchangesGood c log := by
  intro before x after hlog
  obtain ⟨q, q', hq, hm⟩ := hs.split hlog
  have htracked := tracked_of_session hq
  have hpub (pre : Trace) (e : Event) (post : Trace) (ht : x.trace = pre ++ e :: post)
      (hchange : Changes c (observe c (events before ++ pre)) e) :
      Good c (observe c (events before ++ pre)).source :=
    hgood.published before x pre e ⟨after, post, hlog, ht⟩ hchange
  have hend (hnew : Drive.State.decode (observe c (events before ++ x.trace)).statusword
        ≠ .decode (observe c (events before)).statusword) :
      Good c (observe c (events before ++ x.trace)).source := by
    refine hgood.cached before x after q q' hlog hq hm ?_
    rw [(htracked.move hm).cached, htracked.cached, ← observe_append]
    exact hnew
  constructor
  · intro hx
    have hdue := (hm.attempts hx).1
    exact ⟨fun pre e post ht hchange => htracked.good_own hdue (hpub pre e post ht hchange),
      fun hnew => htracked.good_own hdue (hend hnew)⟩
  · intro _
    exact ⟨fun pre e post ht hchange => .inr (hpub pre e post ht hchange),
      fun hnew => .inr (hend hnew)⟩

/-- If the sequences do their part, the law is kept, as all other stretches keep it anyway.
-/
theorem OwnExchangesGood.trustsGood (hown : OwnExchangesGood c log) (hs : Session c log p) :
    TrustsGood c log := by
  have hpub := hown.published hs
  constructor
  · exact hpub
  · intro before x after q q' hlog hq hm hnew
    exact hown.cached hlog hq hm hnew
  · intro before x pre e hat hoff hon
    exact hpub.enabled hs hat hoff hon
  · intro before after q setpoint hlog hq hne
    subst hlog
    exact hpub.commanded hq hne

/-- The law is kept by just the sessions whose enabling sequences keep it with the
inputs of their own exchanges. -/
theorem trustsGood_iff (hs : Session c log p) : TrustsGood c log ↔ OwnExchangesGood c log := by
  constructor
  · intro hgood
    exact hgood.ownExchangesGood hs
  · intro hown
    exact hown.trustsGood hs

/-- The second attempt of the sample sequence finds the drive switched on,
whatever its exchange was answered. -/
theorem sample_changes (answer : Except Bus.Fault UInt16) :
    Changes sample
      (observe sample (events [sampleCycle {} 0x21] ++ (sampleFailure answer).trace.take 6))
      ⟨.publish (.answering 0x23), ()⟩ := by
  show Drive.State.switchedOn ≠ .readyToSwitchOn
  decide

/-- A session in which that exchange failed. -/
theorem trustsGood_iff_refuted : ¬ TrustsGood sample (sampleLog (.error (.timeout "frame"))) := by
  intro hgood
  obtain ⟨hseq, -⟩ := (trustsGood_iff (sample_session _)).1 hgood [sampleCycle {} 0x21] _ _ rfl
  obtain ⟨hpub, -⟩ := hseq ⟨_, rfl⟩
  rcases hpub ((sampleFailure _).trace.take 6) _ ((sampleFailure _).trace.drop 7) rfl
    (sample_changes _) with hnone | ⟨wkc, hsource, -⟩
  · cases hnone
  · cases hsource

/-- What a run of the whole program does is a session, which keeps the law on that
condition. -/
theorem run_trustsGood_iff {bound : Nat} {r : Option State} (hrun : Runs (run c bound {}) t r) :
    ∃ log p, Session c log p ∧ events log = t
      ∧ (TrustsGood c log ↔ OwnExchangesGood c log) := by
  obtain ⟨log, p, hs, hevents⟩ := Session.run hrun
  refine ⟨log, p, hs, hevents, ?_, ?_⟩
  · intro hgood
    exact hgood.ownExchangesGood hs
  · intro hown
    exact hown.trustsGood hs

/-- Not every session keeps the law: it is enough that the exchanges of a sequence
reach no slave. -/
theorem not_trustsGood : ¬ ∀ (c : Settings) (log : List Stretch) (p : Point),
    Session c log p → TrustsGood c log := by
  intro h
  have hat : At (sampleLog (.ok 0)) [sampleCycle {} 0x21] (sampleFailure (.ok 0))
      ((sampleFailure (.ok 0)).trace.take 6) ⟨.publish (.answering 0x23), ()⟩ :=
    ⟨_, _, rfl, rfl⟩
  obtain ⟨wkc, hsource, hwkc⟩ :=
    (h sample _ _ (sample_session _)).published _ _ _ _ hat (sample_changes _)
  cases hsource
  exact absurd hwkc (by decide)

end Servo.Cyclic
