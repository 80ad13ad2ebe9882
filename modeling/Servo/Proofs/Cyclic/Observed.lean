/-
What an onlooker of a cyclic exchange knows, from the requests and answers alone.

`observe c t` follows the slave through a trace: what its outputs hold, the
status word that was last read from its inputs, how the last exchange was
answered, and the telemetry. It also follows where a state of the drive comes
from. The inputs are those of the last exchange before they were read
(`source`), and a drive state that was published stands, until it changes, for
the exchange behind the inputs it was decoded from (`origin`).

# What the exchange remembers is what can be seen

The exchange keeps a drive state of its own, which two programs write: the
exchange of a step decodes it, the enabling sequence hands it back.
`tracked_of_session` says that neither matters to an onlooker: at every point of
every session it is the state that the last status word reports, and the one
that is published.

# Quiet events

Waiting, looking at the stop flag, looking at the clock and watching the slave
are made of events that touch none of this (`Quiet`), so that they need no
argument of their own anywhere.
-/
import Servo.Proofs.Cyclic.Session

namespace Servo.Cyclic

open Program

/-- What can be seen of an exchange. -/
structure Observed where
  /-- The outputs of the slave, once they were handed over. -/
  outputs : Option Bytes := none
  /-- The status word last read from the inputs, zero before any. -/
  statusword : UInt16 := 0
  /-- The answer to the last exchange. -/
  exchange : Option (Except Bus.Fault UInt16) := none
  /-- The exchange that brought the inputs last read. -/
  source : Option (Except Bus.Fault UInt16) := none
  /-- The exchange that brought the drive state last published as a new one. -/
  origin : Option (Except Bus.Fault UInt16) := none
  telemetry : Telemetry := {}

namespace Observed

/-- What is seen after one more event. -/
def after (c : Settings) (o : Observed) : Event → Observed
  | ⟨.bus (.setOutputs slave bytes), _⟩ =>
    if slave = c.slave then { o with outputs := some bytes } else o
  | ⟨.bus (.inputs slave), bytes⟩ =>
    if slave = c.slave then
      { o with statusword := c.layout.statuswordIn bytes, source := o.exchange }
    else o
  | ⟨.bus .exchange, answer⟩ => { o with exchange := some answer }
  | ⟨.publish publication, _⟩ =>
    let telemetry := o.telemetry.publish publication
    { o with
      telemetry
      origin := if telemetry.drive = o.telemetry.drive then o.origin else o.source }
  | _ => o

/-- What is seen after a trace. -/
def follow (c : Settings) (o : Observed) (t : Trace) : Observed := t.foldl (after c) o

variable {c : Settings} {o : Observed} {t u : Trace} {e : Event}

@[simp] theorem follow_nil : o.follow c [] = o := rfl

@[simp] theorem follow_cons : o.follow c (e :: t) = (o.after c e).follow c t := rfl

@[simp] theorem follow_append : o.follow c (t ++ u) = (o.follow c t).follow c u := List.foldl_append

@[simp] theorem after_setOutputs {bytes : Bytes} {v : Unit} :
    o.after c ⟨.bus (.setOutputs c.slave bytes), v⟩ = { o with outputs := some bytes } :=
  if_pos rfl

@[simp] theorem after_inputs {bytes : Bytes} :
    o.after c ⟨.bus (.inputs c.slave), bytes⟩
      = { o with statusword := c.layout.statuswordIn bytes, source := o.exchange } :=
  if_pos rfl

@[simp] theorem after_exchange {answer : Except Bus.Fault UInt16} :
    o.after c ⟨.bus .exchange, answer⟩ = { o with exchange := some answer } := rfl

@[simp] theorem after_publish {p : Publication} {v : Unit} :
    o.after c ⟨.publish p, v⟩
      = { o with
          telemetry := o.telemetry.publish p
          origin := if (o.telemetry.publish p).drive = o.telemetry.drive then o.origin
            else o.source } := rfl

@[simp] theorem after_outputs {slave : UInt16} {bytes : Bytes} :
    o.after c ⟨.bus (.outputs slave), bytes⟩ = o := rfl

@[simp] theorem after_setpoint {v : Single} : o.after c ⟨.setpoint, v⟩ = o := rfl

@[simp] theorem after_takeReenable {v : Bool} : o.after c ⟨.takeReenable, v⟩ = o := rfl

/-- Only a publication changes what is published, and where it comes from. -/
theorem after_cases (o : Observed) (e : Event) :
    ((o.after c e).telemetry = o.telemetry ∧ (o.after c e).origin = o.origin)
      ∨ ∃ p, e = ⟨.publish p, ()⟩ := by
  unfold after
  split
  · split <;> exact .inl ⟨rfl, rfl⟩
  · split <;> exact .inl ⟨rfl, rfl⟩
  · exact .inl ⟨rfl, rfl⟩
  next p v => exact .inr ⟨p, rfl⟩
  · exact .inl ⟨rfl, rfl⟩

/-- Looking at the clock shows nothing. -/
theorem follow_clock (h : ∀ e ∈ t, ∃ now, e = ⟨.now, now⟩) : o.follow c t = o := by
  induction t with
  | nil => rfl
  | cons e t ih =>
    obtain ⟨⟨now, rfl⟩, ht⟩ := List.forall_mem_cons.1 h
    exact ih ht

end Observed

/-- What is seen of an exchange made new, after a trace. -/
def observe (c : Settings) (t : Trace) : Observed := Observed.follow c {} t

variable {c : Settings} {o : Observed} {log : List Stretch} {p p' : Point} {x : Stretch}
  {s s' : State} {t u : Trace} {e : Event}

@[simp] theorem observe_append : observe c (t ++ u) = (observe c t).follow c u :=
  Observed.follow_append

-- ======================================================== quiet events

/-- The event touches neither the process image nor the published drive state. -/
def Quiet : Event → Prop
  | ⟨.bus (.setOutputs _ _), _⟩ | ⟨.bus (.inputs _), _⟩ | ⟨.bus .exchange, _⟩ => False
  | ⟨.publish publication, _⟩ => ∀ t : Telemetry, (t.publish publication).drive = t.drive
  | _ => True

/-- All that a quiet event can change is the rest of the telemetry. -/
theorem Quiet.after (h : Quiet e) :
    o.after c e = { o with telemetry := (o.after c e).telemetry }
      ∧ (o.after c e).telemetry.drive = o.telemetry.drive := by
  unfold Quiet at h
  split at h
  · exact h.elim
  · exact h.elim
  · exact h.elim
  next publication v =>
    rw [Observed.after_publish, if_pos (h o.telemetry)]
    exact ⟨rfl, h o.telemetry⟩
  next hout hin hex hpub =>
    have : o.after c e = o := by
      unfold Observed.after
      split
      next slave bytes v => exact (hout slave bytes v rfl).elim
      next slave bytes => exact (hin slave bytes rfl).elim
      next answer => exact (hex answer rfl).elim
      next publication v => exact (hpub publication v rfl).elim
      · rfl
    rw [this]
    exact ⟨rfl, rfl⟩

theorem Quiet.follow (h : ∀ e ∈ t, Quiet e) :
    o.follow c t = { o with telemetry := (o.follow c t).telemetry }
      ∧ (o.follow c t).telemetry.drive = o.telemetry.drive := by
  induction t generalizing o with
  | nil => exact ⟨rfl, rfl⟩
  | cons e t ih =>
    obtain ⟨he, ht⟩ := List.forall_mem_cons.1 h
    obtain ⟨hrest, hdrive⟩ := ih (o := o.after c e) ht
    obtain ⟨hfirst, hdrive'⟩ := he.after (c := c) (o := o)
    rw [Observed.follow_cons]
    refine ⟨?_, hdrive.trans hdrive'⟩
    rw [hrest, hfirst]

theorem Awaited.quiet {polls : Nat} (h : Awaited s polls t s') : ∀ e ∈ t, Quiet e := by
  induction h with
  | timedOut => exact fun _ he => absurd he List.not_mem_nil
  | stopped => simp [Quiet]
  | ready => simp [Quiet, Telemetry.publish]
  | again _ ih => simpa [Quiet] using ih

theorem Watched.quiet {slave : UInt16} (h : Watched slave t) : ∀ e ∈ t, Quiet e := by
  cases h <;> simp [Quiet, Telemetry.publish]

/-- Waiting changes nothing but the phase. -/
theorem Awaited.state_eq {polls : Nat} (h : Awaited s polls t s') :
    s' = { s with phase := s'.phase } := by
  induction h with
  | timedOut => rfl
  | stopped => rfl
  | ready => rfl
  | again _ ih => exact ih

theorem Awaited.drive {polls : Nat} (h : Awaited s polls t s') : s'.drive = s.drive := by
  rw [h.state_eq]

/-- The stretches that are made of quiet events. -/
theorem Move.quiet (h : Move c p x p') (hcycle : ¬ x.IsCycle) (hseq : ¬ x.IsEnabling)
    (hstop : x.act ≠ .stop) : ∀ e ∈ x.trace, Quiet e := by
  cases h with
  | wait _ ht => exact (runs_waitForMaster ht).1.quiet
  | poll => simp [Quiet]
  | cycle => exact (hcycle ⟨_, rfl⟩).elim
  | enabling => exact (hseq ⟨_, rfl⟩).elim
  | watch _ _ ht => exact (runs_watchSlave ht).quiet
  | stop => exact (hstop rfl).elim

/-- A stretch that is neither a cycle nor an enabling sequence reads nothing. -/
theorem Move.statusword (hm : Move c p x p') (hcycle : ¬ x.IsCycle) (hseq : ¬ x.IsEnabling) :
    (o.follow c x.trace).statusword = o.statusword := by
  by_cases hstop : x.act = .stop
  · cases hm with
    | stop _ ht =>
      obtain ⟨-, outputs, answer, rfl⟩ := runs_stop ht
      simp [stopTrace]
    | wait | poll | cycle | enabling | watch => cases hstop
  · rw [(Quiet.follow (hm.quiet hcycle hseq hstop)).1]

-- ==================================================== the state is seen

/-- What is remembered at a point, against what is seen there. -/
structure Tracked (c : Settings) (o : Observed) (p : Point) : Prop where
  /-- The drive state remembered is the one last read. -/
  cached : p.state.drive = .decode o.statusword
  /-- The drive state published is the one last read. -/
  published : o.telemetry.drive = .decode o.statusword
  /-- The enabling sequence is due after a good exchange whose inputs were read. -/
  due : p.enablingDue = true → ∃ answer,
    o.exchange = some answer ∧ o.source = some answer ∧ c.expectedWkc ≤ counted answer

theorem tracked_new : Tracked c (observe c []) {} := by
  have hzero : Drive.State.decode 0 = .notReady := by decide
  exact ⟨hzero.symm, hzero.symm, fun h => absurd h Bool.false_ne_true⟩

/-- Quiet events keep what is tracked, wherever they lead without a new state. -/
theorem Tracked.quiet (h : Tracked c o p) (ht : ∀ e ∈ t, Quiet e)
    (hdrive : p'.state.drive = p.state.drive)
    (hdue : p'.enablingDue = true → p.enablingDue = true) : Tracked c (o.follow c t) p' := by
  obtain ⟨hsame, hpub⟩ := Quiet.follow (c := c) (o := o) ht
  have hword : (o.follow c t).statusword = o.statusword := by rw [hsame]
  have hex : (o.follow c t).exchange = o.exchange := by rw [hsame]
  have hsrc : (o.follow c t).source = o.source := by rw [hsame]
  constructor
  · rw [hdrive, hword]
    exact h.cached
  · rw [hpub, hword]
    exact h.published
  · intro hd
    rw [hex, hsrc]
    exact h.due (hdue hd)

/-- What a cycle leaves: nothing new if it is degraded, and else the inputs of
its own exchange, decoded and published. -/
theorem Cycled.seen {good : Bool} (h : Cycled c s t (good, s')) :
    if good then
      s'.drive = .decode (o.follow c t).statusword
        ∧ (o.follow c t).telemetry.drive = .decode (o.follow c t).statusword
        ∧ ∃ answer, (o.follow c t).exchange = some answer ∧ (o.follow c t).source = some answer
          ∧ c.expectedWkc ≤ counted answer
    else
      s'.drive = s.drive ∧ (o.follow c t).statusword = o.statusword
        ∧ (o.follow c t).telemetry.drive = o.telemetry.drive := by
  cases h with
  | degraded again setpoint outputs answer hlow =>
    refine ⟨rfl, ?_, ?_⟩ <;> simp [sendTrace, Telemetry.publish]
  | good again setpoint outputs answer inputs hgood hclock =>
    obtain ⟨hnow, hs⟩ := runs_updateVelocity hclock
    have hdrive := congrArg State.drive hs
    rw [if_pos rfl, List.append_assoc, Observed.follow_append, List.cons_append,
      Observed.follow_cons, Observed.follow_append, Observed.follow_clock hnow]
    refine ⟨?_, ?_, answer, ?_⟩
    · simpa using hdrive
    · simpa [Telemetry.publish] using hdrive
    · simpa [sendTrace] using hgood

/-- The enabling sequence hands back the status word it read last. The states of
the attempts so far are those that `last` would settle to. -/
theorem attempts_seen {left : Nat} {last : Option UInt16} {out : Enabling.Outcome}
    (h : Enabling.Attempts c.slave c.layout left last t out) {b : Bool}
    (hcached : (s.settle ⟨b, last⟩).drive = .decode o.statusword)
    (hpub : o.telemetry.drive = .decode o.statusword) :
    (s.settle out).drive = .decode (o.follow c t).statusword
      ∧ (o.follow c t).telemetry.drive = .decode (o.follow c t).statusword := by
  induction h generalizing o b with
  | exhausted last =>
    refine ⟨?_, hpub⟩
    rw [Observed.follow_nil, ← hcached]
    cases last <;> rfl
  | noRoom inputs outputs =>
    simp [Enabling.attemptTrace, State.settle]
  | there inputs outputs =>
    simp [Enabling.attemptTrace, State.settle]
  | again inputs outputs answer _ _ _ ih =>
    rw [Observed.follow_append, Observed.follow_cons]
    apply ih (b := b)
    · simp [Enabling.attemptTrace, State.settle]
    · simp [Enabling.attemptTrace]

/-- Every stretch keeps what is tracked. -/
theorem Tracked.move (h : Tracked c o p) (hm : Move c p x p') :
    Tracked c (o.follow c x.trace) p' := by
  cases hm with
  | wait _ ht =>
    have hw := (runs_waitForMaster ht).1
    exact h.quiet hw.quiet hw.drive id
  | poll => exact h.quiet (by simp [Quiet]) rfl id
  | @cycle t good s' hidle ht =>
    have hseen := (runs_cycle ht).seen (o := o)
    cases good with
    | true =>
      obtain ⟨hd, hp, hx⟩ := hseen
      exact ⟨hd, hp, fun _ => hx⟩
    | false =>
      obtain ⟨hd, hw, hp⟩ := hseen
      refine ⟨?_, ?_, fun hdue => absurd hdue Bool.false_ne_true⟩
      · rw [hw]
        exact hd.trans h.cached
      · rw [hw]
        exact hp.trans h.published
  | enabling hdue ht =>
    obtain ⟨hd, hp⟩ :=
      attempts_seen (Enabling.runs_attempts ht) (s := p.state) (b := false) h.cached h.published
    exact ⟨hd, hp, fun hdue => absurd hdue Bool.false_ne_true⟩
  | watch _ _ ht => exact h.quiet (runs_watchSlave ht).quiet rfl id
  | stop hidle ht =>
    obtain ⟨rfl, outputs, answer, rfl⟩ := runs_stop ht
    refine ⟨?_, ?_, fun hdue => ?_⟩
    · simpa [stopTrace] using h.cached
    · simpa [stopTrace, Telemetry.publish] using h.published
    · exact absurd hdue (by rw [hidle.1]; exact Bool.false_ne_true)

/-- At every point of a session the drive state that is remembered is the one
that is published, and the last one read. -/
theorem tracked_of_session (h : Session c log p) : Tracked c (observe c (events log)) p := by
  induction h with
  | new => exact tracked_new
  | move hs hm ih =>
    rw [events_append, events_singleton, observe_append]
    exact ih.move hm

end Servo.Cyclic
