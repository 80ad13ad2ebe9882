/-
Rules for a whole step of the cyclic exchange, and for the loop of steps.

A step is a cycle, the enabling sequence if the cycle was good and the sequence
is due, and a look at the slave if that is due. `Stepped` has one rule for a step
that goes without the sequence and one for a step that runs it, over the rules of
the parts. The loop looks at the stop flag before each step (`Looped`), and the
whole exchange waits for the master before the loop and stops after it (`Ran`).

# What a step leaves in the telemetry

Telemetry is the fold of what is published (`follow_telemetry`), so an account of
a step is one of its publications: a cycle makes one of its own, and what comes
after it in the step touches neither the counters nor the communication
(`Aside`). `Stepped.account` puts that together, and says of a degraded step that
it leaves all the values that come from the drive.
-/
import Servo.Proofs.Cyclic.Observed

namespace Servo.Cyclic

open Program

variable {c : Settings} {o : Observed} {s s' : State} {t u : Trace} {good : Bool}

-- ================================================= reading a trace

/-- The answers to the exchanges of a trace, in order. -/
def exchanges (t : Trace) : List (Except Bus.Fault UInt16) :=
  t.filterMap fun
    | ⟨.bus .exchange, answer⟩ => some answer
    | _ => none

/-- What is published in a trace, in order. -/
def publications (t : Trace) : List Publication :=
  t.filterMap fun
    | ⟨.publish p, _⟩ => some p
    | _ => none

@[simp] theorem exchanges_append : exchanges (t ++ u) = exchanges t ++ exchanges u :=
  List.filterMap_append

@[simp] theorem publications_append :
    publications (t ++ u) = publications t ++ publications u :=
  List.filterMap_append

/-- Reading the inputs and the clock is nothing to a projection that picks neither. -/
theorem filterMap_reading {β : Type} {f : Event → Option β} {slave : UInt16} {inputs : Bytes}
    (hinputs : f ⟨.bus (.inputs slave), inputs⟩ = none) (hnow : ∀ now, f ⟨.now, now⟩ = none)
    (h : ∀ e ∈ t, ∃ now, e = ⟨.now, now⟩) :
    (⟨.bus (.inputs slave), inputs⟩ :: t).filterMap f = [] := by
  rw [List.filterMap_eq_nil_iff]
  intro e he
  rcases List.mem_cons.1 he with rfl | hclock
  · exact hinputs
  · obtain ⟨now, rfl⟩ := h e hclock
    exact hnow now

/-- Telemetry is what was published, one publication after the other. -/
theorem follow_telemetry (t : Trace) :
    (o.follow c t).telemetry = (publications t).foldl Telemetry.publish o.telemetry := by
  induction t generalizing o with
  | nil => rfl
  | cons e t ih =>
    rw [Observed.follow_cons, ih]
    obtain ⟨r, a⟩ := e
    cases r with
    | publish p => rfl
    | bus r =>
      -- `after` looks at the bus, but publishes nothing of it
      have hbus : (o.after c ⟨.bus r, a⟩).telemetry = o.telemetry := by
        rcases Observed.after_cases o ⟨.bus r, a⟩ with hsame | ⟨p, hp⟩
        · exact hsame.1
        · cases hp
      rw [hbus]
      rfl
    | _ => rfl

-- ====================================================== rules of a step

/-- The look at the slave at the end of a step, where it is due. -/
inductive Looked (c : Settings) (s : State) : Trace → Prop
  | due {t : Trace} : watchDue c.timing s.ticks = true → Watched c.slave t → Looked c s t
  | spared : watchDue c.timing s.ticks = false → Looked c s []

/-- What a step can do. -/
inductive Stepped (c : Settings) (s : State) : Trace → Bool × State → Prop
  | plain {t u : Trace} {good : Bool} {s' : State} :
      Cycled c s t (good, s') → (good && s'.enablePending) = false → Looked c s' u →
      Stepped c s (t ++ u) (good, s')
  /-- The sequence runs after a good cycle only. -/
  | enabling {t u v : Trace} {s₁ : State} {outcome : Enabling.Outcome} :
      Cycled c s t (true, s₁) → s₁.enablePending = true →
      Enabling.Attempts c.slave c.layout c.timing.enableAttempts.toNat none u outcome →
      Looked c (s₁.settle outcome) v →
      Stepped c s (t ++ u ++ v) (true, s₁.settle outcome)

theorem runs_watchIfDue {v : Unit} (h : Runs (watchIfDue c s) t v) : Looked c s t := by
  unfold watchIfDue at h
  cases hdue : watchDue c.timing s.ticks with
  | true =>
    rw [hdue, if_pos rfl] at h
    exact .due hdue (runs_watchSlave h)
  | false =>
    rw [hdue, if_neg Bool.false_ne_true] at h
    obtain ⟨rfl, -⟩ := runs_pure_iff.1 h
    exact .spared hdue

/-- A step is a cycle, a sequence if that is due, and a look if that is due. -/
theorem runs_step (h : Runs (step c s) t (good, s')) : Stepped c s t (good, s') := by
  unfold step at h
  rw [runs_bind_iff] at h
  obtain ⟨u, ⟨good', s₁⟩, v, rfl, hcycle, h⟩ := h
  dsimp only at h
  rw [runs_bind_iff] at h
  obtain ⟨v, s₂, w, rfl, henable, h⟩ := h
  rw [runs_bind_iff] at h
  obtain ⟨w, _, z, rfl, hwatch, h⟩ := h
  obtain ⟨rfl, hr⟩ := runs_pure_iff.1 h
  cases hr
  have hcycled := runs_cycle hcycle
  have hlooked := runs_watchIfDue hwatch
  rw [List.append_nil, ← List.append_assoc]
  unfold enableIfDue at henable
  cases hdue : good && s₁.enablePending with
  | false =>
    rw [hdue, if_neg Bool.false_ne_true] at henable
    obtain ⟨rfl, rfl⟩ := runs_pure_iff.1 henable
    rw [List.append_nil]
    exact .plain hcycled hdue hlooked
  | true =>
    rw [hdue, if_pos rfl, runs_bind_iff] at henable
    obtain ⟨v, outcome, w', rfl, hseq, henable⟩ := henable
    obtain ⟨rfl, rfl⟩ := runs_pure_iff.1 henable
    obtain ⟨rfl, hpending⟩ := Bool.and_eq_true_iff.1 hdue
    rw [List.append_nil]
    exact .enabling hcycled hpending (Enabling.runs_attempts hseq) hlooked

-- =================================================== rules of the loop

/-- What stepping until a stop is asked for can do, in so many steps at most. -/
inductive Looped (c : Settings) : Nat → State → Trace → Option State → Prop
  | exceeded {s : State} : Looped c 0 s [] none
  | stopped {bound : Nat} {s : State} : Looped c (bound + 1) s [⟨.isStopped, true⟩] (some s)
  | again {bound : Nat} {s s' : State} {t u : Trace} {good : Bool} {r : Option State} :
      Runs (step c s) t (good, s') → Looped c bound s' u r →
      Looped c (bound + 1) s (⟨.isStopped, false⟩ :: t ++ u) r

/-- What the whole exchange can do. -/
inductive Ran (c : Settings) (bound : Nat) (s : State) : Trace → Option State → Prop
  /-- The master was not ready. -/
  | unready {t : Trace} {s' : State} :
      Runs (waitForMaster c s) t (false, s') → Ran c bound s t (some s')
  | exceeded {t u : Trace} {s' : State} :
      Runs (waitForMaster c s) t (true, s') → Looped c bound s' u none →
      Ran c bound s (t ++ u) none
  | stopped {t u v : Trace} {s₁ s₂ s₃ : State} :
      Runs (waitForMaster c s) t (true, s₁) → Looped c bound s₁ u (some s₂) →
      Runs (stop c s₂) v s₃ → Ran c bound s (t ++ u ++ v) (some s₃)

/-- The loop looks at the stop flag before every step, and ends behind the first one that is
raised. -/
theorem runs_steps {bound : Nat} {r : Option State} (h : Runs (steps c bound s) t r) :
    Looped c bound s t r := by
  induction bound generalizing s t with
  | zero =>
    unfold steps at h
    obtain ⟨rfl, rfl⟩ := runs_pure_iff.1 h
    exact .exceeded
  | succ bound ih =>
    unfold steps at h
    rw [runs_perform_bind_iff] at h
    obtain ⟨stopped, u, rfl, h⟩ := h
    cases stopped with
    | true =>
      obtain ⟨rfl, rfl⟩ := runs_pure_iff.1 h
      exact .stopped
    | false =>
      rw [if_neg Bool.false_ne_true, runs_bind_iff] at h
      obtain ⟨u, ⟨good, s'⟩, v, rfl, hstep, h⟩ := h
      exact .again hstep (ih h)

/-- The whole exchange is a wait, the loop, and a stop at its end. -/
theorem runs_run {bound : Nat} {r : Option State} (h : Runs (run c bound s) t r) :
    Ran c bound s t r := by
  unfold run at h
  rw [runs_bind_iff] at h
  obtain ⟨u, ⟨ready, s₁⟩, v, rfl, hwait, h⟩ := h
  cases ready with
  | false =>
    obtain ⟨rfl, rfl⟩ := runs_pure_iff.1 h
    rw [List.append_nil]
    exact .unready hwait
  | true =>
    dsimp only at h
    rw [if_pos rfl] at h
    unfold finish at h
    rw [runs_bind_iff] at h
    obtain ⟨v, r', w, rfl, hsteps, h⟩ := h
    cases r' with
    | none =>
      obtain ⟨rfl, rfl⟩ := runs_pure_iff.1 h
      rw [List.append_nil]
      exact .exceeded hwait (runs_steps hsteps)
    | some s₂ =>
      obtain ⟨s₃, rfl, hstop⟩ := runs_bind_pure_iff.1 h
      rw [← List.append_assoc]
      exact .stopped hwait (runs_steps hsteps) hstop

-- ========================================================= publications

/-- The publication is of no cycle: it leaves the counters, and what is said of
the communication. -/
def Aside : Publication → Prop
  | .received _ _ _ _ _ | .degraded _ => False
  | _ => True

/-- The publication is of no drive: it leaves all values that a drive sends, or is
sent. -/
def Detached : Publication → Prop
  | .started | .degraded _ | .watched _ => True
  | _ => False

/-- Two snapshots count the same cycles and say the same of the communication. -/
structure SameCounts (before after : Telemetry) : Prop where
  communicationOk : after.communicationOk = before.communicationOk
  workingCounter : after.workingCounter = before.workingCounter
  cycles : after.cycles = before.cycles
  degradedCycles : after.degradedCycles = before.degradedCycles

/-- Two snapshots show the same drive. -/
structure SameDrive (before after : Telemetry) : Prop where
  position : after.position = before.position
  velocity : after.velocity = before.velocity
  torque : after.torque = before.torque
  modeDisplay : after.modeDisplay = before.modeDisplay
  statusword : after.statusword = before.statusword
  drive : after.drive = before.drive
  controlword : after.controlword = before.controlword
  enabled : after.enabled = before.enabled

/-- Publications that are of no cycle leave the counters. -/
theorem sameCounts_of_aside {ps : List Publication} (h : ∀ p ∈ ps, Aside p) (m : Telemetry) :
    SameCounts m (ps.foldl Telemetry.publish m) := by
  induction ps generalizing m with
  | nil => exact ⟨rfl, rfl, rfl, rfl⟩
  | cons p ps ih =>
    obtain ⟨hp, hps⟩ := List.forall_mem_cons.1 h
    have hrest := ih hps (m.publish p)
    have hfirst : SameCounts m (m.publish p) := by
      cases p with
      | received | degraded => exact hp.elim
      | started | attempted | watched | stopped => exact ⟨rfl, rfl, rfl, rfl⟩
    rw [List.foldl_cons]
    exact ⟨hrest.1.trans hfirst.1, hrest.2.trans hfirst.2, hrest.3.trans hfirst.3,
      hrest.4.trans hfirst.4⟩

/-- Publications that are of no drive leave the values of one. -/
theorem sameDrive_of_detached {ps : List Publication} (h : ∀ p ∈ ps, Detached p)
    (m : Telemetry) : SameDrive m (ps.foldl Telemetry.publish m) := by
  induction ps generalizing m with
  | nil => constructor <;> rfl
  | cons p ps ih =>
    obtain ⟨hp, hps⟩ := List.forall_mem_cons.1 h
    have hfirst : SameDrive m (m.publish p) := by
      cases p with
      | received | attempted | stopped => exact hp.elim
      | started | degraded | watched => constructor <;> rfl
    rw [List.foldl_cons]
    obtain ⟨h₁, h₂, h₃, h₄, h₅, h₆, h₇, h₈⟩ := ih hps (m.publish p)
    constructor
    · exact h₁.trans hfirst.position
    · exact h₂.trans hfirst.velocity
    · exact h₃.trans hfirst.torque
    · exact h₄.trans hfirst.modeDisplay
    · exact h₅.trans hfirst.statusword
    · exact h₆.trans hfirst.drive
    · exact h₇.trans hfirst.controlword
    · exact h₈.trans hfirst.enabled

-- ============================================================ the parts

/-- Waiting publishes nothing but the start. -/
theorem Awaited.publications {polls : Nat} (h : Awaited s polls t s') :
    ∀ p ∈ Cyclic.publications t, p = .started := by
  induction h with
  | timedOut | stopped => simp [Cyclic.publications]
  | ready => simp [Cyclic.publications]
  | again _ ih => exact ih

/-- A look at the slave publishes once, and exchanges nothing. -/
theorem Watched.publications {slave : UInt16} (h : Watched slave t) :
    exchanges t = [] ∧ ∃ operational, Cyclic.publications t = [.watched operational] := by
  cases h with
  | operational => exact ⟨rfl, true, rfl⟩
  | lost => exact ⟨rfl, false, rfl⟩

theorem Looked.publications (h : Looked c s t) :
    exchanges t = [] ∧ ∀ p ∈ Cyclic.publications t, ∃ operational, p = .watched operational := by
  cases h with
  | due _ hw =>
    obtain ⟨hex, operational, hpub⟩ := hw.publications
    rw [hpub]
    exact ⟨hex, by simp⟩
  | spared => exact ⟨rfl, by simp [Cyclic.publications]⟩

/-- Every attempt publishes the status word that it has found, and the answer to it. -/
theorem attempts_publications {slave : UInt16} {layout : Layout} {left : Nat}
    {last : Option UInt16} {out : Enabling.Outcome}
    (h : Enabling.Attempts slave layout left last t out) :
    ∀ p ∈ publications t, ∃ statusword, p = .answering statusword := by
  induction h with
  | exhausted => simp [publications]
  | noRoom | there => exact fun p hp => ⟨_, List.mem_singleton.1 hp⟩
  | again inputs outputs answer _ _ _ ih =>
    intro p hp
    rw [publications_append] at hp
    rcases List.mem_append.1 hp with hfirst | hrest
    · exact ⟨_, List.mem_singleton.1 hfirst⟩
    · exact ih p hrest

/-- A cycle exchanges once, and publishes what came of it: if it is a good one, the drive
state that its own inputs report. -/
theorem Cycled.publications (h : Cycled c s t (good, s')) :
    ∃ answer, exchanges t = [answer] ∧ good = decide (c.expectedWkc ≤ counted answer)
      ∧ if good then ∃ reading velocity controlword, Cyclic.publications t
          = [.received reading (.decode reading.statusword) velocity controlword (counted answer)]
        else Cyclic.publications t = [.degraded (counted answer)] := by
  cases h with
  | degraded again setpoint outputs answer hlow =>
    exact ⟨answer, rfl, (decide_eq_false hlow).symm, rfl⟩
  | @good again setpoint outputs answer inputs clock _ hgood hclock =>
    obtain ⟨hnow, hs'⟩ := runs_updateVelocity hclock
    have hdrive : s'.drive = .decode (readInputs c.layout inputs).statusword :=
      congrArg State.drive hs'
    refine ⟨answer, ?_, (decide_eq_true hgood).symm,
      readInputs c.layout inputs, s'.velocity, s'.controlword, ?_⟩
    · have hread : exchanges (⟨.bus (.inputs c.slave), inputs⟩ :: clock) = [] :=
        filterMap_reading rfl (fun _ => rfl) hnow
      rw [exchanges_append, exchanges_append, hread]
      rfl
    · have hread : Cyclic.publications (⟨.bus (.inputs c.slave), inputs⟩ :: clock) = [] :=
        filterMap_reading rfl (fun _ => rfl) hnow
      rw [publications_append, publications_append, hread, hdrive]
      rfl

-- ======================================================= the drive state

/-- What is said of the drive is what the status word beside it reports. -/
def Decoded (p : Publication) : Prop :=
  match p with
  | .received reading drive _ _ _ => drive = .decode reading.statusword
  | .attempted statusword _ _ _ => p = .answering statusword
  | _ => True

theorem Cycled.decoded (h : Cycled c s t (good, s')) : ∀ p ∈ Cyclic.publications t, Decoded p := by
  obtain ⟨answer, -, -, hpub⟩ := h.publications
  intro p hp
  cases good with
  | true =>
    obtain ⟨reading, velocity, controlword, hpub⟩ := hpub
    rw [hpub] at hp
    obtain rfl := List.mem_singleton.1 hp
    rfl
  | false =>
    rw [if_neg Bool.false_ne_true] at hpub
    rw [hpub] at hp
    obtain rfl := List.mem_singleton.1 hp
    trivial

theorem attempts_decoded {slave : UInt16} {layout : Layout} {left : Nat} {last : Option UInt16}
    {out : Enabling.Outcome} (h : Enabling.Attempts slave layout left last t out) :
    ∀ p ∈ publications t, Decoded p := by
  intro p hp
  obtain ⟨statusword, rfl⟩ := attempts_publications h p hp
  rfl

theorem Looked.decoded (h : Looked c s t) : ∀ p ∈ Cyclic.publications t, Decoded p := by
  intro p hp
  obtain ⟨operational, rfl⟩ := h.publications.2 p hp
  trivial

/-- A step publishes no drive state but the ones that are decoded. -/
theorem Stepped.decoded (h : Stepped c s t (good, s')) :
    ∀ p ∈ publications t, Decoded p := by
  cases h with
  | plain hcycle _ hlooked =>
    rw [publications_append]
    exact List.forall_mem_append.2 ⟨hcycle.decoded, hlooked.decoded⟩
  | enabling hcycle _ hattempts hlooked =>
    rw [publications_append, publications_append]
    exact List.forall_mem_append.2
      ⟨List.forall_mem_append.2 ⟨hcycle.decoded, attempts_decoded hattempts⟩, hlooked.decoded⟩

/-- Neither does any other stretch of a session. -/
theorem Move.decoded {p p' : Point} {x : Stretch} (h : Move c p x p') :
    ∀ q ∈ publications x.trace, Decoded q := by
  cases h with
  | wait _ hwait =>
    intro q hq
    rw [(runs_waitForMaster hwait).1.publications q hq]
    trivial
  | poll => exact nofun
  | cycle _ hcycle => exact (runs_cycle hcycle).decoded
  | enabling _ hseq => exact attempts_decoded (Enabling.runs_attempts hseq)
  | watch _ _ hwatch =>
    obtain ⟨operational, hpub⟩ := (runs_watchSlave hwatch).publications.2
    rw [hpub]
    exact List.forall_mem_singleton.2 trivial
  | stop _ hstop =>
    obtain ⟨-, outputs, answer, rfl⟩ := runs_stop hstop
    exact List.forall_mem_singleton.2 trivial

-- ============================================================== a step

/-- What a step does to the telemetry, by the answer to its own exchange. -/
structure Account (c : Settings) (answer : Except Bus.Fault UInt16) (good : Bool)
    (before after : Telemetry) : Prop where
  enough : good = decide (c.expectedWkc ≤ counted answer)
  communicationOk : after.communicationOk = good
  workingCounter : after.workingCounter = counted answer
  cycles : after.cycles = before.cycles + 1
  degradedCycles : after.degradedCycles = before.degradedCycles + if good then 0 else 1
  drive : good = false → SameDrive before after

/-- A cycle accounts for its exchange, whether it was a good one or not. -/
theorem Cycled.account (h : Cycled c s t (good, s')) (m : Telemetry) :
    ∃ answer, exchanges t = [answer]
      ∧ Account c answer good m ((Cyclic.publications t).foldl Telemetry.publish m) := by
  obtain ⟨answer, hex, hgood, hpub⟩ := h.publications
  refine ⟨answer, hex, ?_⟩
  cases good with
  | true =>
    obtain ⟨reading, velocity, controlword, hpub⟩ := hpub
    rw [hpub]
    exact ⟨hgood, rfl, rfl, rfl, (UInt64.add_zero _).symm, fun h => nomatch h⟩
  | false =>
    rw [if_neg Bool.false_ne_true] at hpub
    rw [hpub]
    exact ⟨hgood, rfl, rfl, rfl, rfl, fun _ => sameDrive_of_detached (by simp [Detached]) m⟩

/-- Publications that are of no cycle do not change an account. -/
theorem Account.aside {answer : Except Bus.Fault UInt16} {before after : Telemetry}
    {ps : List Publication} (h : Account c answer good before after) (hps : ∀ p ∈ ps, Aside p)
    (hdrive : good = false → ∀ p ∈ ps, Detached p) :
    Account c answer good before (ps.foldl Telemetry.publish after) := by
  have hcounts := sameCounts_of_aside hps after
  constructor
  · exact h.enough
  · exact hcounts.communicationOk.trans h.communicationOk
  · exact hcounts.workingCounter.trans h.workingCounter
  · exact hcounts.cycles.trans h.cycles
  · exact hcounts.degradedCycles.trans h.degradedCycles
  · intro hlow
    have hkept := sameDrive_of_detached (hdrive hlow) after
    obtain ⟨h₁, h₂, h₃, h₄, h₅, h₆, h₇, h₈⟩ := h.drive hlow
    exact ⟨hkept.1.trans h₁, hkept.2.trans h₂, hkept.3.trans h₃, hkept.4.trans h₄,
      hkept.5.trans h₅, hkept.6.trans h₆, hkept.7.trans h₇, hkept.8.trans h₈⟩

/-- Every step keeps its account, by the answer to the first of its exchanges. -/
theorem Stepped.account (h : Stepped c s t (good, s')) (m : Telemetry) :
    ∃ answer, (exchanges t).head? = some answer
      ∧ Account c answer good m ((publications t).foldl Telemetry.publish m) := by
  cases h with
  | plain hcycle hdue hlooked =>
    obtain ⟨answer, hex, haccount⟩ := hcycle.account m
    obtain ⟨-, hwatched⟩ := hlooked.publications
    refine ⟨answer, by rw [exchanges_append, hex]; rfl, ?_⟩
    rw [publications_append, List.foldl_append]
    refine haccount.aside (fun p hp => ?_) (fun _ p hp => ?_)
    · obtain ⟨operational, rfl⟩ := hwatched p hp
      trivial
    · obtain ⟨operational, rfl⟩ := hwatched p hp
      trivial
  | enabling hcycle hpending hattempts hlooked =>
    obtain ⟨answer, hex, haccount⟩ := hcycle.account m
    obtain ⟨-, hwatched⟩ := hlooked.publications
    have hattempted := attempts_publications hattempts
    refine ⟨answer, by rw [exchanges_append, exchanges_append, hex]; rfl, ?_⟩
    rw [publications_append, publications_append, List.append_assoc, List.foldl_append]
    refine haccount.aside (fun p hp => ?_) (fun hlow => nomatch hlow)
    rcases List.mem_append.1 hp with hp | hp
    · obtain ⟨statusword, rfl⟩ := hattempted p hp
      trivial
    · obtain ⟨operational, rfl⟩ := hwatched p hp
      trivial

end Servo.Cyclic
