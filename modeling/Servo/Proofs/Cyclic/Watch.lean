/-
When the cyclic exchange looks at its slave, and what it makes of that.

A step may end with a look at the state of the slave. Nothing else in a step is about the
states of slaves, nor tells of them (`Aloof`), so a step is some work of that kind and the
look after it (`Stepped.work`). Whether there is a look hangs on the number of steps alone,
the degraded ones among them, since each step counts (`Called.ticks`); the counter has 64
bits, and comes round with the period as long as it does not overflow (`watchDue_iff`).

# What is told of the slave

What a look found is published, and stands until the next one; starting the exchange stands
for a look that found the slave operational. So after any calls that follow the start, the
telemetry tells what the last look since then showed (`lastShown`): each call adds the looks
that it makes (`Returned.told`), and a run of them adds all of theirs (`Made.told`).
-/
import Servo.Proofs.Cyclic.Telemetry
import Servo.Proofs.Requests

namespace Servo.Cyclic

open Program

variable {c : Settings} {s s' s'' : State} {t u v : Trace} {x : Call} {calls : List Call}
  {good : Bool} {m : Telemetry}

-- ======================================================== aloof events

/-- The event is not about the states of slaves, and does not tell of them either. -/
def Aloof : Event → Prop
  | ⟨.bus r, _⟩ => r.part ≠ .states
  | ⟨.publish .started, _⟩ | ⟨.publish (.watched _), _⟩ => False
  | _ => True

/-- The answers to the looks at the states of slaves, in order. -/
def queries (t : Trace) : List (Except Bus.Fault Bus.Status) :=
  t.filterMap fun
    | ⟨.bus (.state _), answer⟩ => some answer
    | _ => none

/-- Whether the last look of a trace showed the slave operational, where there was none what
was known before. -/
def lastShown (known : Bool) (t : Trace) : Bool :=
  ((queries t).getLast?.map showsOperational).getD known

/-- The later of two traces decides, if it looks at the slave at all. -/
theorem lastShown_append {known : Bool} :
    lastShown known (t ++ u) = lastShown (lastShown known t) u := by
  have happend : queries (t ++ u) = queries t ++ queries u := List.filterMap_append
  unfold lastShown
  rw [happend, List.getLast?_append]
  cases (queries u).getLast? <;> rfl

/-- What the telemetry tells of the slave after a trace. -/
def told (m : Telemetry) (t : Trace) : Bool :=
  ((publications t).foldl Telemetry.publish m).slaveOperational

/-- What is told goes on from what was told before. -/
theorem told_append :
    told m (t ++ u) = told ((publications t).foldl Telemetry.publish m) u := by
  unfold told
  rw [publications_append, List.foldl_append]

/-- Where nobody looks at the slave there is no query. -/
theorem queries_of_aloof (h : ∀ e ∈ t, Aloof e) : queries t = [] := by
  apply List.filterMap_eq_nil_iff.2
  intro e he
  have haloof := h e he
  split
  next slave answer =>
    have hnot : (Bus.Request.state slave).part ≠ .states := haloof
    exact absurd rfl hnot
  next => rfl

/-- Where nobody looks at the slave nothing new is told of it. -/
theorem told_of_aloof (h : ∀ e ∈ t, Aloof e) : told m t = m.slaveOperational := by
  induction t generalizing m with
  | nil => rfl
  | cons e t ih =>
    obtain ⟨he, ht⟩ := List.forall_mem_cons.1 h
    obtain ⟨r, a⟩ := e
    cases r with
    | publish p =>
      have hkept : (m.publish p).slaveOperational = m.slaveOperational := by
        cases p with
        | started | watched => exact he.elim
        | received | degraded | attempted | stopped => rfl
      exact (ih ht).trans hkept
    | _ => exact ih ht

-- ============================================================ the parts

theorem aloof_sendTrace {again : Bool} {setpoint : Single} {outputs : Bytes}
    {answer : Except Bus.Fault UInt16} :
    ∀ e ∈ sendTrace c s again setpoint outputs answer, Aloof e := by
  simp [sendTrace, Aloof, Bus.Request.part]

theorem aloof_attemptTrace {slave : UInt16} {layout : Layout} {inputs outputs sent : Bytes} :
    ∀ e ∈ Enabling.attemptTrace slave layout inputs outputs sent, Aloof e := by
  simp [Enabling.attemptTrace, Publication.answering, Aloof, Bus.Request.part]

/-- A cycle does not look at the slave. -/
theorem Cycled.aloof {r : Bool × State} (h : Cycled c s t r) : ∀ e ∈ t, Aloof e := by
  cases h with
  | degraded =>
    exact List.forall_mem_append.2 ⟨aloof_sendTrace, List.forall_mem_singleton.2 trivial⟩
  | @good _ _ _ _ _ clock _ _ hclock =>
    have hnow : ∀ e ∈ clock, Aloof e := by
      intro e he
      obtain ⟨now, rfl⟩ := (runs_updateVelocity hclock).1 e he
      trivial
    have hinputs {slave : UInt16} {a : Bytes} : Aloof ⟨.bus (.inputs slave), a⟩ :=
      Bus.Part.noConfusion
    rw [List.forall_mem_append, List.forall_mem_append, List.forall_mem_cons]
    exact ⟨⟨aloof_sendTrace, hinputs, hnow⟩, List.forall_mem_singleton.2 trivial⟩

/-- An enabling sequence does not look at the slave. -/
theorem attempts_aloof {slave : UInt16} {layout : Layout} {left : Nat} {last : Option UInt16}
    {out : Enabling.Outcome} (h : Enabling.Attempts slave layout left last t out) :
    ∀ e ∈ t, Aloof e := by
  induction h with
  | exhausted => simp
  | noRoom | there => exact aloof_attemptTrace
  | again inputs outputs answer _ _ _ ih =>
    have hexchange : Aloof ⟨.bus .exchange, answer⟩ := Bus.Part.noConfusion
    exact List.forall_mem_append.2 ⟨aloof_attemptTrace, List.forall_mem_cons.2 ⟨hexchange, ih⟩⟩

/-- A step does its work first, and looks at the slave then where that is due. -/
theorem Stepped.work (h : Stepped c s t (good, s')) :
    ∃ work watch, t = work ++ watch ∧ (∀ e ∈ work, Aloof e) ∧ Looked c s' watch := by
  cases h with
  | plain hcycle _ hlooked => exact ⟨_, _, rfl, hcycle.aloof, hlooked⟩
  | enabling hcycle _ hattempts hlooked =>
    exact ⟨_, _, rfl, List.forall_mem_append.2 ⟨hcycle.aloof, attempts_aloof hattempts⟩, hlooked⟩

/-- What a look finds is told. -/
theorem Looked.told (h : Looked c s t) : told m t = lastShown m.slaveOperational t := by
  cases h with
  | due _ hwatched =>
    cases hwatched with
    | operational answer hshows => exact hshows.symm
    | lost answer taken hshows => exact hshows.symm
  | spared => rfl

/-- A step tells what its look has shown, if it took one. -/
theorem Stepped.told (h : Stepped c s t (good, s')) :
    told m t = lastShown m.slaveOperational t := by
  obtain ⟨work, watch, rfl, hwork, hlooked⟩ := h.work
  have hkept : lastShown m.slaveOperational work = m.slaveOperational := by
    unfold lastShown
    rw [queries_of_aloof hwork]
    rfl
  rw [told_append, lastShown_append, hkept, hlooked.told]
  exact congrArg (lastShown · watch) (told_of_aloof hwork)

/-- Waiting makes no look, and starts the exchange if the master is ready. -/
theorem Awaited.told {polls : Nat} (h : Awaited s polls t s') :
    queries t = [] ∧ told m t = (decide (s'.phase = .running) || m.slaveOperational) := by
  induction h with
  | timedOut | stopped => exact ⟨rfl, rfl⟩
  | ready => exact ⟨rfl, rfl⟩
  | again _ ih => exact ih

-- ============================================================= counting

/-- Every step is counted, a degraded one too. -/
theorem Stepped.ticks (h : Stepped c s t (good, s')) : s'.ticks = s.ticks + 1 := by
  have hcycled : ∀ {u : Trace} {r : Bool × State}, Cycled c s u r → r.2.ticks = s.ticks + 1 := by
    intro u r hcycle
    cases hcycle with
    | degraded => rfl
    | good again setpoint outputs answer inputs hgood hclock =>
      rw [(runs_updateVelocity hclock).2]
      rfl
  cases h with
  | plain hcycle _ _ => exact hcycled hcycle
  | enabling hcycle _ _ _ => exact (State.settle_ticks _ _).trans (hcycled hcycle)

/-- No other call counts as a step. -/
theorem Returned.ticks (h : Returned c s x t s') :
    s'.ticks = s.ticks + .ofNat ([x].countP Call.isStep) := by
  cases h with
  | waitForMaster hwait =>
    have hsame : s' = { s with phase := s'.phase } := (runs_waitForMaster hwait).1.state_eq
    rw [hsame]
    exact (UInt64.add_zero _).symm
  | look => exact (UInt64.add_zero _).symm
  | step hstep => exact (runs_step hstep).ticks
  | stop hstop =>
    rw [(runs_stop hstop).1]
    exact (UInt64.add_zero _).symm

/-- Every step counts, however its cycle was, and nothing else does. -/
theorem Called.ticks (h : Called c calls t s) : s.ticks = .ofNat (calls.countP Call.isStep) := by
  induction h with
  | new => rfl
  | call _ hx ih => rw [hx.ticks, ih, List.countP_append, UInt64.ofNat_add]

/-- After so many steps a look is due if there is a period and it divides their number, as
far as that is counted. -/
theorem watchDue_iff {timing : Timing} {n : Nat} :
    watchDue timing (.ofNat n) = true
      ↔ timing.stateCheckPeriod ≠ 0 ∧ timing.stateCheckPeriod.toNat ∣ n % UInt64.size := by
  unfold watchDue
  rw [decide_eq_true_iff, ← UInt64.toNat_inj, UInt64.toNat_mod, Nat.dvd_iff_mod_eq_zero]
  exact Iff.rfl

-- ================================================================ calls

/-- From a state on these calls can be made. -/
inductive Made (c : Settings) : State → List Call → Trace → State → Prop
  | none {s : State} : Made c s [] [] s
  | call {s s' s'' : State} {x : Call} {calls : List Call} {t u : Trace} :
      Returned c s x t s' → Made c s' calls u s'' → Made c s (x :: calls) (t ++ u) s''

theorem Called.made (h : Called c calls t s) {since : List Call} (hsince : Made c s since u s') :
    Called c (calls ++ since) (t ++ u) s' := by
  induction hsince generalizing calls t with
  | none =>
    rw [List.append_nil, List.append_nil]
    exact h
  | call hx _ ih =>
    have hcalled := ih (h.call hx)
    rwa [List.append_assoc, List.append_assoc] at hcalled

/-- A call tells what was shown last, and the start tells an operational slave. -/
theorem Returned.told (h : Returned c s x t s') :
    told m t = lastShown (decide (x = .waitForMaster true) || m.slaveOperational) t := by
  cases h with
  | @waitForMaster ready _ _ hwait =>
    obtain ⟨hawaited, hready⟩ := runs_waitForMaster hwait
    obtain ⟨hnone, htold⟩ := hawaited.told (m := m)
    unfold lastShown
    rw [hnone, htold, ← hready]
    cases ready <;> rfl
  | look => rfl
  | step hstep => exact (runs_step hstep).told
  | stop hstop =>
    obtain ⟨-, outputs, answer, rfl⟩ := runs_stop hstop
    rfl

/-- After any calls but a start, the telemetry tells of the last look. -/
theorem Made.told (h : Made c s calls t s') (hstarted : .waitForMaster true ∉ calls) :
    told m t = lastShown m.slaveOperational t := by
  induction h generalizing m with
  | none => rfl
  | call hx _ ih =>
    obtain ⟨hother, hrest⟩ := not_or.1 (fun h => hstarted (List.mem_cons.2 h))
    have hfirst := hx.told (m := m)
    rw [decide_eq_false (Ne.symm hother), Bool.false_or] at hfirst
    rw [told_append, lastShown_append, ← hfirst]
    exact ih hrest

-- ============================================================ the watch

/-- A step after any calls, and how it watches its slave. All else that it requests comes
before that, and is not about the states of slaves. Being the `n`-th step it looks at the
slave if the period is not zero and divides `n`, once; it asks for operational if the answer
does not show that, once as well, whatever becomes of it. The counter of steps overflows at
2 ^ 64, up to there `n` is the number itself. The telemetry tells what the last look showed,
and before any what it told already; a start of the exchange tells that the slave is
operational, so that is what stands from there to the next look. -/
theorem watch_of_called {before since : List Call} {s₀ s₁ s₂ : State}
    (h : Called c before t s₀) (hsince : Made c s₀ since u s₁)
    (hstep : Runs (step c s₁) v (good, s₂)) :
    let n := (before ++ since).countP Call.isStep + 1
    let period := c.timing.stateCheckPeriod
    (∃ work watch, v = work ++ watch ∧ (∀ e ∈ work, Aloof e)
        ∧ (watch = [] ∨ Watched c.slave watch)
        ∧ (watch ≠ [] ↔ period ≠ 0 ∧ period.toNat ∣ n % UInt64.size)
        ∧ (n < UInt64.size → (watch ≠ [] ↔ period ≠ 0 ∧ period.toNat ∣ n)))
      ∧ (.waitForMaster true ∉ since →
        (observe c (t ++ u ++ v)).telemetry.slaveOperational
          = lastShown (observe c t).telemetry.slaveOperational (u ++ v))
      ∧ ∀ rest, since = .waitForMaster true :: rest → .waitForMaster true ∉ rest →
        (observe c (t ++ u ++ v)).telemetry.slaveOperational = lastShown true (u ++ v) := by
  intro n period
  have hcalled := (h.made hsince).call (.step hstep)
  have hticks : s₂.ticks = .ofNat n := by
    rw [hcalled.ticks, List.countP_append]
    rfl
  obtain ⟨work, watch, hv, hwork, hlooked⟩ := (runs_step hstep).work
  have hdue : watch ≠ [] ↔ period ≠ 0 ∧ period.toNat ∣ n % UInt64.size := by
    rw [← watchDue_iff, ← hticks]
    cases hlooked with
    | due hdue hwatched => exact ⟨fun _ => hdue, fun _ => by cases hwatched <;> exact nofun⟩
    | spared hspared => simp [hspared]
  have hobserved : (observe c (t ++ u ++ v)).telemetry.slaveOperational
      = lastShown (told (observe c t).telemetry u) v := by
    rw [List.append_assoc, observe_append, follow_telemetry]
    exact told_append.trans (runs_step hstep).told
  refine ⟨⟨work, watch, hv, hwork, ?_, hdue, fun hfew => ?_⟩, fun hstarted => ?_, ?_⟩
  · cases hlooked with
    | due _ hwatched => exact .inr hwatched
    | spared => exact .inl rfl
  · rwa [Nat.mod_eq_of_lt hfew] at hdue
  · rw [hobserved, hsince.told hstarted, lastShown_append]
  · rintro rest rfl hstarted
    cases hsince with
    | @call _ _ _ _ _ u₁ u₂ hready hrest =>
      calc _ = lastShown (told (observe c t).telemetry (u₁ ++ u₂)) v := hobserved
        _ = lastShown (lastShown (told (observe c t).telemetry u₁) u₂) v :=
            congrArg (lastShown · v) (told_append.trans (hrest.told hstarted))
        _ = lastShown (lastShown (lastShown true u₁) u₂) v := by rw [hready.told]; rfl
        _ = lastShown true (u₁ ++ u₂ ++ v) := by rw [lastShown_append, lastShown_append]

/-- A look at the slave after every other step. -/
def everyOther : Settings := ⟨1, .standard, { stateCheckPeriod := 2 }, 3⟩

/-- The master is ready at the first poll. -/
def readyTrace : Trace := [⟨.isStopped, false⟩, ⟨.isReady, true⟩, ⟨.publish .started, ()⟩]

/-- A cycle that gets no reply. -/
def silentCycle : Trace :=
  sendTrace everyOther { phase := .running } false ⟨0⟩ (List.replicate 9 0)
      (.error (.timeout "no reply"))
    ++ [⟨.publish (.degraded 0), ()⟩]

/-- A slave that does not answer either, whatever it is asked for. -/
def silentSlave : Trace :=
  [⟨.bus (.state 1), .error (.timeout "no reply")⟩, ⟨.publish (.watched false), ()⟩,
   ⟨.bus (.setState 1 .operational), .error (.timeout "no reply")⟩]

/-- Degraded steps count: the second one looks at the slave. -/
theorem watch_of_called_silent :
    (∃ work watch, silentCycle ++ silentSlave = work ++ watch ∧ watch ≠ [] ∧ Watched 1 watch)
      ∧ (observe everyOther (readyTrace ++ silentCycle
          ++ (silentCycle ++ silentSlave))).telemetry.slaveOperational = false := by
  have hready : Runs (waitForMaster everyOther {}) readyTrace (true, { phase := .running }) :=
    Runs.of_replay rfl
  have hfirst : Runs (step everyOther { phase := .running }) silentCycle
      (false, State.begun { phase := .running } false) := Runs.of_replay rfl
  have hsecond : Runs (step everyOther (State.begun { phase := .running } false))
      (silentCycle ++ silentSlave)
      (false, State.begun (State.begun { phase := .running } false) false) := Runs.of_replay rfl
  obtain ⟨⟨work, watch, hv, -, hwatch, -, hdue⟩, -, htold⟩ :=
    watch_of_called .new (.call (.waitForMaster hready) (.call (.step hfirst) .none)) hsecond
  have hlooks : watch ≠ [] := (hdue (by decide)).2 (by decide)
  exact ⟨⟨work, watch, hv, hlooks, hwatch.resolve_left hlooks⟩, htold _ rfl (by decide)⟩

end Servo.Cyclic
