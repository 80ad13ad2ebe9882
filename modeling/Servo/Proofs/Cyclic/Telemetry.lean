/-
What the telemetry of a cyclic exchange says of the calls behind it.

The operations of an exchange may be called in any order: `Called c calls t s` holds
when a new exchange can have `calls` behind it, `t` being all that was requested
meanwhile and `s` what is remembered now. Each call comes with its answer, so the
steps that were made, and those that told of a degraded cycle, are counted in
`calls`. The loop makes such calls and no others (`Called.run`).

# The counters

A step publishes one cycle, and no other call publishes any (`Returned.tally`); the
counters of the telemetry have 64 bits, and are the numbers themselves as long as
these fit.

# The drive state

A publication carries the drive state that its sender holds. Every call decodes the
state from the status word that it sends with it (`Called.decoded`), and no
publication changes one of the two without the other. So the state is the decoded one
in the middle of a call too (`decoded_observe`).
-/
import Servo.Proofs.Cyclic.Interlock
import Servo.Proofs.Cyclic.Steps

namespace Servo

-- ===================================================== the drive state

/-- The drive state is the one that the status word reports. -/
def Telemetry.Decoded (m : Telemetry) : Prop := m.drive = .decode m.statusword

/-- A publication with the state that its own status word reports keeps it so. -/
theorem Telemetry.Decoded.publish {m : Telemetry} {p : Publication} (h : m.Decoded)
    (hp : Cyclic.Decoded p) : (m.publish p).Decoded := by
  cases p with
  | received reading drive => exact hp
  | attempted statusword =>
    rw [show Publication.attempted statusword .. = .answering statusword from hp]
    rfl
  | started | degraded | watched | stopped => exact h

theorem Telemetry.Decoded.foldl {m : Telemetry} {ps : List Publication} (h : m.Decoded)
    (hps : ∀ p ∈ ps, Cyclic.Decoded p) : (ps.foldl Telemetry.publish m).Decoded := by
  induction ps generalizing m with
  | nil => exact h
  | cons p ps ih =>
    obtain ⟨hp, hps⟩ := List.forall_mem_cons.1 hps
    exact ih (h.publish hp) hps

namespace Cyclic

open Program

variable {c : Settings} {s s' : State} {t u : Trace} {x : Call} {calls : List Call}

-- =============================================================== calls

/-- A call of an operation, and what it answered. -/
inductive Call
  | waitForMaster (ready : Bool)
  /-- Looks at the stop flag, as the loop does before each step. -/
  | look (stopped : Bool)
  | step (good : Bool)
  | stop
deriving DecidableEq

def Call.isStep : Call → Bool
  | .step _ => true
  | _ => false

/-- A call can make these requests, and leave this to be remembered. -/
inductive Returned (c : Settings) (s : State) : Call → Trace → State → Prop
  | waitForMaster {ready : Bool} {t : Trace} {s' : State} :
      Runs (waitForMaster c s) t (ready, s') → Returned c s (.waitForMaster ready) t s'
  | look (stopped : Bool) : Returned c s (.look stopped) [⟨.isStopped, stopped⟩] s
  | step {good : Bool} {t : Trace} {s' : State} :
      Runs (step c s) t (good, s') → Returned c s (.step good) t s'
  | stop {t : Trace} {s' : State} : Runs (stop c s) t s' → Returned c s .stop t s'

/-- A new exchange can have these calls behind it. -/
inductive Called (c : Settings) : List Call → Trace → State → Prop
  | new : Called c [] [] {}
  | call {calls : List Call} {t u : Trace} {s s' : State} {x : Call} :
      Called c calls t s → Returned c s x u s' → Called c (calls ++ [x]) (t ++ u) s'

theorem Called.looped {bound : Nat} {r : Option State} (hloop : Looped c bound s u r)
    (h : Called c calls t s) :
    ∃ calls' s', Called c (calls ++ calls') (t ++ u) s' ∧ ∀ s₁, r = some s₁ → s' = s₁ := by
  induction hloop generalizing calls t with
  | @exceeded s =>
    refine ⟨[], s, ?_, nofun⟩
    rw [List.append_nil, List.append_nil]
    exact h
  | stopped => exact ⟨_, _, h.call (.look true), fun _ hr => Option.some.inj hr⟩
  | @again bound s s' u v good r hstep _ ih =>
    obtain ⟨calls', s₁, hcalled, hr⟩ := ih ((h.call (.look false)).call (.step hstep))
    refine ⟨[.look false] ++ [.step good] ++ calls', s₁, ?_, hr⟩
    have hrequests : t ++ (⟨.isStopped, false⟩ :: u ++ v)
        = t ++ [⟨.isStopped, false⟩] ++ u ++ v := by
      simp
    rw [hrequests, ← List.append_assoc, ← List.append_assoc]
    exact hcalled

/-- The whole exchange makes such calls only, whether it ends or not. -/
theorem Called.run {bound : Nat} {r : Option State} (hrun : Runs (run c bound s) u r)
    (h : Called c calls t s) :
    ∃ calls' s', Called c (calls ++ calls') (t ++ u) s' ∧ ∀ s₁, r = some s₁ → s' = s₁ := by
  cases runs_run hrun with
  | unready hwait =>
    exact ⟨_, _, h.call (.waitForMaster hwait), fun _ hr => Option.some.inj hr⟩
  | @exceeded u v _ hwait hloop =>
    obtain ⟨calls', s₁, hcalled, -⟩ := (h.call (.waitForMaster hwait)).looped hloop
    refine ⟨[.waitForMaster true] ++ calls', s₁, ?_, nofun⟩
    rw [List.append_assoc, List.append_assoc] at hcalled
    exact hcalled
  | @stopped u v w _ s₂ s₃ hwait hloop hstop =>
    obtain ⟨calls', s₁, hcalled, hr⟩ := (h.call (.waitForMaster hwait)).looped hloop
    obtain rfl := hr s₂ rfl
    refine ⟨[.waitForMaster true] ++ calls' ++ [.stop], s₃, ?_, fun _ hr => Option.some.inj hr⟩
    rw [← List.append_assoc, ← List.append_assoc, ← List.append_assoc, ← List.append_assoc]
    exact hcalled.call (.stop hstop)

-- ======================================================== what is decoded

/-- Every call publishes the drive states that it decoded. -/
theorem Returned.decoded (h : Returned c s x u s') : ∀ p ∈ publications u, Decoded p := by
  cases h with
  | waitForMaster hwait =>
    intro p hp
    rw [(runs_waitForMaster hwait).1.publications p hp]
    trivial
  | look => exact nofun
  | step hstep => exact (runs_step hstep).decoded
  | stop hstop =>
    obtain ⟨-, outputs, answer, rfl⟩ := runs_stop hstop
    exact List.forall_mem_singleton.2 trivial

theorem Called.decoded (h : Called c calls t s) : ∀ p ∈ publications t, Decoded p := by
  induction h with
  | new => exact nofun
  | call _ hx ih =>
    rw [publications_append]
    exact List.forall_mem_append.2 ⟨ih, hx.decoded⟩

/-- Wherever the calls are interrupted, the drive state is the decoded one. -/
theorem decoded_observe (h : Called c calls t s) (hu : u <+: t) :
    (observe c u).telemetry.Decoded := by
  have hnew : Telemetry.Decoded {} := by
    show Drive.State.notReady = .decode 0
    decide
  obtain ⟨v, rfl⟩ := hu
  have hall := h.decoded
  rw [publications_append] at hall
  unfold observe
  rw [follow_telemetry]
  exact hnew.foldl (List.forall_mem_append.1 hall).1

-- ============================================================ counters

/-- A step counts one cycle, and one degraded cycle if it told of one; any other
call counts none. -/
theorem Returned.tally (h : Returned c s x u s') (m : Telemetry) :
    ((publications u).foldl Telemetry.publish m).cycles
        = m.cycles + .ofNat ([x].countP Call.isStep)
      ∧ ((publications u).foldl Telemetry.publish m).degradedCycles
        = m.degradedCycles + .ofNat ([x].count (.step false)) := by
  cases h with
  | waitForMaster hwait =>
    have hstarted := (runs_waitForMaster hwait).1.publications
    have haside : ∀ p ∈ publications u, Aside p := by
      intro p hp
      rw [hstarted p hp]
      trivial
    have hsame := sameCounts_of_aside haside m
    exact ⟨hsame.cycles.trans (UInt64.add_zero _).symm,
      hsame.degradedCycles.trans (UInt64.add_zero _).symm⟩
  | look => exact ⟨(UInt64.add_zero _).symm, (UInt64.add_zero _).symm⟩
  | @step good _ _ hstep =>
    obtain ⟨answer, -, haccount⟩ := (runs_step hstep).account m
    refine ⟨haccount.cycles, ?_⟩
    rw [haccount.degradedCycles]
    cases good <;> rfl
  | stop hstop =>
    obtain ⟨-, outputs, answer, rfl⟩ := runs_stop hstop
    exact ⟨(UInt64.add_zero _).symm, (UInt64.add_zero _).symm⟩

/-- The counters are the numbers of steps, as far as they reach. -/
theorem Called.tally (h : Called c calls t s) :
    (observe c t).telemetry.cycles = .ofNat (calls.countP Call.isStep)
      ∧ (observe c t).telemetry.degradedCycles = .ofNat (calls.count (.step false)) := by
  induction h with
  | new => exact ⟨rfl, rfl⟩
  | call _ hx ih =>
    -- `UInt64.ofNat` wraps, and so do the counters: the laws need no bound
    obtain ⟨hcycles, hdegraded⟩ := hx.tally (observe c _).telemetry
    rw [observe_append, follow_telemetry, List.countP_append, List.count_append,
      UInt64.ofNat_add, UInt64.ofNat_add, ← ih.1, ← ih.2]
    exact ⟨hcycles, hdegraded⟩

/-- Steps that told of a degraded cycle are steps. -/
theorem count_low_le (calls : List Call) :
    calls.count (.step false) ≤ calls.countP Call.isStep := by
  rw [List.count_eq_countP]
  apply List.countP_mono_left
  intro x _ hx
  rw [eq_of_beq hx]
  rfl

/-- As long as there were fewer than 2 ^ 64 steps: the drive state published is at
any time the one that the status word reports, the counters count the steps and
those that told of a degraded cycle, and a step tells in the telemetry what it tells
its caller, beside the counter of its own exchange. A step of a degraded cycle leaves
all values of the drive. -/
theorem telemetry_of_called (h : Called c calls t s)
    (hfew : calls.countP Call.isStep < UInt64.size) :
    let m := (observe c t).telemetry
    (∀ u, u <+: t → (observe c u).telemetry.Decoded)
      ∧ m.cycles.toNat = calls.countP Call.isStep
      ∧ m.degradedCycles.toNat = calls.count (.step false)
      ∧ m.degradedCycles ≤ m.cycles
      ∧ ∀ u good s', Runs (step c s) u (good, s') →
        let m' := (observe c (t ++ u)).telemetry
        ∃ answer, (exchanges u).head? = some answer ∧ m'.communicationOk = good
          ∧ m'.workingCounter = counted answer ∧ (good = false → SameDrive m m') := by
  intro m
  obtain ⟨hcycles, hdegraded⟩ := h.tally
  have hlow := count_low_le calls
  have hcyclesNat : m.cycles.toNat = calls.countP Call.isStep := by
    rw [hcycles]
    exact UInt64.toNat_ofNat_of_lt' hfew
  have hdegradedNat : m.degradedCycles.toNat = calls.count (.step false) := by
    rw [hdegraded]
    exact UInt64.toNat_ofNat_of_lt' (Nat.lt_of_le_of_lt hlow hfew)
  refine ⟨fun u hu => decoded_observe h hu, hcyclesNat, hdegradedNat, ?_, ?_⟩
  · rw [UInt64.le_iff_toNat_le, hcyclesNat, hdegradedNat]
    exact hlow
  · intro u good s' hstep m'
    have hm' : m' = (publications u).foldl Telemetry.publish m := by
      show (observe c (t ++ u)).telemetry = _
      rw [observe_append, follow_telemetry]
    obtain ⟨answer, hanswer, haccount⟩ := (runs_step hstep).account m
    rw [← hm'] at haccount
    exact ⟨answer, hanswer, haccount.communicationOk, haccount.workingCounter, haccount.drive⟩

/-- The step of the sample with the failed sequence. -/
def sampleStep : Trace := (sampleCycle {} 0x21).trace ++ (sampleFailure (.ok 3)).trace

/-- The step after it, with an exchange that fails. -/
def sampleLost : Trace :=
  sendTrace sample sampleFailed false ⟨0x3e800000⟩ (List.replicate 9 0)
      (.error (.timeout "no reply"))
    ++ [⟨.publish (.degraded 0), ()⟩]

theorem sample_called : Called sample [.step true] sampleStep sampleFailed :=
  Called.new.call (.step (Runs.of_replay rfl))

/-- A lost exchange shows in the telemetry of the sample, next to the drive of the step
before it. -/
theorem telemetry_of_called_lost :
    let m := (observe sample (sampleStep ++ sampleLost)).telemetry
    m.Decoded ∧ m.cycles.toNat = 2 ∧ m.degradedCycles.toNat = 1
      ∧ m.communicationOk = false ∧ m.workingCounter = 0
      ∧ SameDrive (observe sample sampleStep).telemetry m := by
  intro m
  have hlost : Runs (step sample sampleFailed) sampleLost (false, sampleFailed.begun false) :=
    Runs.of_replay rfl
  obtain ⟨-, -, -, -, hstep⟩ := telemetry_of_called sample_called (by decide)
  obtain ⟨answer, hanswer, hok, hcounter, hsame⟩ := hstep _ _ _ hlost
  obtain ⟨hdecoded, hcycles, hdegraded, -, -⟩ :=
    telemetry_of_called (sample_called.call (.step hlost)) (by decide)
  have hfailed : answer = .error (.timeout "no reply") := (Option.some.inj hanswer).symm
  rw [hfailed] at hcounter
  exact ⟨hdecoded _ List.prefix_rfl, hcycles, hdegraded, hok, hcounter, hsame rfl⟩

end Cyclic

end Servo
