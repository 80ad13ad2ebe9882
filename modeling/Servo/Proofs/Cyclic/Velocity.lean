/-
How the velocity of a drive is estimated where it sends none.

An estimate is the way from one position to the next by the time between them. Both are
remembered from the good cycle that brought a position last, and nothing else touches them:
the rest of a step, the inputs that an enabling sequence reads in it, degraded cycles and all
other calls do without the clock and publish no reading (`Still`). So a step estimates at
most once (`Stepped.reads`), and what is remembered is the last position that was
published and the last time at which the clock was looked at (`Remembered`).

# Signs

The way is taken in 32 bits, as the positions are. It is the true way as long as the drive
moved by less than half of that range, however often the positions came round
(`velocity_of_called`). The published number is what is left of the quotient after the way,
the time and the quotient itself are rounded, and has the sign of the way
(`Remembered.sign`).
-/
import Servo.Proofs.Cyclic.Watch
import Servo.Proofs.Seconds

namespace Servo.Cyclic

open Program

variable {c : Settings} {s s' s₁ : State} {t u v w : Trace} {x : Call} {calls : List Call}
  {good : Bool} {m : Telemetry}

-- ===================================================== reading a trace

/-- What the good cycles of a trace read, in order. -/
def readings (t : Trace) : List Reading :=
  (publications t).filterMap fun
    | .received reading _ _ _ _ => some reading
    | _ => none

/-- The positions that they read. -/
def positions (t : Trace) : List Int32 := (readings t).filterMap Reading.position

/-- The times at which the clock was looked at, in order. -/
def times (t : Trace) : List Duration :=
  t.filterMap fun
    | ⟨.now, now⟩ => some now
    | _ => none

/-- The inputs that were taken from the bus, in order. -/
def inputsTaken (t : Trace) : List Bytes :=
  t.filterMap fun
    | ⟨.bus (.inputs _), inputs⟩ => some inputs
    | _ => none

theorem readings_append : readings (t ++ u) = readings t ++ readings u := by
  unfold readings
  rw [publications_append, List.filterMap_append]

theorem positions_append : positions (t ++ u) = positions t ++ positions u := by
  unfold positions
  rw [readings_append, List.filterMap_append]

theorem times_append : times (t ++ u) = times t ++ times u := List.filterMap_append

theorem inputsTaken_append : inputsTaken (t ++ u) = inputsTaken t ++ inputsTaken u :=
  List.filterMap_append

/-- The velocity that is published after a trace. -/
def shown (m : Telemetry) (t : Trace) : Single :=
  ((publications t).foldl Telemetry.publish m).velocity

theorem shown_append : shown m (t ++ u) = shown ((publications t).foldl Telemetry.publish m) u := by
  unfold shown
  rw [publications_append, List.foldl_append]

-- ========================================================= still events

/-- The event is no part of an estimate. -/
def Still : Event → Prop
  | ⟨.now, _⟩ | ⟨.publish (.received _ _ _ _ _), _⟩ => False
  | _ => True

/-- Without a reading and without the clock, no velocity changes. -/
theorem of_still (h : ∀ e ∈ t, Still e) :
    readings t = [] ∧ times t = [] ∧ shown m t = m.velocity := by
  induction t generalizing m with
  | nil => exact ⟨rfl, rfl, rfl⟩
  | cons e t ih =>
    obtain ⟨he, ht⟩ := List.forall_mem_cons.1 h
    obtain ⟨r, a⟩ := e
    cases r with
    | now => exact he.elim
    | publish p =>
      obtain ⟨hreadings, htimes, hshown⟩ := ih (m := m.publish p) ht
      have hkept : (m.publish p).velocity = m.velocity := by
        cases p with
        | received => exact he.elim
        | _ => rfl
      cases p with
      | received => exact he.elim
      | _ => exact ⟨hreadings, htimes, hshown.trans hkept⟩
    | _ => exact ih ht

theorem still_attemptTrace {slave : UInt16} {layout : Layout} {inputs outputs sent : Bytes} :
    ∀ e ∈ Enabling.attemptTrace slave layout inputs outputs sent, Still e := by
  simp [Enabling.attemptTrace, Publication.answering, Still]

theorem attempts_still {slave : UInt16} {layout : Layout} {left : Nat} {last : Option UInt16}
    {out : Enabling.Outcome} (h : Enabling.Attempts slave layout left last t out) :
    ∀ e ∈ t, Still e := by
  induction h with
  | exhausted => simp
  | noRoom | there => exact still_attemptTrace
  | again inputs outputs answer _ _ _ ih =>
    exact List.forall_mem_append.2 ⟨still_attemptTrace, List.forall_mem_cons.2 ⟨trivial, ih⟩⟩

theorem Looked.still (h : Looked c s t) : (∀ e ∈ t, Still e) ∧ inputsTaken t = [] := by
  cases h with
  | due _ hwatched =>
    cases hwatched with
    | operational => exact ⟨by simp [Still], rfl⟩
    | lost => exact ⟨by simp [Still], rfl⟩
  | spared => exact ⟨by simp, rfl⟩

theorem Awaited.still {polls : Nat} (h : Awaited s polls t s') : ∀ e ∈ t, Still e := by
  induction h with
  | timedOut | stopped | ready => simp [Still]
  | again _ ih => exact List.forall_mem_cons.2 ⟨trivial, List.forall_mem_cons.2 ⟨trivial, ih⟩⟩

-- ============================================================ estimates

/-- What a call makes of the velocity: an estimate from the position and the time found, or
nothing. -/
inductive Estimated (s : State) : List Int32 → List Duration → State → Prop
  | found {s' : State} (position : Int32) (now : Duration) :
      s'.velocity = (estimateVelocity s position now).velocity →
      s'.lastPosition = some (position, now) → Estimated s [position] [now] s'
  | kept {s' : State} : s'.velocity = s.velocity → s'.lastPosition = s.lastPosition →
      Estimated s [] [] s'

/-- What follows the exchange of a good cycle, where the drive sends no velocity. -/
theorem runs_estimate {reading : Reading} (h : Runs (updateVelocity s reading) t s')
    (hunread : reading.velocity = none) :
    Estimated s ([reading].filterMap Reading.position) (times t) s' := by
  unfold updateVelocity at h
  rw [hunread] at h
  rw [List.filterMap_cons]
  cases hposition : reading.position with
  | some position =>
    rw [hposition, runs_perform_bind_iff] at h
    obtain ⟨now, u, rfl, h⟩ := h
    obtain ⟨rfl, rfl⟩ := runs_pure_iff.1 h
    exact .found position now rfl rfl
  | none =>
    rw [hposition] at h
    obtain ⟨rfl, rfl⟩ := runs_pure_iff.1 h
    exact .kept rfl rfl

/-- Only what is remembered of the velocity matters for an estimate. -/
theorem Estimated.congr {ps : List Int32} {ts : List Duration} (h : Estimated s₁ ps ts s')
    (hvelocity : s₁.velocity = s.velocity) (hlast : s₁.lastPosition = s.lastPosition) :
    Estimated s ps ts s' := by
  cases h with
  | found position now hfound hremembered =>
    refine .found position now ?_ hremembered
    rw [hfound]
    unfold estimateVelocity
    rw [hvelocity, hlast]
  | kept hv hl => exact .kept (hv.trans hvelocity) (hl.trans hlast)

/-- And only what is then remembered. -/
theorem Estimated.to {ps : List Int32} {ts : List Duration} (h : Estimated s ps ts s₁)
    (hvelocity : s'.velocity = s₁.velocity) (hlast : s'.lastPosition = s₁.lastPosition) :
    Estimated s ps ts s' := by
  cases h with
  | found position now hfound hremembered =>
    exact .found position now (hvelocity.trans hfound) (hlast.trans hremembered)
  | kept hv hl => exact .kept (hvelocity.trans hv) (hlast.trans hl)

/-- What a call found is remembered, or what was remembered before. -/
theorem Estimated.last {ps : List Int32} {ts : List Duration} (h : Estimated s ps ts s') :
    s'.lastPosition.map Prod.fst = ps.getLast?.or (s.lastPosition.map Prod.fst)
      ∧ s'.lastPosition.map Prod.snd = ts.getLast?.or (s.lastPosition.map Prod.snd) := by
  cases h with
  | found position now _ hlast =>
    rw [hlast]
    exact ⟨rfl, rfl⟩
  | kept _ hlast =>
    rw [hlast]
    exact ⟨rfl, rfl⟩

theorem Estimated.of_nil {ts : List Duration} (h : Estimated s [] ts s') : s'.velocity = s.velocity := by
  cases h with
  | kept hvelocity _ => exact hvelocity

/-- A good cycle reads the inputs that it takes, a degraded one takes none; what is
remembered of the velocity is what is published. -/
theorem Cycled.reads (h : Cycled c s t (good, s')) :
    (if good then ∃ inputs, inputsTaken t = [inputs] ∧ readings t = [readInputs c.layout inputs]
        else inputsTaken t = [] ∧ readings t = [])
      ∧ (∀ m, m.velocity = s.velocity → shown m t = s'.velocity)
      ∧ ((∀ reading ∈ readings t, reading.velocity = none) →
        Estimated s (positions t) (times t) s') := by
  cases h with
  | degraded again setpoint outputs answer _ =>
    exact ⟨⟨rfl, rfl⟩, fun _ hm => hm, fun _ => .kept rfl rfl⟩
  | @good again setpoint outputs answer inputs clock _ _ hclock =>
    have hnow := (runs_updateVelocity hclock).1
    have hread : Cyclic.publications (⟨.bus (.inputs c.slave), inputs⟩ :: clock) = [] :=
      filterMap_reading rfl (fun _ => rfl) hnow
    have hpublished (p : Publication) : Cyclic.publications
        (sendTrace c s again setpoint outputs answer ++ ⟨.bus (.inputs c.slave), inputs⟩ :: clock
          ++ [⟨.publish p, ()⟩]) = [p] := by
      rw [publications_append, publications_append, hread]
      rfl
    refine ⟨⟨inputs, ?_, ?_⟩, fun m _ => ?_, fun hunread => ?_⟩
    · have hclocked : inputsTaken clock = [] := by
        refine List.filterMap_eq_nil_iff.2 fun e he => ?_
        obtain ⟨now, rfl⟩ := hnow e he
        rfl
      rw [inputsTaken_append, inputsTaken_append]
      show [] ++ inputs :: inputsTaken clock ++ [] = _
      rw [hclocked]
      rfl
    · unfold readings
      rw [hpublished]
      rfl
    · unfold shown
      rw [hpublished]
      rfl
    · unfold positions readings at *
      rw [hpublished] at hunread ⊢
      have hestimated := runs_estimate hclock (hunread _ List.mem_cons_self)
      rw [times_append, times_append]
      show Estimated s _ ([] ++ times clock ++ []) s'
      rw [List.append_nil]
      exact hestimated.congr rfl rfl

theorem State.settle_estimate (s : State) (o : Enabling.Outcome) :
    (s.settle o).velocity = s.velocity ∧ (s.settle o).lastPosition = s.lastPosition := by
  unfold State.settle
  split <;> exact ⟨rfl, rfl⟩

/-- What a step does after its cycle is no part of an estimate. -/
theorem Stepped.cycle (h : Stepped c s t (good, s')) :
    ∃ u v s₁, t = u ++ v ∧ Cycled c s u (good, s₁) ∧ (∀ e ∈ v, Still e)
      ∧ (s'.velocity = s₁.velocity ∧ s'.lastPosition = s₁.lastPosition)
      ∧ (good = false → inputsTaken v = []) := by
  cases h with
  | plain hcycle _ hlooked =>
    obtain ⟨hstill, htaken⟩ := hlooked.still
    exact ⟨_, _, _, rfl, hcycle, hstill, ⟨rfl, rfl⟩, fun _ => htaken⟩
  | @enabling u v w s₁ outcome hcycle _ hattempts hlooked =>
    have hstill := List.forall_mem_append.2 ⟨attempts_still hattempts, hlooked.still.1⟩
    exact ⟨u, v ++ w, s₁, List.append_assoc .., hcycle, hstill, s₁.settle_estimate outcome, nofun⟩

/-- A step reads what its cycle does, first of all. -/
theorem Stepped.reads (h : Stepped c s t (good, s')) :
    (if good then ∃ inputs, (inputsTaken t).head? = some inputs
          ∧ readings t = [readInputs c.layout inputs]
        else inputsTaken t = [] ∧ readings t = [])
      ∧ (∀ m, m.velocity = s.velocity → shown m t = s'.velocity)
      ∧ ((∀ reading ∈ readings t, reading.velocity = none) →
        Estimated s (positions t) (times t) s') := by
  obtain ⟨u, v, s₁, rfl, hcycle, hstill, ⟨hvelocity, hlast⟩, htaken⟩ := h.cycle
  obtain ⟨hreads, hshown, hestimated⟩ := hcycle.reads
  obtain ⟨hnone, hnotimes, -⟩ := of_still (m := {}) hstill
  have hreadings : readings (u ++ v) = readings u := by
    rw [readings_append, hnone, List.append_nil]
  refine ⟨?_, fun m hm => ?_, fun hunread => ?_⟩
  · rw [hreadings, inputsTaken_append]
    cases good with
    | false =>
      obtain ⟨hinputs, hread⟩ := hreads
      refine ⟨?_, hread⟩
      rw [hinputs, htaken rfl]
      rfl
    | true =>
      obtain ⟨inputs, hinputs, hread⟩ := hreads
      refine ⟨inputs, ?_, hread⟩
      rw [hinputs]
      rfl
  · rw [shown_append, (of_still hstill).2.2, hvelocity]
    exact hshown m hm
  · have htimes : times (u ++ v) = times u := by
      rw [times_append, hnotimes, List.append_nil]
    rw [hreadings] at hunread
    unfold positions at hestimated ⊢
    rw [hreadings, htimes]
    exact (hestimated hunread).to hvelocity hlast

-- ========================================================== remembering

/-- What is remembered is what the last estimate left, and what is published. -/
structure Remembered (t : Trace) (s : State) : Prop where
  position : s.lastPosition.map Prod.fst = (positions t).getLast?
  time : s.lastPosition.map Prod.snd = (times t).getLast?
  velocity : shown {} t = s.velocity

/-- A call without an estimate. -/
theorem Remembered.still (h : Remembered t s) (hu : ∀ e ∈ u, Still e)
    (hvelocity : s'.velocity = s.velocity) (hlast : s'.lastPosition = s.lastPosition) :
    Remembered (t ++ u) s' := by
  obtain ⟨hreadings, htimes, -⟩ := of_still (m := {}) hu
  have hpositions : positions u = [] := congrArg (List.filterMap Reading.position) hreadings
  constructor
  case position => rw [positions_append, hpositions, List.append_nil, hlast, h.position]
  case time => rw [times_append, htimes, List.append_nil, hlast, h.time]
  case velocity =>
    rw [shown_append, (of_still hu).2.2, hvelocity]
    exact h.velocity

/-- A call with one at most. -/
theorem Remembered.estimated (h : Remembered t s) (hu : Estimated s (positions u) (times u) s')
    (hshown : ∀ m, m.velocity = s.velocity → shown m u = s'.velocity) :
    Remembered (t ++ u) s' := by
  obtain ⟨hposition, htime⟩ := hu.last
  constructor
  case position => rw [positions_append, List.getLast?_append, ← h.position, hposition]
  case time => rw [times_append, List.getLast?_append, ← h.time, htime]
  case velocity =>
    rw [shown_append]
    exact hshown _ h.velocity

/-- Every call keeps it so. -/
theorem Remembered.returned (h : Remembered t s) (hx : Returned c s x u s')
    (hunread : ∀ reading ∈ readings u, reading.velocity = none) : Remembered (t ++ u) s' := by
  cases hx with
  | waitForMaster hwait =>
    have hawaited := (runs_waitForMaster hwait).1
    have hsame : s' = { s with phase := s'.phase } := hawaited.state_eq
    rw [hsame]
    exact h.still hawaited.still rfl rfl
  | look stopped => exact h.still (List.forall_mem_singleton.2 trivial) rfl rfl
  | step hstep =>
    obtain ⟨-, hshown, hestimated⟩ := (runs_step hstep).reads
    exact h.estimated (hestimated hunread) hshown
  | stop hstop =>
    obtain ⟨rfl, outputs, answer, rfl⟩ := runs_stop hstop
    exact h.still (by simp [stopTrace, Still]) rfl rfl

theorem Called.remembered (h : Called c calls t s)
    (hunread : ∀ reading ∈ readings t, reading.velocity = none) : Remembered t s := by
  induction h with
  | new => exact ⟨rfl, rfl, rfl⟩
  | call _ hx ih =>
    rw [readings_append, List.forall_mem_append] at hunread
    exact (ih hunread.1).returned hx hunread.2

theorem observe_velocity (t : Trace) : (observe c t).telemetry.velocity = shown {} t := by
  unfold observe
  rw [follow_telemetry]
  rfl

-- ============================================================= velocity

/-- The times come one after the other. -/
def Advancing (ts : List Duration) : Prop :=
  (ts.map Duration.totalNanoseconds).Pairwise (· < ·)

instance (ts : List Duration) : Decidable (Advancing ts) :=
  inferInstanceAs (Decidable ((ts.map Duration.totalNanoseconds).Pairwise (· < ·)))

/-- An estimate is rounded more than once, and has the sign of the way from the last position
that was read all the same. -/
theorem Remembered.sign {position : Int32} {ts : List Duration} (h : Remembered t s)
    (hu : Estimated s [position] ts s') (hclock : Advancing (times t ++ ts)) :
    s'.velocity.sign?
      = some (((positions t).getLast?.map (position - ·)).getD 0).toInt.sign := by
  obtain ⟨hposition, htime, -⟩ := h
  cases hu with
  | found _ now hvelocity _ =>
    rw [hvelocity, ← hposition]
    unfold estimateVelocity
    cases hlast : s.lastPosition with
    | none => exact Single.sign?_zero
    | some remembered =>
      obtain ⟨last, time⟩ := remembered
      rw [hlast] at htime
      unfold Advancing at hclock
      rw [List.map_append] at hclock
      obtain ⟨-, -, hbefore⟩ := List.pairwise_append.1 hclock
      have hlt := hbefore _ (List.mem_map_of_mem (List.mem_of_getLast? htime.symm)) _
        List.mem_cons_self
      have helapsed : 0 < (now.since time).totalNanoseconds := by
        rw [Duration.totalNanoseconds_since]
        exact Nat.sub_pos_of_lt hlt
      dsimp only
      rw [if_pos ((Duration.sign?_asSeconds _).2 helapsed)]
      have hlow := (position - last).le_toInt
      have hhigh := (position - last).toInt_lt
      exact Duration.sign?_div_asSeconds (by omega) helapsed

/-- A difference in 32 bits is the true one, if that is less than half the range. -/
theorem toInt_sub_ofInt {a b : Int} (h : (a - b).natAbs < 2 ^ 31) :
    (Int32.ofInt a - Int32.ofInt b).toInt = a - b := by
  rw [← Int32.ofInt_sub]
  exact Int32.toInt_ofInt_of_le (by omega) (by omega)

/-- After any calls, as long as the drive sends no velocity and the clock goes on between any
two looks at it. A degraded step leaves the velocity, and so does a step that reads no
position. A step that reads one, from the inputs that its own exchange brought, shows a
velocity with the sign of the way from the position that was read last, taken in 32 bits; or
zero, if there was none. The way is the true one if that is less than half the range. -/
theorem velocity_of_called (h : Called c calls t s) (hstep : Runs (step c s) u (good, s'))
    (hunread : ∀ reading ∈ readings (t ++ u), reading.velocity = none)
    (hclock : Advancing (times (t ++ u))) :
    let before := (observe c t).telemetry.velocity
    let velocity := (observe c (t ++ u)).telemetry.velocity
    if good then ∃ inputs, (inputsTaken u).head? = some inputs
      ∧ readings u = [readInputs c.layout inputs]
      ∧ (c.layout.position.get? inputs = none → velocity = before)
      ∧ ∀ position, c.layout.position.get? inputs = some position →
        let travel := ((positions t).getLast?.map (position - ·)).getD 0
        velocity.sign? = some travel.toInt.sign
          ∧ ∀ here there : Int, position = .ofInt here →
            (positions t).getLast? = some (.ofInt there) → (here - there).natAbs < 2 ^ 31 →
              travel.toInt = here - there
    else inputsTaken u = [] ∧ readings u = [] ∧ velocity = before := by
  rw [readings_append, List.forall_mem_append] at hunread
  have hremembered := h.remembered hunread.1
  obtain ⟨hreads, hpublished, hestimated⟩ := (runs_step hstep).reads
  have hfound := hestimated hunread.2
  intro before velocity
  have hbefore : before = s.velocity := (observe_velocity t).trans hremembered.velocity
  have hshown : velocity = s'.velocity :=
    (observe_velocity (t ++ u)).trans (hremembered.estimated hfound hpublished).velocity
  rw [hbefore, hshown]
  cases good with
  | false =>
    obtain ⟨hinputs, hreadings⟩ := hreads
    rw [positions, hreadings] at hfound
    exact ⟨hinputs, hreadings, hfound.of_nil⟩
  | true =>
    obtain ⟨inputs, hinputs, hreadings⟩ := hreads
    rw [positions, hreadings, List.filterMap_cons] at hfound
    refine ⟨inputs, hinputs, hreadings, fun hposition => ?_, fun position hposition => ?_⟩
    · rw [show (readInputs c.layout inputs).position = none from hposition] at hfound
      exact hfound.of_nil
    · rw [show (readInputs c.layout inputs).position = some position from hposition] at hfound
      rw [times_append] at hclock
      refine ⟨hremembered.sign hfound hclock, fun here there hhere hthere hshort => ?_⟩
      rw [hthere, hhere]
      exact toInt_sub_ofInt hshort

/-- The inputs of an enabled drive at some position. -/
def inputsAt (position : Int32) : Bytes :=
  Packed.bytes (0x237 : UInt16) ++ [4] ++ Packed.bytes position ++ [0, 0]

/-- What a good cycle does with them, from outputs with a control word. -/
def cycleAt (s : State) (command : UInt8) (position : Int32) (now : Duration)
    (velocity : Single) : Trace :=
  sendTrace sample s false ⟨0⟩ (command :: List.replicate 8 0) (.ok 3)
    ++ [⟨.bus (.inputs sample.slave), inputsAt position⟩, ⟨.now, now⟩,
      ⟨.publish (.received ⟨0x237, some 4, some position, some 0, none⟩ .operationEnabled velocity
        s.controlword 3), ()⟩]

/-- A first step just below the end of the range. The drive is found enabled, and elsewhere. -/
def nearEnd : Trace :=
  cycleAt {} 6 2147483600 (.ofMilliseconds 1) .zero
    ++ Enabling.attemptTrace sample.slave .standard (inputsAt 0) (6 :: List.replicate 8 0)
      (15 :: List.replicate 8 0)

def atNearEnd : State where
  controlword := 15
  drive := .operationEnabled
  enablePending := false
  ticks := 1
  lastPosition := some (2147483600, .ofMilliseconds 1)

/-- A step without a reply after it. -/
def unanswered : Trace :=
  sendTrace sample atNearEnd false ⟨0⟩ (15 :: List.replicate 8 0) (.error (.timeout "no reply"))
    ++ [⟨.publish (.degraded 0), ()⟩]

/-- Increments in a millisecond: 95999.99, since a thousandth of a second is rounded up. -/
def aroundVelocity : Single := ⟨0x47bb7fff⟩

/-- A step after that, a millisecond later. The drive has gone round the end. -/
def around : Trace :=
  cycleAt (atNearEnd.begun false) 15 (-2147483600) (.ofMilliseconds 2) aroundVelocity

/-- The drive is at the other end of the range by then, and still went on. -/
theorem velocity_of_called_around :
    let t := nearEnd ++ unanswered ++ around
    (observe sample t).telemetry.position.toInt < 0
      ∧ (observe sample t).telemetry.velocity.sign? = some 1 := by
  intro t
  have hfirst : Runs (step sample {}) nearEnd (true, atNearEnd) := Runs.of_replay rfl
  have hlost : Runs (step sample atNearEnd) unanswered (false, atNearEnd.begun false) :=
    Runs.of_replay rfl
  have hcalled : Called sample [.step true, .step false] (nearEnd ++ unanswered)
      (atNearEnd.begun false) := (Called.new.call (.step hfirst)).call (.step hlost)
  have hlast : Runs (step sample (atNearEnd.begun false)) around
      (true, { (atNearEnd.begun false).begun false with
        lastPosition := some (-2147483600, .ofMilliseconds 2), velocity := aroundVelocity }) :=
    Runs.of_replay (by decide +kernel)
  obtain ⟨inputs, hinputs, -, -, hshows⟩ :=
    velocity_of_called hcalled hlast (by decide) (by decide)
  obtain rfl : inputs = inputsAt (-2147483600) := (Option.some.inj hinputs).symm
  exact ⟨by decide, (hshows (-2147483600) (by decide)).1⟩

end Servo.Cyclic
