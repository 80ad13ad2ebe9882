/-
Everything that can happen in the life of a cyclic exchange.

A session is cut into stretches: waiting for the master, looking at the stop
flag, and stopping are one stretch each, and a step is up to three, its cycle,
the enabling sequence if it is due, and a look at the slave if that is due. Each
stretch keeps what it did and the trace of it, so a log of stretches says which
exchange of process data was a step's own and how every enabling sequence ended,
which a bare trace does not.

`Session c log p` holds when the exchange, made new, can have `log` behind it
and be at `p`. The operations may come in any order; what the control side does
in between is in the answers. `Session.step` and `Session.run` say that nothing
is missing: a step from wherever the exchange rests, and the whole loop from the
start, only do what a session does.

# Reading a log

`At log before x pre e` names one event: `x` is the stretch it belongs to,
`before` the stretches before that one, `pre` what `x` did until then.
-/
import Servo.Proofs.Cyclic.Rules

namespace Servo.Cyclic

open Program

-- ============================================================ stretches

/-- What a stretch of a session does, and what came of it. -/
inductive Act
  | wait (ready : Bool)
  /-- Looks at the stop flag, between two steps. -/
  | poll (stopped : Bool)
  /-- The exchange of a step; whether it was a good one. -/
  | cycle (good : Bool)
  /-- The enabling sequence that a step runs. -/
  | enabling (outcome : Enabling.Outcome)
  /-- Looks at the state of the slave, at the end of a step. -/
  | watch
  | stop

/-- A stretch of a session. -/
structure Stretch where
  act : Act
  trace : Trace

/-- The exchange of the stretch, if it makes one, is that of a step itself. -/
def Stretch.IsCycle (x : Stretch) : Prop := ∃ good, x.act = .cycle good

/-- The stretch is an enabling sequence. -/
def Stretch.IsEnabling (x : Stretch) : Prop := ∃ outcome, x.act = .enabling outcome

/-- Where a session is between two stretches. -/
structure Point where
  state : State := {}
  /-- The step that was begun goes on with the enabling sequence. -/
  enablingDue : Bool := false
  /-- The step that was begun ends with a look at the slave. -/
  watchDue : Bool := false

/-- No step was begun that is not done. -/
def Point.Idle (p : Point) : Prop := p.enablingDue = false ∧ p.watchDue = false

/-- One stretch, from one point to the next. -/
inductive Move (c : Settings) : Point → Stretch → Point → Prop
  | wait {p : Point} {t : Trace} {ready : Bool} {s : State} :
      p.Idle → Runs (waitForMaster c p.state) t (ready, s) →
      Move c p ⟨.wait ready, t⟩ { p with state := s }
  | poll {p : Point} (stopped : Bool) :
      p.Idle → Move c p ⟨.poll stopped, [⟨.isStopped, stopped⟩]⟩ p
  | cycle {p : Point} {t : Trace} {good : Bool} {s : State} :
      p.Idle → Runs (cycle c p.state) t (good, s) →
      Move c p ⟨.cycle good, t⟩ ⟨s, good && s.enablePending, watchDue c.timing s.ticks⟩
  | enabling {p : Point} {t : Trace} {outcome : Enabling.Outcome} :
      p.enablingDue = true → Runs (Enabling.sequence c.slave c.layout c.timing) t outcome →
      Move c p ⟨.enabling outcome, t⟩
        { p with state := p.state.settle outcome, enablingDue := false }
  | watch {p : Point} {t : Trace} :
      p.enablingDue = false → p.watchDue = true → Runs (watchSlave c.slave) t () →
      Move c p ⟨.watch, t⟩ { p with watchDue := false }
  | stop {p : Point} {t : Trace} {s : State} :
      p.Idle → Runs (stop c p.state) t s → Move c p ⟨.stop, t⟩ { p with state := s }

/-- A new exchange can have these stretches behind it, and be at this point. -/
inductive Session (c : Settings) : List Stretch → Point → Prop
  | new : Session c [] {}
  | move {log : List Stretch} {p p' : Point} {x : Stretch} :
      Session c log p → Move c p x p' → Session c (log ++ [x]) p'

/-- The events of a log, in order. -/
def events (log : List Stretch) : Trace := log.flatMap Stretch.trace

@[simp] theorem events_nil : events [] = [] := rfl

@[simp] theorem events_append (log log' : List Stretch) :
    events (log ++ log') = events log ++ events log' :=
  List.flatMap_append

@[simp] theorem events_singleton (x : Stretch) : events [x] = x.trace := by
  unfold events
  rw [List.flatMap_cons, List.flatMap_nil, List.append_nil]

variable {c : Settings} {log before after : List Stretch} {p p' : Point} {x : Stretch}

/-- The stretch of a cycle is one way through a cycle, from the state at hand to the next.
-/
theorem Move.cycled (h : Move c p x p') (hx : x.IsCycle) :
    ∃ good, Cycled c p.state x.trace (good, p'.state) := by
  obtain ⟨good, hact⟩ := hx
  cases h with
  | cycle _ ht => exact ⟨_, runs_cycle ht⟩
  | wait | poll | enabling | watch | stop => cases hact

/-- That of a sequence is one way through the sequence, which was due, and settles the
state. -/
theorem Move.attempts (h : Move c p x p') (hx : x.IsEnabling) :
    p.enablingDue = true
      ∧ ∃ outcome, x.act = .enabling outcome ∧ p'.state = p.state.settle outcome
        ∧ Enabling.Attempts c.slave c.layout c.timing.enableAttempts.toNat none x.trace
          outcome := by
  obtain ⟨outcome, hact⟩ := hx
  cases h with
  | enabling hdue ht => exact ⟨hdue, _, rfl, rfl, Enabling.runs_attempts ht⟩
  | wait | poll | cycle | watch | stop => cases hact

-- ========================================================= inside a log

/-- An event of a log: `x` made it after `pre`, and `before` came before `x`. -/
def At (log before : List Stretch) (x : Stretch) (pre : Trace) (e : Event) : Prop :=
  ∃ after post, log = before ++ x :: after ∧ x.trace = pre ++ e :: post

/-- Every stretch of a session is a move from where the session was before it. -/
theorem Session.split (h : Session c log p) (hlog : log = before ++ x :: after) :
    ∃ q q', Session c before q ∧ Move c q x q' := by
  induction h generalizing after with
  | new => exact absurd hlog.symm (List.append_ne_nil_of_right_ne_nil _ (List.cons_ne_nil _ _))
  | move hs hm ih =>
    rcases List.eq_nil_or_concat after with rfl | ⟨after, y, rfl⟩
    · obtain ⟨rfl, hx⟩ := List.append_inj' hlog rfl
      cases hx
      exact ⟨_, _, hs, hm⟩
    · rw [List.concat_eq_append, ← List.cons_append, ← List.append_assoc] at hlog
      obtain ⟨hlog, -⟩ := List.append_inj' hlog rfl
      exact ih hlog

/-- Every event of a session was made by one of its stretches. -/
theorem exists_at {u v : Trace} {e : Event} (h : events log = u ++ e :: v) :
    ∃ before x pre, At log before x pre e ∧ u = events before ++ pre := by
  induction log generalizing u with
  | nil => exact absurd h.symm (List.append_ne_nil_of_right_ne_nil _ (List.cons_ne_nil _ _))
  | cons y rest ih =>
    -- the event is behind `y`, or `y` made it
    have hbehind {w : Trace} (hu : u = y.trace ++ w) (hw : events rest = w ++ e :: v) :
        ∃ before x pre, At (y :: rest) before x pre e ∧ u = events before ++ pre := by
      obtain ⟨before, x, pre, ⟨after, post, rfl, hx⟩, rfl⟩ := ih hw
      exact ⟨y :: before, x, pre, ⟨after, post, rfl, hx⟩, hu.trans (List.append_assoc ..).symm⟩
    rcases List.append_eq_append_iff.1 (show y.trace ++ events rest = u ++ e :: v from h) with
      ⟨w, hu, hw⟩ | ⟨w, hy, hw⟩
    · exact hbehind hu hw
    · cases w with
      | nil =>
        rw [List.append_nil] at hy
        exact hbehind (w := []) (by rw [hy, List.append_nil]) hw.symm
      | cons e' w =>
        obtain ⟨rfl, -⟩ := List.cons.inj hw
        exact ⟨[], y, u, ⟨rest, w, rfl, hy⟩, rfl⟩

theorem Session.move_of_mem (h : Session c log p) (hx : x ∈ log) : ∃ q q', Move c q x q' := by
  obtain ⟨before, after, hlog⟩ := List.append_of_mem hx
  obtain ⟨q, q', -, hm⟩ := h.split hlog
  exact ⟨q, q', hm⟩

-- ============================================== the programs are covered

@[simp] theorem State.settle_ticks (s : State) (o : Enabling.Outcome) :
    (s.settle o).ticks = s.ticks := by
  unfold State.settle
  split <;> rfl

/-- The enabling sequence of a step, where it is due. -/
theorem Session.enable {s s' : State} {good watch : Bool} {t : Trace}
    (h : Session c log ⟨s, good && s.enablePending, watch⟩)
    (ht : Runs (enableIfDue c good s) t s') :
    s'.ticks = s.ticks
      ∧ ∃ log', Session c (log ++ log') ⟨s', false, watch⟩ ∧ events log' = t
        ∧ ∀ y ∈ log', ¬ y.IsCycle := by
  unfold enableIfDue at ht
  cases hdue : good && s.enablePending with
  | true =>
    rw [hdue] at h
    rw [hdue, if_pos rfl, runs_bind_iff] at ht
    obtain ⟨u, o, v, rfl, hseq, hv⟩ := ht
    obtain ⟨rfl, rfl⟩ := runs_pure_iff.1 hv
    refine ⟨State.settle_ticks s o, [⟨.enabling o, u⟩], h.move (.enabling rfl hseq), ?_,
      List.forall_mem_singleton.2 nofun⟩
    rw [events_singleton, List.append_nil]
  | false =>
    rw [hdue] at h
    rw [hdue, if_neg Bool.false_ne_true] at ht
    obtain ⟨rfl, rfl⟩ := runs_pure_iff.1 ht
    exact ⟨rfl, [], by rw [List.append_nil]; exact h, rfl, List.forall_mem_nil _⟩

/-- The look at the slave at the end of a step, where it is due. -/
theorem Session.watch {s : State} {t : Trace} {v : Unit}
    (h : Session c log ⟨s, false, watchDue c.timing s.ticks⟩) (ht : Runs (watchIfDue c s) t v) :
    ∃ log', Session c (log ++ log') { state := s } ∧ events log' = t
      ∧ ∀ y ∈ log', ¬ y.IsCycle := by
  unfold watchIfDue at ht
  cases hdue : watchDue c.timing s.ticks with
  | true =>
    rw [hdue] at h
    rw [hdue, if_pos rfl] at ht
    exact ⟨[⟨.watch, t⟩], h.move (.watch rfl rfl ht), events_singleton _,
      List.forall_mem_singleton.2 nofun⟩
  | false =>
    rw [hdue] at h
    rw [hdue, if_neg Bool.false_ne_true] at ht
    obtain ⟨rfl, -⟩ := runs_pure_iff.1 ht
    exact ⟨[], by rw [List.append_nil]; exact h, rfl, List.forall_mem_nil _⟩

/-- A step only does what a session does: a cycle, and then no other one. -/
theorem Session.stepped {s s' : State} {t : Trace} {good : Bool}
    (h : Session c log { state := s }) (ht : Runs (step c s) t (good, s')) :
    ∃ u rest, Session c (log ++ ⟨.cycle good, u⟩ :: rest) { state := s' }
      ∧ u ++ events rest = t ∧ ∀ y ∈ rest, ¬ y.IsCycle := by
  unfold Cyclic.step at ht
  rw [runs_bind_iff] at ht
  obtain ⟨u, ⟨good', s₁⟩, v, rfl, hcycle, ht⟩ := ht
  dsimp only at ht
  rw [runs_bind_iff] at ht
  obtain ⟨v, s₂, w, rfl, henable, ht⟩ := ht
  rw [runs_bind_iff] at ht
  obtain ⟨w, _, z, rfl, hwatch, ht⟩ := ht
  obtain ⟨rfl, hr⟩ := runs_pure_iff.1 ht
  cases hr
  have h₁ := h.move (.cycle ⟨rfl, rfl⟩ hcycle)
  obtain ⟨hticks, log₂, h₂, rfl, hseq⟩ := h₁.enable henable
  rw [← hticks] at h₂
  obtain ⟨log₃, h₃, rfl, hlook⟩ := h₂.watch hwatch
  refine ⟨u, log₂ ++ log₃, ?_, ?_, List.forall_mem_append.2 ⟨hseq, hlook⟩⟩
  · rw [← List.singleton_append, ← List.append_assoc, ← List.append_assoc]
    exact h₃
  · rw [events_append, List.append_nil]

/-- A step, as stretches that follow those before. -/
theorem Session.step {s s' : State} {t : Trace} {good : Bool} (h : Session c log { state := s })
    (ht : Runs (step c s) t (good, s')) :
    ∃ log', Session c (log ++ log') { state := s' } ∧ events log' = t := by
  obtain ⟨u, rest, hs, hevents, -⟩ := h.stepped ht
  exact ⟨_, hs, hevents⟩

/-- Stepping until a stop is asked for only does what a session does, also if that takes too
many steps. -/
theorem Session.steps {bound : Nat} {s : State} {t : Trace} {r : Option State}
    (h : Session c log { state := s }) (ht : Runs (steps c bound s) t r) :
    ∃ log' s', Session c (log ++ log') { state := s' } ∧ events log' = t
      ∧ ∀ s₁, r = some s₁ → s' = s₁ := by
  induction bound generalizing log s t with
  | zero =>
    unfold Cyclic.steps at ht
    obtain ⟨rfl, rfl⟩ := runs_pure_iff.1 ht
    exact ⟨[], s, by rwa [List.append_nil], rfl, nofun⟩
  | succ bound ih =>
    unfold Cyclic.steps at ht
    rw [runs_perform_bind_iff] at ht
    obtain ⟨stopped, u, rfl, ht⟩ := ht
    have h₁ := h.move (.poll stopped ⟨rfl, rfl⟩)
    cases stopped with
    | true =>
      obtain ⟨rfl, rfl⟩ := runs_pure_iff.1 ht
      exact ⟨_, s, h₁, events_singleton _, fun _ hs => Option.some.inj hs⟩
    | false =>
      rw [if_neg Bool.false_ne_true, runs_bind_iff] at ht
      obtain ⟨u, ⟨good, s₁⟩, v, rfl, hstep, ht⟩ := ht
      obtain ⟨log₂, h₂, rfl⟩ := h₁.step hstep
      obtain ⟨log₃, s', h₃, rfl, hs'⟩ := ih h₂ ht
      refine ⟨[⟨.poll false, [⟨.isStopped, false⟩]⟩] ++ log₂ ++ log₃, s', ?_, ?_, hs'⟩
      · rw [← List.append_assoc, ← List.append_assoc]
        exact h₃
      · rw [events_append, events_append, events_singleton, List.append_assoc]
        rfl

/-- The whole exchange, from waiting for the master to the stop, only does what
a session does. -/
theorem Session.run {bound : Nat} {t : Trace} {r : Option State} (ht : Runs (run c bound {}) t r) :
    ∃ log p, Session c log p ∧ events log = t := by
  unfold Cyclic.run at ht
  rw [runs_bind_iff] at ht
  obtain ⟨u, ⟨ready, s₁⟩, v, rfl, hwait, ht⟩ := ht
  have h₁ := Session.new.move (.wait (c := c) ⟨rfl, rfl⟩ hwait)
  cases ready with
  | false =>
    obtain ⟨rfl, -⟩ := runs_pure_iff.1 ht
    refine ⟨_, _, h₁, ?_⟩
    rw [List.nil_append, events_singleton, List.append_nil]
  | true =>
    dsimp only at ht
    rw [if_pos rfl] at ht
    unfold finish at ht
    rw [runs_bind_iff] at ht
    obtain ⟨v, r', w, rfl, hsteps, ht⟩ := ht
    obtain ⟨log₂, s₂, h₂, rfl, hs₂⟩ := h₁.steps hsteps
    cases r' with
    | none =>
      obtain ⟨rfl, -⟩ := runs_pure_iff.1 ht
      refine ⟨_, _, h₂, ?_⟩
      rw [List.nil_append, events_append, events_singleton, List.append_nil]
    | some s₃ =>
      obtain rfl := hs₂ s₃ rfl
      dsimp only at ht
      rw [runs_bind_iff] at ht
      obtain ⟨w, s₃, z, rfl, hstop, ht⟩ := ht
      obtain ⟨rfl, -⟩ := runs_pure_iff.1 ht
      refine ⟨_, _, h₂.move (.stop ⟨rfl, rfl⟩ hstop), ?_⟩
      rw [List.nil_append, events_append, events_append, events_singleton, events_singleton,
        List.append_nil, List.append_assoc]

end Servo.Cyclic
