/-
When a step of the cyclic exchange runs the enabling sequence.

The control side can ask for the sequence at any moment. The request is a flag, which
every step takes away as it begins, and which only a step of a good cycle acts on; a
step of a degraded one remembers it. `sequence_iff` says that this neither loses a
request nor answers one twice: whatever comes in between, a step runs the sequence
exactly if its cycle is a good one and the sequence is owed (`Owed`). It is about
sessions; `step_sequence_iff` and `run_sequence_iff` say it of the programs.

# Histories

A history merges what the cyclic side did, which is a session, with what the control
side did; this may lie anywhere, in the middle of a step or of a sequence too. All that
ties the two together is the board, which answers the one side and is acted on by the
other (`Passes`).

# The invariant

A request is on its way as long as the flag on the board is raised or a step has taken
it and waits for a good cycle. From the moment at which the last step with a sequence
took the flag, a request is on its way exactly if one was made since
(`pending_iff_asked`); one stretch after the other keeps this (`Move.pending_iff`).
-/
import Servo.Proofs.Cyclic.Board
import Servo.Proofs.Cyclic.Interlock
import Servo.Proofs.Cyclic.Steps

namespace Servo.Cyclic

open Program

variable {c : Settings} {log before after : List Stretch} {p q : Point} {x y : Stretch}
  {t u : Trace} {b b' : Board} {h past mid m : List Moment}

-- ============================================================== chains

/-- Stretches one behind the other, from one point to another. -/
inductive Moves (c : Settings) : Point → List Stretch → Point → Prop
  | nil {p : Point} : Moves c p [] p
  | cons {p q r : Point} {x : Stretch} {log : List Stretch} :
      Move c p x q → Moves c q log r → Moves c p (x :: log) r

theorem Moves.concat {r : Point} (h : Moves c p log q) (hm : Move c q x r) :
    Moves c p (log ++ [x]) r := by
  induction h with
  | nil => exact .cons hm .nil
  | cons hfirst _ ih => exact .cons hfirst (ih hm)

/-- A session passes through a point behind each part of its log. -/
theorem Session.cut (h : Session c log p) (hlog : log = before ++ after) :
    ∃ q, Session c before q ∧ Moves c q after p := by
  induction h generalizing after with
  | new =>
    obtain ⟨rfl, rfl⟩ := List.append_eq_nil_iff.1 hlog.symm
    exact ⟨_, .new, .nil⟩
  | move hs hm ih =>
    rcases List.eq_nil_or_concat after with rfl | ⟨after, z, rfl⟩
    · rw [List.append_nil] at hlog
      subst hlog
      exact ⟨_, hs.move hm, .nil⟩
    · rw [List.concat_eq_append] at hlog ⊢
      rw [← List.append_assoc] at hlog
      obtain ⟨hfront, hz⟩ := List.append_inj' hlog rfl
      obtain ⟨q, hq, hmoves⟩ := ih hfront
      obtain rfl := List.cons.inj hz |>.1
      exact ⟨q, hq, hmoves.concat hm⟩

/-- Where a sequence is due, it is what comes next, and it comes nowhere else. -/
theorem Move.isEnabling_iff (h : Move c p x q) : x.IsEnabling ↔ p.enablingDue = true := by
  constructor
  · intro hx
    exact (h.attempts hx).1
  · intro hdue
    cases h with
    | enabling => exact ⟨_, rfl⟩
    | watch hnot => rw [hnot] at hdue; cases hdue
    | wait hidle | poll _ hidle | cycle hidle | stop hidle => rw [hidle.1] at hdue; cases hdue

/-- A sequence is due behind a cycle only. -/
theorem Session.cycled_of_due (h : Session c log p) (hdue : p.enablingDue = true) :
    ∃ before x, log = before ++ [x] ∧ x.IsCycle := by
  cases h with
  | new => cases hdue
  | @move log p₀ _ x _ hm =>
    refine ⟨log, x, rfl, ?_⟩
    cases hm with
    | cycle => exact ⟨_, rfl⟩
    | enabling => cases hdue
    | watch hnot => exact absurd hdue (by rw [hnot]; exact Bool.false_ne_true)
    | wait hidle | poll _ hidle | stop hidle =>
      exact absurd hdue (by rw [hidle.1]; exact Bool.false_ne_true)

-- ============================================================== taking

/-- A cycle begins by taking the flag, and remembers what it found. -/
theorem Cycled.takes {s : State} {r : Bool × State} (h : Cycled c s t r) :
    ∃ again u, t = ⟨.takeReenable, again⟩ :: u ∧ TakesNone u
      ∧ r.2.enablePending = (s.enablePending || again) := by
  cases h with
  | degraded again setpoint outputs answer _ =>
    refine ⟨again, _, rfl, ?_, rfl⟩
    simp [TakesNone]
  | @good again setpoint outputs answer inputs clock s' _ hclock =>
    obtain ⟨hnow, hs'⟩ := runs_updateVelocity hclock
    have hnone : TakesNone clock := by
      intro e he
      obtain ⟨now, rfl⟩ := hnow e he
      exact nofun
    refine ⟨again, _, rfl, ?_, congrArg State.enablePending hs'⟩
    refine TakesNone.append (TakesNone.append ?_ ?_) ?_
    · simp [TakesNone]
    · exact List.forall_mem_cons.2 ⟨nofun, hnone⟩
    · simp [TakesNone]

theorem attempts_takesNone {slave : UInt16} {layout : Layout} {left : Nat} {last : Option UInt16}
    {out : Enabling.Outcome} (h : Enabling.Attempts slave layout left last t out) :
    TakesNone t := by
  induction h with
  | exhausted => simp [TakesNone]
  | noRoom | there => simp [TakesNone, Enabling.attemptTrace]
  | again inputs outputs answer _ _ _ ih =>
    refine TakesNone.append (by simp [TakesNone, Enabling.attemptTrace]) ?_
    exact List.forall_mem_cons.2 ⟨by simp, ih⟩

theorem Awaited.takesNone {s s' : State} {polls : Nat} (h : Awaited s polls t s') :
    TakesNone t ∧ s'.enablePending = s.enablePending := by
  induction h with
  | timedOut | stopped | ready => exact ⟨by simp [TakesNone], rfl⟩
  | again _ ih => exact ⟨List.forall_mem_cons.2 ⟨nofun, List.forall_mem_cons.2 ⟨nofun, ih.1⟩⟩, ih.2⟩

/-- After a sequence, none is pending. -/
theorem State.settle_enablePending (s : State) (o : Enabling.Outcome) :
    (s.settle o).enablePending = false := by
  unfold State.settle
  split <;> rfl

/-- Only a cycle takes the flag, and only a sequence answers what was taken. -/
theorem Move.takesNone (h : Move c p x q) (hx : ¬ x.IsCycle) :
    TakesNone x.trace ∧ (¬ x.IsEnabling → q.state.enablePending = p.state.enablePending) := by
  cases h with
  | wait _ hwait =>
    obtain ⟨hnone, hpending⟩ := (runs_waitForMaster hwait).1.takesNone
    exact ⟨hnone, fun _ => hpending⟩
  | poll => exact ⟨by simp [TakesNone], fun _ => rfl⟩
  | cycle => exact absurd ⟨_, rfl⟩ hx
  | enabling _ hseq =>
    exact ⟨attempts_takesNone (Enabling.runs_attempts hseq), fun hnot => absurd ⟨_, rfl⟩ hnot⟩
  | watch _ _ hwatch =>
    refine ⟨?_, fun _ => rfl⟩
    cases runs_watchSlave hwatch <;> simp [TakesNone]
  | stop _ hstop =>
    obtain ⟨hq, outputs, answer, rfl⟩ := runs_stop hstop
    exact ⟨by simp [TakesNone, stopTrace], fun _ => by rw [hq]⟩

-- ============================================================ histories

/-- What happened to an exchange: a session, and what the control side did. The board may
have been left in any way before. -/
structure History (c : Settings) (log : List Stretch) (p : Point) (h : List Moment) : Prop where
  session : Session c log p
  side : cyclicSide h = events log
  board : ∃ b b', Passes b h b'

-- ======================================================== the invariant

/-- A request is on its way: the flag is raised, or a step has taken it and waits for a
good cycle. -/
def Pending (p : Point) (b : Board) : Prop :=
  p.state.enablePending = true ∨ b.control.reenable = true

/-- Behind the moment at which the flag was taken, it is raised by a call alone. -/
theorem Passes.reenable_iff_of_take {again : Bool} {b : Board} {m : List Moment}
    (hb : Passes b (.cyclic ⟨.takeReenable, again⟩ :: m) b') (hnone : TakesNone (cyclicSide m)) :
    again = b.control.reenable ∧ (b'.control.reenable = true ↔ .control .reenable ∈ m) := by
  obtain ⟨b₁, htake, hrest⟩ := passes_cyclic_iff.1 hb
  obtain ⟨hagain, rfl⟩ := answered_takeReenable_iff.1 htake
  refine ⟨hagain, (hrest.reenable_iff hnone).trans ?_⟩
  simp

/-- A stretch without a sequence keeps every request on its way. -/
theorem Move.pending_iff (hm : Move c p x q) (hx : ¬ x.IsEnabling) (hside : cyclicSide m = x.trace)
    (hb : Passes b m b') : Pending q b' ↔ Pending p b ∨ .control .reenable ∈ m := by
  unfold Pending
  by_cases hcycle : x.IsCycle
  · obtain ⟨good, hcycled⟩ := hm.cycled hcycle
    obtain ⟨again, u, htrace, hnone, hpending⟩ := hcycled.takes
    obtain ⟨m₁, m₂, rfl, hm₁, hm₂⟩ :=
      exists_cyclicSide_cons (t := []) (hside.trans htrace)
    -- the cycle takes the flag behind `m₁`, and finds what was raised until then
    obtain ⟨b₁, hb₁, hb₂⟩ := passes_append_iff.1 hb
    have hbefore := hb₁.reenable_iff (by rw [hm₁]; exact takesNone_nil)
    obtain ⟨hagain, hbehind⟩ := hb₂.reenable_iff_of_take (by rw [hm₂]; exact hnone)
    rw [hpending, hagain, Bool.or_eq_true, hbefore, hbehind]
    simp [or_assoc]
  · obtain ⟨hnone, hkept⟩ := hm.takesNone hcycle
    rw [hb.reenable_iff (by rw [hside]; exact hnone), hkept hx, or_assoc]

theorem Moves.pending_iff (hm : Moves c p log q) (hlog : ∀ x ∈ log, ¬ x.IsEnabling)
    (hside : cyclicSide m = events log) (hb : Passes b m b') :
    Pending q b' ↔ Pending p b ∨ .control .reenable ∈ m := by
  induction hm generalizing b m with
  | nil =>
    unfold Pending
    rw [hb.reenable_iff (by rw [hside]; exact takesNone_nil), or_assoc]
  | cons hfirst _ ih =>
    obtain ⟨hx, hrest⟩ := List.forall_mem_cons.1 hlog
    obtain ⟨m₁, m₂, rfl, hm₁, hm₂⟩ := exists_cyclicSide_append hside
    obtain ⟨b₁, hb₁, hb₂⟩ := passes_append_iff.1 hb
    rw [ih hrest hm₂ hb₂, hfirst.pending_iff hx hm₁ hb₁, List.mem_append, or_assoc]

/-- Without a sequence so far, the one of the first good cycle is pending. -/
theorem Session.pending_of_none (h : Session c log p) (hlog : ∀ x ∈ log, ¬ x.IsEnabling) :
    p.state.enablePending = true := by
  induction h with
  | new => rfl
  | @move log p p' x _ hm ih =>
    obtain ⟨hbefore, hx⟩ := List.forall_mem_append.1 hlog
    have hpending := ih hbefore
    have hx := List.forall_mem_singleton.1 hx
    by_cases hcycle : x.IsCycle
    · obtain ⟨good, hcycled⟩ := hm.cycled hcycle
      obtain ⟨again, -, -, -, hnext⟩ := hcycled.takes
      rw [hnext, hpending, Bool.true_or]
    · rw [(hm.takesNone hcycle).2 hx, hpending]

-- ================================================================ owed

/-- The last step with a sequence, and the moments since it took the flag. -/
inductive SinceLast : List Stretch → List Moment → List Moment → Prop
  | intro {earlier later : List Stretch} {x y : Stretch} {past since : List Moment}
      {again : Bool} : x.IsCycle → y.IsEnabling → (∀ z ∈ later, ¬ z.IsEnabling) →
      cyclicSide past = events earlier →
      SinceLast (earlier ++ x :: y :: later)
        (past ++ .cyclic ⟨.takeReenable, again⟩ :: since) since

/-- A sequence is owed: there was none yet, or it was asked for since the last step that
ran one took the flag. -/
def Owed (before : List Stretch) (past : List Moment) : Prop :=
  (∀ x ∈ before, ¬ x.IsEnabling)
    ∨ ∃ since, SinceLast before past since ∧ .control .reenable ∈ since

/-- Since the last step with a sequence took the flag, a request is on its way exactly if
one was made. -/
theorem pending_iff_asked {since : List Moment} (hsession : Session c log p)
    (hside : cyclicSide h = events log) (hb : Passes b h b') (hlast : SinceLast log h since) :
    Pending p b' ↔ .control .reenable ∈ since := by
  obtain @⟨earlier, later, x, y, past, since, again, hx, hy, hlater, hpast⟩ := hlast
  obtain ⟨q₀, -, hmoves⟩ := hsession.cut rfl
  cases hmoves with
  | @cons _ q₁ _ _ _ hfirst hmoves =>
  cases hmoves with
  | @cons _ q₂ _ _ _ hsecond hmoves =>
  obtain ⟨good, hcycled⟩ := hfirst.cycled hx
  obtain ⟨again', u, htrace, hnone, -⟩ := hcycled.takes
  obtain ⟨-, outcome, -, hsettled, hattempts⟩ := hsecond.attempts hy
  -- what the step did once it had the flag, and what came after the step
  have hrest : cyclicSide since = (u ++ y.trace) ++ events later := by
    have hall : events earlier ++ ⟨.takeReenable, again⟩ :: cyclicSide since
        = events earlier ++ ⟨.takeReenable, again'⟩ :: ((u ++ y.trace) ++ events later) := by
      rw [cyclicSide_append, hpast] at hside
      refine hside.trans ?_
      simp [events, htrace]
    exact (List.cons.inj (List.append_cancel_left hall)).2
  obtain ⟨m₁, m₂, rfl, hm₁, hm₂⟩ := exists_cyclicSide_append hrest
  rw [← List.cons_append, ← List.append_assoc] at hb
  obtain ⟨b₂, hb₂, hafter⟩ := passes_append_iff.1 hb
  obtain ⟨b₁, -, hstep⟩ := passes_append_iff.1 hb₂
  obtain ⟨-, hasked⟩ := hstep.reenable_iff_of_take
    (by rw [hm₁]; exact hnone.append (attempts_takesNone hattempts))
  have hpending : Pending q₂ b₂ ↔ .control .reenable ∈ m₁ := by
    unfold Pending
    rw [hsettled, State.settle_enablePending, hasked]
    simp
  rw [hmoves.pending_iff hlater hm₂ hafter, hpending, List.mem_append]

/-- The last of the elements with a property. -/
theorem exists_last {α : Type} {P : α → Prop} {list : List α} (h : ¬ ∀ a ∈ list, ¬ P a) :
    ∃ front a back, list = front ++ a :: back ∧ P a ∧ ∀ b ∈ back, ¬ P b := by
  induction list with
  | nil => exact absurd (fun _ ha => absurd ha List.not_mem_nil) h
  | cons a list ih =>
    by_cases hrest : ∀ b ∈ list, ¬ P b
    · refine ⟨[], a, list, rfl, ?_, hrest⟩
      exact Classical.byContradiction fun ha => h (List.forall_mem_cons.2 ⟨ha, hrest⟩)
    · obtain ⟨front, b, back, rfl, hb, hback⟩ := ih hrest
      exact ⟨a :: front, b, back, rfl, hb, hback⟩

/-- Once there was a sequence, there is a last step with one. -/
theorem exists_sinceLast (hsession : Session c log p) (hside : cyclicSide h = events log)
    (hsome : ¬ ∀ x ∈ log, ¬ x.IsEnabling) : ∃ since, SinceLast log h since := by
  obtain ⟨front, y, later, rfl, hy, hlater⟩ := exists_last hsome
  obtain ⟨q, hfront, hmoves⟩ := hsession.cut rfl
  cases hmoves with
  | cons hmove _ =>
  obtain ⟨earlier, x, rfl, hx⟩ := hfront.cycled_of_due (hmove.isEnabling_iff.1 hy)
  obtain ⟨q₀, -, hmoves⟩ := hfront.cut rfl
  cases hmoves with
  | cons hfirst _ =>
  obtain ⟨good, hcycled⟩ := hfirst.cycled hx
  obtain ⟨again, u, htrace, -, -⟩ := hcycled.takes
  have hall : cyclicSide h
      = events earlier ++ ⟨.takeReenable, again⟩ :: (u ++ y.trace ++ events later) := by
    rw [hside]
    simp [events, htrace]
  obtain ⟨past, since, rfl, hpast, -⟩ := exists_cyclicSide_cons hall
  refine ⟨since, ?_⟩
  rw [List.append_assoc]
  exact .intro hx hy hlater hpast

theorem pending_iff_owed (hsession : Session c log p) (hside : cyclicSide h = events log)
    (hb : Passes b h b') : Pending p b' ↔ Owed log h := by
  by_cases hnone : ∀ x ∈ log, ¬ x.IsEnabling
  · exact ⟨fun _ => .inl hnone, fun _ => .inl (hsession.pending_of_none hnone)⟩
  · constructor
    · intro hpending
      obtain ⟨since, hlast⟩ := exists_sinceLast hsession hside hnone
      exact .inr ⟨since, hlast, (pending_iff_asked hsession hside hb hlast).1 hpending⟩
    · intro howed
      rcases howed with hnone' | ⟨since, hlast, hasked⟩
      · exact absurd hnone' hnone
      · exact (pending_iff_asked hsession hside hb hlast).2 hasked

-- ============================================================= the steps

/-- The step whose cycle is behind goes on with the enabling sequence. -/
def Sequenced (after : List Stretch) (p : Point) : Prop :=
  match after with
  | [] => p.enablingDue = true
  | y :: _ => y.IsEnabling

theorem Moves.sequenced_iff (h : Moves c q after p) : Sequenced after p ↔ q.enablingDue = true := by
  cases h with
  | nil => exact Iff.rfl
  | cons hfirst _ => exact hfirst.isEnabling_iff

/-- A cycle of a session takes the flag at one moment of the history; its own exchange, and
what is owed at that moment, decide about the sequence. -/
theorem Moves.exists_take {q' : Point} {good : Bool} (hbefore : Session c before q)
    (hmove : Move c q x q') (hmoves : Moves c q' after p) (hx : x.act = .cycle good)
    (hside : cyclicSide h = events (before ++ x :: after)) (hb : Passes b h b') :
    ∃ past again future answer, h = past ++ .cyclic ⟨.takeReenable, again⟩ :: future
      ∧ cyclicSide past = events before ∧ exchanges x.trace = [answer]
      ∧ (Sequenced after p ↔ c.expectedWkc ≤ counted answer ∧ Owed before past) := by
  obtain ⟨good', hcycled⟩ := hmove.cycled ⟨good, hx⟩
  obtain ⟨again, u, htrace, -, hpending⟩ := hcycled.takes
  obtain ⟨answer, hanswer, hgood, -⟩ := hcycled.publications
  have hall : cyclicSide h
      = events before ++ ⟨.takeReenable, again⟩ :: (u ++ events after) := by
    rw [hside]
    simp [events, htrace]
  obtain ⟨past, future, rfl, hpast, -⟩ := exists_cyclicSide_cons hall
  refine ⟨past, again, future, answer, rfl, hpast, hanswer, ?_⟩
  obtain ⟨b₁, hb₁, hb₂⟩ := passes_append_iff.1 hb
  obtain ⟨_, htake, -⟩ := passes_cyclic_iff.1 hb₂
  have hagain := (answered_takeReenable_iff.1 htake).1
  have howed := pending_iff_owed hbefore hpast hb₁
  have hdue : q'.enablingDue = (good' && q'.state.enablePending) := by
    cases hmove with
    | cycle _ hruns =>
      obtain ⟨answer', hanswer', hgood', -⟩ := (runs_cycle hruns).publications
      obtain rfl := List.cons.inj (hanswer'.symm.trans hanswer) |>.1
      rw [hgood, ← hgood']
    | wait | poll | enabling | watch | stop => cases hx
  rw [hmoves.sequenced_iff, hdue, hpending, hagain, Bool.and_eq_true, Bool.or_eq_true, ← howed,
    hgood, decide_eq_true_iff]
  rfl

/-- Requests are neither lost nor repeated. A step begins by taking the flag, which cuts
its history in two; it runs the enabling sequence exactly if its own exchange reaches the
expected working counter, and either no step did so before or a request was made since
the last one that did took the flag. -/
theorem sequence_iff {good : Bool} (hist : History c (before ++ x :: after) p h)
    (hx : x.act = .cycle good) :
    ∃ past again future answer, h = past ++ .cyclic ⟨.takeReenable, again⟩ :: future
      ∧ cyclicSide past = events before ∧ exchanges x.trace = [answer]
      ∧ (Sequenced after p ↔ c.expectedWkc ≤ counted answer ∧ Owed before past) := by
  obtain ⟨hsession, hside, b, b', hb⟩ := hist
  obtain ⟨q, hbefore, hmoves⟩ := hsession.cut rfl
  cases hmoves with
  | cons hmove hmoves => exact hmoves.exists_take hbefore hmove hx hside hb

-- ========================================================= the programs

/-- A sequence that comes before the next cycle comes at once. -/
theorem Session.sequenced_iff {s : State} (h : Session c (before ++ x :: after) { state := s })
    (hafter : ∀ y ∈ after, ¬ y.IsCycle) :
    Sequenced after { state := s } ↔ ∃ y ∈ after, y.IsEnabling := by
  constructor
  · intro hnow
    cases after with
    | nil => cases hnow
    | cons y rest => exact ⟨y, List.mem_cons_self, hnow⟩
  · intro hsome
    obtain ⟨y, hy, hseq⟩ := hsome
    obtain ⟨front, back, rfl⟩ := List.append_of_mem hy
    rcases List.eq_nil_or_concat front with rfl | ⟨front, z, rfl⟩
    · exact hseq
    · -- a sequence is due behind a cycle only, and `z` is none
      have hlog : before ++ x :: (front.concat z ++ y :: back)
          = (before ++ x :: front.concat z) ++ y :: back := by
        rw [← List.cons_append, ← List.append_assoc]
      obtain ⟨q, q', hq, hm⟩ := h.split hlog
      obtain ⟨front', z', hlast, hz'⟩ := hq.cycled_of_due (hm.isEnabling_iff.1 hseq)
      rw [List.concat_eq_append, ← List.cons_append, ← List.append_assoc] at hlast
      obtain rfl : z = z' := (List.cons.inj (List.append_inj' hlast rfl).2).1
      refine absurd hz' (hafter z ?_)
      rw [List.concat_eq_append]
      simp

/-- A step of the program, between whose requests the control side acts, runs the sequence
on that condition. -/
theorem step_sequence_iff {s s' : State} {good : Bool} (hs : Session c before { state := s })
    (hstep : Runs (step c s) t (good, s')) (hside : cyclicSide h = events before ++ t)
    (hb : Passes b h b') :
    ∃ x after, Session c (before ++ x :: after) { state := s' } ∧ x.trace ++ events after = t
      ∧ ∃ past again future answer, h = past ++ .cyclic ⟨.takeReenable, again⟩ :: future
        ∧ cyclicSide past = events before ∧ exchanges x.trace = [answer]
        ∧ ((∃ y ∈ after, y.IsEnabling) ↔ c.expectedWkc ≤ counted answer ∧ Owed before past) := by
  obtain ⟨u, after, hs', rfl, hafter⟩ := hs.stepped hstep
  refine ⟨⟨.cycle good, u⟩, after, hs', rfl, ?_⟩
  obtain ⟨q, hbefore, hmoves⟩ := hs'.cut rfl
  cases hmoves with
  | cons hmove hmoves =>
  have hall : cyclicSide h = events (before ++ ⟨.cycle good, u⟩ :: after) := by
    rw [hside, events_append]
    rfl
  obtain ⟨past, again, future, answer, hcut, hpast, hanswer, hiff⟩ :=
    hmoves.exists_take hbefore hmove rfl hall hb
  exact ⟨past, again, future, answer, hcut, hpast, hanswer,
    (hs'.sequenced_iff hafter).symm.trans hiff⟩

/-- Every step of the whole program does. -/
theorem run_sequence_iff {bound : Nat} {r : Option State} (hrun : Runs (run c bound {}) t r)
    (hside : cyclicSide h = t) (hb : Passes b h b') :
    ∃ log p, History c log p h ∧ ∀ before x after good, log = before ++ x :: after →
      x.act = .cycle good →
      ∃ past again future answer, h = past ++ .cyclic ⟨.takeReenable, again⟩ :: future
        ∧ cyclicSide past = events before ∧ exchanges x.trace = [answer]
        ∧ (Sequenced after p ↔ c.expectedWkc ≤ counted answer ∧ Owed before past) := by
  obtain ⟨log, p, hs, rfl⟩ := Session.run hrun
  refine ⟨log, p, ⟨hs, hside, b, b', hb⟩, ?_⟩
  intro before x after good hlog hx
  subst hlog
  obtain ⟨q, hbefore, hmoves⟩ := hs.cut rfl
  cases hmoves with
  | cons hmove hmoves => exact hmoves.exists_take hbefore hmove hx hside hb

-- ======================================== a request in a failing sequence

/-- A cycle without an answer from the state after the failed sequence, which finds the
flag raised. -/
def sampleDegraded : Stretch where
  act := .cycle false
  trace := sendTrace sample sampleFailed true ⟨0x3e800000⟩ (List.replicate 9 0)
      (.error (.timeout "no reply"))
    ++ [⟨.publish (.degraded 0), ()⟩]

/-- The drive fails to be enabled, is lost for a cycle, and is back. -/
def sampleReturn : List Stretch :=
  [sampleCycle {} 0x21, sampleFailure (.ok 3)]
    ++ sampleDegraded :: [sampleCycle (sampleFailed.begun true) 0x21, sampleFailure (.ok 3)]

/-- While the sequence fails, it is asked for again. -/
def sampleHistory : List Moment :=
  ((sampleCycle {} 0x21).trace ++ (sampleFailure (.ok 3)).trace.take 3).map .cyclic
    ++ .control .reenable :: ((sampleFailure (.ok 3)).trace.drop 3 ++ events (sampleReturn.drop 2)).map
      .cyclic

theorem sample_history : ∃ p, History sample sampleReturn p sampleHistory := by
  have h₁ : Session sample (sampleReturn.take 1) ⟨State.read {} 0x21, true, false⟩ :=
    Session.new.move (.cycle ⟨rfl, rfl⟩ (Runs.of_replay rfl))
  have h₂ : Session sample (sampleReturn.take 2) { state := sampleFailed } :=
    h₁.move (.enabling rfl (Runs.of_replay rfl))
  have h₃ : Session sample (sampleReturn.take 3) { state := sampleFailed.begun true } :=
    h₂.move (.cycle ⟨rfl, rfl⟩ (Runs.of_replay rfl))
  have h₄ : Session sample (sampleReturn.take 4)
      ⟨(sampleFailed.begun true).read 0x21, true, false⟩ :=
    h₃.move (.cycle ⟨rfl, rfl⟩ (Runs.of_replay rfl))
  refine ⟨_, h₄.move (.enabling rfl (Runs.of_replay rfl)), rfl,
    { register := { setpoint := ⟨0x3e800000⟩ } }, ?_⟩
  simp [sampleHistory, sampleReturn, sampleCycle, sampleFailure, sampleDegraded, sendTrace,
    Enabling.attemptTrace, events, Board.act]

/-- Behind the lost cycle the sequence is owed, and the next step runs it. -/
theorem sequence_iff_remembered :
    ∃ past future, sampleHistory = past ++ future
      ∧ cyclicSide past = events (sampleReturn.take 3) ∧ Owed (sampleReturn.take 3) past := by
  obtain ⟨p, hist⟩ := sample_history
  have hcut : History sample (sampleReturn.take 3
      ++ sampleCycle (sampleFailed.begun true) 0x21 :: [sampleFailure (.ok 3)]) p sampleHistory :=
    hist
  obtain ⟨past, again, future, answer, hhistory, hside, -, hiff⟩ := sequence_iff hcut rfl
  exact ⟨past, _, hhistory, hside, (hiff.1 ⟨_, rfl⟩).2⟩

end Servo.Cyclic
