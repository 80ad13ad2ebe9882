/-
The board between the two sides of an exchange, moment by moment.

What the cyclic side asks and what the control side does may be merged in any
order, in the middle of a step or of a sequence too (`Moment`). Nothing is assumed
of the flags: an event of the cyclic side is answered from the board as it stands
then, by the answers that `Cyclic.answer` gives, and the control side acts on that
same board (`Passes`). The bus and the clock are no part of it and may answer as they
like.

# The flags

Of the answers only the one to taking the request to enable again lowers a flag, and
it tells what it found (`answered_takeReenable_iff`); all others leave the flags
(`Answered.control`). So between two moments at which the request is taken, the flag
is raised exactly if it was raised before, or the control side asked since
(`Passes.reenable_iff`). The other two flags are never lowered at all.
-/
import Servo.Proofs.Cyclic.Rules

namespace Servo.Cyclic

variable {b b' b'' : Board} {e : Event} {t u : Trace}

-- ============================================================== answers

/-- A board at hand, at some time. -/
def boardSeat (now : Duration) : Seat (StateM Board) where
  board := get
  setBoard := set
  now := pure now

/-- The event is answered from a board, and leaves this one. -/
def Answered (b : Board) (e : Event) (b' : Board) : Prop :=
  ∃ (bus : (r : Bus.Request) → r.Answer) (now : Duration),
    (answer (fun r => pure (bus r)) (boardSeat now) e.1).run b = (e.2, b')

/-- Whatever a bus answers to a request, some bus does. -/
theorem exists_bus (r : Bus.Request) (a : r.Answer) :
    ∃ bus : (r : Bus.Request) → r.Answer, bus r = a := by
  have hsome (r : Bus.Request) : Nonempty r.Answer := by
    cases r <;> exact ⟨default⟩
  exact ⟨fun r' => if h : r' = r then h ▸ a else Classical.choice (hsome r'), dif_pos rfl⟩

/-- A request that the board alone answers. -/
theorem answered_iff (r : Request) {a : r.Answer} (found : Board → r.Answer × Board)
    (h : ∀ (bus : (r : Bus.Request) → r.Answer) (now : Duration) (b : Board),
      (answer (fun r => pure (bus r)) (boardSeat now) r).run b = found b) :
    Answered b ⟨r, a⟩ b' ↔ a = (found b).1 ∧ b' = (found b).2 := by
  constructor
  · intro hanswered
    obtain ⟨bus, now, hrun⟩ := hanswered
    rw [h] at hrun
    exact ⟨(congrArg Prod.fst hrun).symm, (congrArg Prod.snd hrun).symm⟩
  · intro hfound
    obtain ⟨rfl, rfl⟩ := hfound
    obtain ⟨bus, -⟩ := exists_bus .close ()
    exact ⟨bus, .zero, h bus .zero b⟩

@[simp] theorem answered_isReady_iff {ready : Bool} :
    Answered b ⟨.isReady, ready⟩ b' ↔ ready = b.control.ready ∧ b' = b :=
  answered_iff .isReady (fun b => (b.control.ready, b)) fun _ _ _ => rfl

@[simp] theorem answered_isStopped_iff {stop : Bool} :
    Answered b ⟨.isStopped, stop⟩ b' ↔ stop = b.control.stop ∧ b' = b :=
  answered_iff .isStopped (fun b => (b.control.stop, b)) fun _ _ _ => rfl

/-- The request to enable again is found as it is, and taken away. -/
@[simp] theorem answered_takeReenable_iff {again : Bool} :
    Answered b ⟨.takeReenable, again⟩ b'
      ↔ again = b.control.reenable ∧ b' = { b with control.reenable := false } :=
  answered_iff .takeReenable (fun b => (b.control.reenable, { b with control.reenable := false }))
    fun _ _ _ => rfl

@[simp] theorem answered_setpoint_iff {setpoint : Single} :
    Answered b ⟨.setpoint, setpoint⟩ b' ↔ setpoint = b.register.setpoint ∧ b' = b :=
  answered_iff .setpoint (fun b => (b.register.setpoint, b)) fun _ _ _ => rfl

@[simp] theorem answered_publish_iff {p : Publication} {v : Unit} :
    Answered b ⟨.publish p, v⟩ b'
      ↔ b' = { b with register.telemetry := b.register.telemetry.publish p } :=
  (answered_iff (.publish p) (fun b => ((), { b with
    register.telemetry := b.register.telemetry.publish p })) fun _ _ _ => rfl).trans
      (and_iff_right rfl)

@[simp] theorem answered_bus_iff {r : Bus.Request} {a : r.Answer} :
    Answered b ⟨.bus r, a⟩ b' ↔ b' = b := by
  constructor
  · intro h
    obtain ⟨bus, now, h⟩ := h
    exact (congrArg Prod.snd h).symm
  · intro h
    obtain ⟨bus, rfl⟩ := exists_bus r a
    subst h
    exact ⟨bus, .zero, rfl⟩

@[simp] theorem answered_now_iff {now : Duration} : Answered b ⟨.now, now⟩ b' ↔ b' = b := by
  constructor
  · intro h
    obtain ⟨bus, now', h⟩ := h
    exact (congrArg Prod.snd h).symm
  · intro h
    obtain ⟨bus, -⟩ := exists_bus .close ()
    subst h
    exact ⟨bus, now, rfl⟩

/-- Only taking the request to enable again changes a flag. -/
theorem Answered.control (h : Answered b e b') (hne : e.1 ≠ .takeReenable) :
    b'.control = b.control := by
  obtain ⟨r, a⟩ := e
  cases r with
  | takeReenable => exact absurd rfl hne
  | publish p => rw [answered_publish_iff.1 h]
  | bus r => rw [answered_bus_iff.1 h]
  | now => rw [answered_now_iff.1 h]
  | isReady => rw [(answered_isReady_iff.1 h).2]
  | isStopped => rw [(answered_isStopped_iff.1 h).2]
  | setpoint => rw [(answered_setpoint_iff.1 h).2]

/-- No request of the cyclic side changes the readiness or the stop. -/
theorem Answered.kept (h : Answered b e b') :
    b'.control.ready = b.control.ready ∧ b'.control.stop = b.control.stop := by
  by_cases he : e.1 = .takeReenable
  · obtain ⟨r, a⟩ := e
    obtain rfl : r = .takeReenable := he
    rw [(answered_takeReenable_iff.1 h).2]
    exact ⟨rfl, rfl⟩
  · rw [h.control he]
    exact ⟨rfl, rfl⟩

-- ============================================================== moments

/-- Something that happens while an exchange runs. -/
inductive Moment
  /-- On the cyclic side. -/
  | cyclic (e : Event)
  /-- On the control side. -/
  | control (a : Board.Act)

variable {h m : List Moment}

/-- What the cyclic side did. -/
def cyclicSide (h : List Moment) : Trace :=
  h.filterMap fun
    | .cyclic e => some e
    | .control _ => none

@[simp] theorem cyclicSide_append (h m : List Moment) :
    cyclicSide (h ++ m) = cyclicSide h ++ cyclicSide m :=
  List.filterMap_append

/-- A history is cut where its cyclic side is. -/
theorem exists_cyclicSide_append (hside : cyclicSide h = t ++ u) :
    ∃ h₁ h₂, h = h₁ ++ h₂ ∧ cyclicSide h₁ = t ∧ cyclicSide h₂ = u :=
  List.filterMap_eq_append_iff.1 hside

/-- An event of the cyclic side is a moment of the history. -/
theorem exists_cyclicSide_cons (hside : cyclicSide h = t ++ e :: u) :
    ∃ h₁ h₂, h = h₁ ++ .cyclic e :: h₂ ∧ cyclicSide h₁ = t ∧ cyclicSide h₂ = u := by
  obtain ⟨h₁, h', rfl, ht, hrest⟩ := exists_cyclicSide_append hside
  obtain ⟨idle, moment, h₂, rfl, hidle, hmoment, hu⟩ := List.filterMap_eq_cons_iff.1 hrest
  refine ⟨h₁ ++ idle, h₂, ?_, ?_, hu⟩
  · cases moment with
    | cyclic =>
      cases hmoment
      rw [List.append_assoc]
    | control => cases hmoment
  · have hnone : cyclicSide idle = [] := List.filterMap_eq_nil_iff.2 hidle
    rw [cyclicSide_append, hnone, List.append_nil]
    exact ht

/-- The board goes through these moments, and is this one behind them. -/
inductive Passes : Board → List Moment → Board → Prop
  | nil {b : Board} : Passes b [] b
  | cyclic {b b₁ b' : Board} {e : Event} {h : List Moment} :
      Answered b e b₁ → Passes b₁ h b' → Passes b (.cyclic e :: h) b'
  | control {b b' : Board} {a : Board.Act} {h : List Moment} :
      Passes (b.act a) h b' → Passes b (.control a :: h) b'

@[simp] theorem passes_nil_iff : Passes b [] b' ↔ b' = b := by
  constructor
  · intro h
    cases h
    rfl
  · intro h
    subst h
    exact .nil

@[simp] theorem passes_cyclic_iff :
    Passes b (.cyclic e :: h) b' ↔ ∃ b₁, Answered b e b₁ ∧ Passes b₁ h b' := by
  constructor
  · intro hpasses
    cases hpasses with
    | cyclic hanswered hrest => exact ⟨_, hanswered, hrest⟩
  · intro hboth
    obtain ⟨b₁, hanswered, hrest⟩ := hboth
    exact .cyclic hanswered hrest

@[simp] theorem passes_control_iff {a : Board.Act} :
    Passes b (.control a :: h) b' ↔ Passes (b.act a) h b' := by
  constructor
  · intro hpasses
    cases hpasses with
    | control hrest => exact hrest
  · exact .control

/-- A board goes through two histories in a row by way of a board between them. -/
theorem passes_append_iff :
    Passes b (h ++ m) b'' ↔ ∃ b', Passes b h b' ∧ Passes b' m b'' := by
  induction h generalizing b with
  | nil => simp
  | cons moment h ih =>
    cases moment with
    | cyclic e =>
      rw [List.cons_append, passes_cyclic_iff]
      simp only [ih, passes_cyclic_iff]
      constructor
      · intro hpasses
        obtain ⟨b₁, hanswered, b', hfirst, hsecond⟩ := hpasses
        exact ⟨b', ⟨b₁, hanswered, hfirst⟩, hsecond⟩
      · intro hpasses
        obtain ⟨b', ⟨b₁, hanswered, hfirst⟩, hsecond⟩ := hpasses
        exact ⟨b₁, hanswered, b', hfirst, hsecond⟩
    | control a => simp only [List.cons_append, passes_control_iff, ih]

-- ============================================================ the flags

/-- The readiness is not lowered. -/
theorem Passes.ready_iff (hb : Passes b m b') :
    b'.control.ready = true ↔ b.control.ready = true ∨ .control .raiseReady ∈ m := by
  induction hb with
  | nil => simp
  | cyclic hanswered _ ih =>
    rw [ih, hanswered.kept.1]
    simp
  | @control b b' a m _ ih =>
    rw [ih]
    cases a <;> simp [Board.act]

/-- Neither is the stop. -/
theorem Passes.stop_iff (hb : Passes b m b') :
    b'.control.stop = true ↔ b.control.stop = true ∨ .control .raiseStop ∈ m := by
  induction hb with
  | nil => simp
  | cyclic hanswered _ ih =>
    rw [ih, hanswered.kept.2]
    simp
  | @control b b' a m _ ih =>
    rw [ih]
    cases a <;> simp [Board.act]

/-- The request to enable again is not taken. -/
def TakesNone (t : Trace) : Prop := ∀ e ∈ t, e.1 ≠ .takeReenable

theorem takesNone_nil : TakesNone [] := List.forall_mem_nil _

theorem TakesNone.append (ht : TakesNone t) (hu : TakesNone u) : TakesNone (t ++ u) :=
  List.forall_mem_append.2 ⟨ht, hu⟩

/-- While the request is not taken, it is raised by every call for it, and stays so. -/
theorem Passes.reenable_iff (hb : Passes b m b') (hnone : TakesNone (cyclicSide m)) :
    b'.control.reenable = true ↔ b.control.reenable = true ∨ .control .reenable ∈ m := by
  induction hb with
  | nil => simp
  | cyclic hanswered _ ih =>
    obtain ⟨he, hrest⟩ := List.forall_mem_cons.1 hnone
    rw [ih hrest, hanswered.control he]
    simp
  | @control b b' a m _ ih =>
    rw [ih hnone]
    cases a <;> simp [Board.act]

end Servo.Cyclic
