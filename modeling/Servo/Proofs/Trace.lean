/-
Runs of a program: the requests it makes, their answers, and the value it ends
with.

`Runs p t a` says that `p` can make the requests of `t`, in that order and with
those answers, and end with `a`. Nothing answers here: any answer of the right
type may stand in a trace, so a statement about all runs of a program is one
about every bus, every board and every clock, and about the control side doing
whatever it likes in between.

# From runs to rules

`runs_bind_iff` and its companions take a run apart along the program. Each
program of the library is taken apart once, where its rules are stated; what
follows about its runs follows from the rules.

`runs_bind_error_iff` and `runs_bind_ok_iff` do the same for programs that can
fail. What a program can never request, `Only` says of the program itself.

Concrete runs are computed: `replay` checks a given trace against a program, and
`record` writes down the trace of a program that some machine answers. Wherever a
program is interpreted on a machine, what happens is a run too (`exists_runs_run`).

# Safety along a trace

`Always P h t` says that `P` holds of every event of `t`, given what happened
before it, `h` being what happened before `t`. It is built up along a trace
(`always_append`) and read at any point of it (`Always.at_split`).
-/
import Servo.Program

namespace Servo

/-- A request that was made, and its answer. -/
abbrev Interface.Event (I : Interface) : Type := (r : I.Request) × I.Answer r

/-- What was requested and answered, the oldest first. -/
abbrev Interface.Trace (I : Interface) : Type := List I.Event

namespace Program

variable {I : Interface} {α β : Type}

-- ================================================================ runs

/-- A program can make the requests of a trace, get those answers, and end with
a value. -/
inductive Runs : Program I α → I.Trace → α → Prop
  | done (value : α) : Runs (.done value) [] value
  | request {r : I.Request} {resume : I.Answer r → Program I α} {t : I.Trace} {value : α}
      (answer : I.Answer r) :
      Runs (resume answer) t value → Runs (.request r resume) (⟨r, answer⟩ :: t) value

@[simp] theorem runs_done_iff {value a : α} {t : I.Trace} :
    Runs (.done value : Program I α) t a ↔ t = [] ∧ a = value := by
  constructor
  · intro h
    cases h
    exact ⟨rfl, rfl⟩
  · intro h
    obtain ⟨rfl, rfl⟩ := h
    exact .done _

@[simp] theorem runs_pure_iff {value a : α} {t : I.Trace} :
    Runs (pure value : Program I α) t a ↔ t = [] ∧ a = value :=
  runs_done_iff

theorem runs_request_iff {r : I.Request} {resume : I.Answer r → Program I α} {t : I.Trace}
    {a : α} :
    Runs (.request r resume) t a
      ↔ ∃ answer u, t = ⟨r, answer⟩ :: u ∧ Runs (resume answer) u a := by
  constructor
  · intro h
    cases h with
    | request answer h => exact ⟨answer, _, rfl, h⟩
  · intro h
    obtain ⟨answer, u, rfl, h⟩ := h
    exact .request answer h

/-- The answers decide a run: of two runs on one sequence of events neither goes further
than the other, and they end with the same value. -/
theorem Runs.unique {p : Program I α} {t t' u u' : I.Trace} {a a' : α} (h : Runs p t a)
    (h' : Runs p t' a') (heq : t ++ u = t' ++ u') : t = t' ∧ a = a' := by
  induction h generalizing t' with
  | done value =>
    cases h' with
    | done => exact ⟨rfl, rfl⟩
  | request answer _ ih =>
    cases h' with
    | request answer' hrest =>
      obtain ⟨hevent, htail⟩ := List.cons.inj heq
      obtain rfl := eq_of_heq (Sigma.mk.inj hevent).2
      obtain ⟨rfl, rfl⟩ := ih hrest htail
      exact ⟨rfl, rfl⟩

/-- One trace of a program has one value. -/
theorem Runs.value_unique {p : Program I α} {t : I.Trace} {a a' : α} (h : Runs p t a)
    (h' : Runs p t a') : a = a' :=
  (h.unique h' (rfl : t ++ [] = t ++ [])).2

/-- A single request, ending with its answer. -/
theorem runs_request_done_iff {r : I.Request} {t : I.Trace} {answer : I.Answer r} :
    Runs (.request r .done) t answer ↔ t = [⟨r, answer⟩] := by
  rw [runs_request_iff]
  constructor
  · intro h
    obtain ⟨a, u, rfl, h⟩ := h
    obtain ⟨rfl, rfl⟩ := runs_done_iff.1 h
    rfl
  · intro h
    exact ⟨answer, [], h, .done answer⟩

/-- A run of a composed program is a run of the first part followed by one of
the second. -/
theorem runs_bind_iff {p : Program I α} {f : α → Program I β} {t : I.Trace} {b : β} :
    Runs (p >>= f) t b ↔ ∃ u a v, t = u ++ v ∧ Runs p u a ∧ Runs (f a) v b := by
  show Runs (p.bind f) t b ↔ _
  induction p generalizing t with
  | done value =>
    constructor
    · intro h
      exact ⟨[], value, t, rfl, .done value, h⟩
    · intro h
      obtain ⟨u, a, v, rfl, hp, hf⟩ := h
      obtain ⟨rfl, rfl⟩ := runs_done_iff.1 hp
      exact hf
  | request r resume ih =>
    constructor
    · intro h
      obtain ⟨answer, w, rfl, hw⟩ := runs_request_iff.1 h
      obtain ⟨u, a, v, rfl, hp, hf⟩ := (ih answer).1 hw
      exact ⟨⟨r, answer⟩ :: u, a, v, rfl, .request answer hp, hf⟩
    · intro h
      obtain ⟨u, a, v, rfl, hp, hf⟩ := h
      obtain ⟨answer, w, rfl, hw⟩ := runs_request_iff.1 hp
      exact .request answer ((ih answer).2 ⟨w, a, v, rfl, hw, hf⟩)

/-- A run of a program that begins with a request of its own. -/
theorem runs_request_bind_iff {r : I.Request} {f : I.Answer r → Program I β} {t : I.Trace}
    {b : β} :
    Runs (.request r .done >>= f) t b
      ↔ ∃ answer u, t = ⟨r, answer⟩ :: u ∧ Runs (f answer) u b :=
  runs_request_iff

/-- A program whose value is only looked at. -/
theorem runs_bind_pure_iff {p : Program I α} {f : α → β} {t : I.Trace} {b : β} :
    Runs (p >>= fun a => pure (f a)) t b ↔ ∃ a, b = f a ∧ Runs p t a := by
  rw [runs_bind_iff]
  constructor
  · intro h
    obtain ⟨u, a, v, rfl, hp, hb⟩ := h
    obtain ⟨rfl, rfl⟩ := runs_pure_iff.1 hb
    rw [List.append_nil]
    exact ⟨a, rfl, hp⟩
  · intro h
    obtain ⟨a, rfl, hp⟩ := h
    exact ⟨t, a, [], (List.append_nil t).symm, hp, runs_pure_iff.2 ⟨rfl, rfl⟩⟩

-- ============================================= programs that can fail

section

variable {ε : Type} {p : ExceptT ε (Program I) α} {f : α → ExceptT ε (Program I) β}
  {t : I.Trace}

/-- A run that fails does so in the first part, or gets through it and fails in
the second. -/
theorem runs_bind_error_iff {e : ε} :
    Runs (p >>= f).run t (.error e)
      ↔ Runs p.run t (.error e)
        ∨ ∃ u a v, t = u ++ v ∧ Runs p.run u (.ok a) ∧ Runs (f a).run v (.error e) := by
  rw [ExceptT.run_bind, runs_bind_iff]
  constructor
  · intro h
    obtain ⟨u, r, v, rfl, hp, hf⟩ := h
    cases r with
    | error e' =>
      obtain ⟨rfl, he⟩ := runs_pure_iff.1 hf
      cases he
      rw [List.append_nil]
      exact .inl hp
    | ok a => exact .inr ⟨u, a, v, rfl, hp, hf⟩
  · intro h
    rcases h with hp | ⟨u, a, v, rfl, hp, hf⟩
    · exact ⟨t, .error e, [], (List.append_nil t).symm, hp, runs_pure_iff.2 ⟨rfl, rfl⟩⟩
    · exact ⟨u, .ok a, v, rfl, hp, hf⟩

/-- A run that succeeds gets through both parts. -/
theorem runs_bind_ok_iff {b : β} :
    Runs (p >>= f).run t (.ok b)
      ↔ ∃ u a v, t = u ++ v ∧ Runs p.run u (.ok a) ∧ Runs (f a).run v (.ok b) := by
  rw [ExceptT.run_bind, runs_bind_iff]
  constructor
  · intro h
    obtain ⟨u, r, v, rfl, hp, hf⟩ := h
    cases r with
    | error e =>
      obtain ⟨-, hr⟩ := runs_pure_iff.1 hf
      cases hr
    | ok a => exact ⟨u, a, v, rfl, hp, hf⟩
  · intro h
    obtain ⟨u, a, v, rfl, hp, hf⟩ := h
    exact ⟨u, .ok a, v, rfl, hp, hf⟩

/-- A program that cannot fail, among others that can. -/
theorem runs_lift_iff {p : Program I α} {t : I.Trace} {r : Except ε α} :
    Runs (liftM p : ExceptT ε (Program I) α).run t r ↔ ∃ a, r = .ok a ∧ Runs p t a := by
  rw [ExceptT.run_liftM, map_eq_pure_bind]
  exact runs_bind_pure_iff

end

-- ============================================================ requests

/-- Whatever the answers are, only requests with a property are made. -/
def Only (P : I.Request → Prop) : Program I α → Prop
  | .done _ => True
  | .request r resume => P r ∧ ∀ answer, (resume answer).Only P

section

variable {P : I.Request → Prop} {p : Program I α} {t : I.Trace}

theorem only_pure (value : α) : Only P (pure value : Program I α) := trivial

/-- Programs in sequence request what each of them does. -/
theorem Only.bind {f : α → Program I β} (hp : p.Only P) (hf : ∀ a, (f a).Only P) :
    (p >>= f).Only P := by
  show (p.bind f).Only P
  induction p with
  | done value => exact hf value
  | request r resume ih => exact ⟨hp.1, fun answer => ih answer (hp.2 answer)⟩

/-- The same for programs that can fail. -/
theorem Only.bindExcept {ε : Type} {q : ExceptT ε (Program I) α} {f : α → ExceptT ε (Program I) β}
    (hq : q.run.Only P) (hf : ∀ a, (f a).run.Only P) : (q >>= f).run.Only P := by
  rw [ExceptT.run_bind]
  refine hq.bind fun r => ?_
  cases r with
  | error e => exact only_pure _
  | ok a => exact hf a

theorem Only.mono {Q : I.Request → Prop} (hp : p.Only P) (h : ∀ r, P r → Q r) : p.Only Q := by
  induction p with
  | done value => trivial
  | request r resume ih => exact ⟨h r hp.1, fun answer => ih answer (hp.2 answer)⟩

/-- What a program may request is all that its runs request. -/
theorem Only.of_runs {a : α} (hp : p.Only P) (h : Runs p t a) : ∀ e ∈ t, P e.1 := by
  induction h with
  | done value => exact fun _ he => absurd he List.not_mem_nil
  | request answer _ ih => exact List.forall_mem_cons.2 ⟨hp.1, ih (hp.2 answer)⟩

end

-- ============================================================== replay

/-- The value a program ends with when it is given the answers of a trace, if it
makes just the requests of the trace. -/
def replay [DecidableEq I.Request] : Program I α → I.Trace → Option α
  | .done value, [] => some value
  | .request r resume, ⟨made, answer⟩ :: t =>
    if h : made = r then (resume (h ▸ answer)).replay t else none
  | .done _, _ :: _ => none
  | .request _ _, [] => none

/-- A trace that can be replayed is one of a run. -/
theorem Runs.of_replay [DecidableEq I.Request] {p : Program I α} {t : I.Trace} {a : α}
    (h : p.replay t = some a) : Runs p t a := by
  induction p generalizing t with
  | done value =>
    cases t with
    | nil => exact runs_done_iff.2 ⟨rfl, (Option.some.inj h).symm⟩
    | cons e t => simp [replay] at h
  | request r resume ih =>
    cases t with
    | nil => simp [replay] at h
    | cons e t =>
      obtain ⟨made, answer⟩ := e
      by_cases hr : made = r
      · subst hr
        exact .request answer (ih answer (by simpa [replay] using h))
      · simp [replay, hr] at h

-- =========================================================== recording

/-- What a program requests of a machine that answers it, the value it ends with,
and the machine after it. -/
def record {σ : Type} (answer : (r : I.Request) → StateM σ (I.Answer r)) :
    Program I α → σ → I.Trace × α × σ
  | .done value, s => ([], value, s)
  | .request r resume, s =>
    let (a, s) := answer r s
    let (t, value, s) := (resume a).record answer s
    (⟨r, a⟩ :: t, value, s)

/-- What a machine answers is one of the runs. -/
theorem runs_record {σ : Type} (answer : (r : I.Request) → StateM σ (I.Answer r))
    (p : Program I α) (s : σ) : Runs p (p.record answer s).1 (p.record answer s).2.1 := by
  induction p generalizing s with
  | done value => exact .done value
  | request r resume ih => exact .request (answer r s).1 (ih (answer r s).1 (answer r s).2)

/-- The state of a machine after the requests of a trace. -/
def stateAfter {σ : Type} (answer : (r : I.Request) → StateM σ (I.Answer r)) (s : σ)
    (t : I.Trace) : σ :=
  t.foldl (fun s e => (answer e.1 s).2) s

/-- The answers in a trace are those of a machine. -/
def AnsweredBy {σ : Type} (answer : (r : I.Request) → StateM σ (I.Answer r)) :
    σ → I.Trace → Prop
  | _, [] => True
  | s, e :: t => (answer e.1 s).1 = e.2 ∧ AnsweredBy answer (answer e.1 s).2 t

@[simp] theorem stateAfter_append {σ : Type} {answer : (r : I.Request) → StateM σ (I.Answer r)}
    {s : σ} {t u : I.Trace} :
    stateAfter answer s (t ++ u) = stateAfter answer (stateAfter answer s t) u :=
  List.foldl_append

/-- A machine answers two traces in a row by answering the second from where the first one
leaves it. -/
theorem answeredBy_append {σ : Type} {answer : (r : I.Request) → StateM σ (I.Answer r)}
    {s : σ} {t u : I.Trace} :
    AnsweredBy answer s (t ++ u)
      ↔ AnsweredBy answer s t ∧ AnsweredBy answer (stateAfter answer s t) u := by
  induction t generalizing s with
  | nil => exact ⟨fun h => ⟨trivial, h⟩, fun h => h.2⟩
  | cons e t ih =>
    show _ ∧ AnsweredBy answer (answer e.1 s).2 (t ++ u) ↔ _
    rw [ih, ← and_assoc]
    exact Iff.rfl

/-- Interpreting a program on a machine is one of its runs: there is a trace that the
machine answers, and that leaves it as it is then. -/
theorem exists_runs_run {σ : Type} (answer : (r : I.Request) → StateM σ (I.Answer r))
    (p : Program I α) (s : σ) :
    ∃ t, Runs p t (p.run answer s).1 ∧ AnsweredBy answer s t
      ∧ stateAfter answer s t = (p.run answer s).2 := by
  induction p generalizing s with
  | done value => exact ⟨[], .done value, trivial, rfl⟩
  | request r resume ih =>
    obtain ⟨t, hruns, hanswers, hafter⟩ := ih (answer r s).1 (answer r s).2
    exact ⟨⟨r, (answer r s).1⟩ :: t, .request _ hruns, ⟨rfl, hanswers⟩, hafter⟩

end Program

-- ============================================================== safety

section

variable {E : Type} {P : List E → E → Prop} {h t u pre post : List E} {e : E}

/-- Every event of a trace has a property, given everything before it; `h` is
what came before the trace. -/
def Always (P : List E → E → Prop) : List E → List E → Prop
  | _, [] => True
  | h, e :: t => P h e ∧ Always P (h ++ [e]) t

@[simp] theorem always_nil : Always P h [] := trivial

@[simp] theorem always_cons : Always P h (e :: t) ↔ P h e ∧ Always P (h ++ [e]) t := Iff.rfl

@[simp] theorem always_append : Always P h (t ++ u) ↔ Always P h t ∧ Always P (h ++ t) u := by
  induction t generalizing h with
  | nil => simp
  | cons e t ih =>
    rw [List.cons_append, always_cons, always_cons, ih, and_assoc, List.append_assoc,
      List.singleton_append]

/-- What holds of every event whatever came before holds along a trace. -/
theorem always_of_forall (ht : ∀ e ∈ t, ∀ h, P h e) : Always P h t := by
  induction t generalizing h with
  | nil => exact always_nil
  | cons e t ih =>
    obtain ⟨he, hrest⟩ := List.forall_mem_cons.1 ht
    exact always_cons.2 ⟨he h, ih hrest⟩

/-- What always holds holds at any point of the trace. -/
theorem Always.at_split (ht : Always P h (pre ++ e :: post)) : P (h ++ pre) e :=
  (always_append.1 ht).2.1

end

end Servo
