/-
What a refused parameter changes of a bring-up: the list of refused parameters.

Seven parameters of a drive are optional: each is written once, after the operation mode,
and a refusal is noted and goes into the report. Two runs are compared here whose buses
answer in the same way but for these writes (`AnswersAlike`). They make the same requests
to their end, and report the same but for that list (`optional_failures_isolated`), whatever
becomes of the writes, and whatever the bus does after them.

# Which write it is

An optional write is known by its turn: the first write of a bring-up is that of the
operation mode, and the next ones are those of the optional parameters, in their order
(`OptionalWrite`). A negotiation may come to write the same bytes to the same item later on;
that is not such a write, and its answer decides how the negotiation goes on.

# Two runs at once

Two programs are isolated (`Isolated`) if they make the same requests for as long as they
get the same answers, whatever is answered to the optional writes, given how many writes
there were. It holds of a program and itself if it writes nothing (`isolated_of_only`) or if
all optional writes are behind it (`isolated_late`); programs in sequence are isolated if
their parts are (`Isolated.bind`). So the stages up to the parameters, and all those behind
them, need no argument of their own.
-/
import Servo.Proofs.Bringup.SafeOutputs

namespace Servo.Bringup

open Program Bus

variable {α β : Type} {c : Config} {layout : Layout} {name : String} {slaves : UInt16}
  {n : Nat} {r : Bus.Request} {t t' h h' : Trace}

-- =============================================================== writes

/-- The request writes an item of a dictionary. -/
def Writes : Bus.Request → Prop
  | .sdoWrite _ _ _ => True
  | _ => False

instance : DecidablePred Writes
  | .sdoWrite _ _ _ => .isTrue trivial
  | .init _ | .discover | .clocks | .map | .setState _ _ | .state _ | .clearAl _ | .exchange
  | .sdoRead _ _ _ | .outputs _ | .setOutputs _ _ | .inputs _ | .close => .isFalse id

/-- The writes of a trace, in order. -/
def writesOf (t : Trace) : List Bus.Request := (requests t).filter (decide <| Writes ·)

/-- The answers to the writes of a trace, in order. -/
def written (t : Trace) : List (Except Fault Unit) :=
  t.filterMap fun
    | ⟨.sdoWrite _ _ _, answer⟩ => some answer
    | _ => none

@[simp] theorem written_append (t u : Trace) : written (t ++ u) = written t ++ written u :=
  List.filterMap_append

@[simp] theorem writesOf_append (t u : Trace) : writesOf (t ++ u) = writesOf t ++ writesOf u := by
  unfold writesOf
  rw [requests_append, List.filter_append]

/-- What is no write adds no answer to those of the writes. -/
theorem written_of_not_writes (hr : ¬ Writes r) (a : r.Answer) : written [⟨r, a⟩] = [] := by
  cases r with
  | sdoWrite => exact absurd trivial hr
  | _ => rfl

/-- A write adds one answer to those of the writes. -/
theorem length_written_of_writes (hr : Writes r) (a : r.Answer) :
    (written [⟨r, a⟩]).length = 1 := by
  cases r with
  | sdoWrite => rfl
  | _ => exact hr.elim

theorem nil_of_not_writes (ht : ∀ e ∈ t, ¬ Writes e.1) : writesOf t = [] ∧ written t = [] := by
  induction t with
  | nil => exact ⟨rfl, rfl⟩
  | cons e t ih =>
    obtain ⟨he, hrest⟩ := List.forall_mem_cons.1 ht
    obtain ⟨hnone, hunwritten⟩ := ih hrest
    rw [← List.singleton_append, writesOf_append, written_append, hnone, hunwritten,
      List.append_nil, List.append_nil]
    exact ⟨List.filter_eq_nil_iff.2 (by simpa [requests] using he), written_of_not_writes he e.2⟩

/-- After so many writes the request is the write of an optional parameter: they follow one
write, that of the operation mode. -/
def OptionalWrite (c : Config) (writes : Nat) (r : Bus.Request) : Prop :=
  ∃ i parameter, writes = i + 1 ∧ (optionalParameters c.parameters)[i]? = some parameter
    ∧ r = parameter.request c.slave

theorem OptionalWrite.writes (hr : OptionalWrite c n r) : Writes r := by
  obtain ⟨i, parameter, -, -, rfl⟩ := hr
  trivial

/-- After the operation mode and seven parameters, all that is written is something else. -/
theorem not_optionalWrite_of_late (hn : 8 ≤ n) : ¬ OptionalWrite c n r := by
  rintro ⟨i, parameter, rfl, hparameter, -⟩
  have hlt : i < 7 := (List.getElem?_eq_some_iff.1 hparameter).1
  omega

-- ================================================================ alike

/-- The same requests, with the same answers but to the writes of optional parameters. -/
inductive Alike (c : Config) : Trace → Trace → Prop
  | nil : Alike c [] []
  | event {h h' : Trace} {r : Bus.Request} {a a' : r.Answer} :
      Alike c h h' → OptionalWrite c (written h).length r ∨ a = a' →
      Alike c (h ++ [⟨r, a⟩]) (h' ++ [⟨r, a'⟩])

/-- Alike histories have the same requests. -/
theorem Alike.requests_eq (hh : Alike c h h') : requests h = requests h' := by
  induction hh with
  | nil => rfl
  | event _ _ ih =>
    rw [requests_append, requests_append, ih]
    rfl

/-- Histories stay alike while the same follows both. -/
theorem Alike.append (hh : Alike c h h') (t : Trace) : Alike c (h ++ t) (h' ++ t) := by
  induction t generalizing h h' with
  | nil =>
    rw [List.append_nil, List.append_nil]
    exact hh
  | cons e t ih =>
    rw [List.append_cons, List.append_cons h']
    exact ih (hh.event (.inr rfl))

/-- In two runs each request gets the same answer after alike histories, if it is not the
write of an optional parameter. -/
def AnswersAlike (c : Config) (t t' : Trace) : Prop :=
  ∀ (h h' u u' : Trace) (r : Bus.Request) (a a' : r.Answer), Alike c h h' →
    t = h ++ ⟨r, a⟩ :: u → t' = h' ++ ⟨r, a'⟩ :: u' →
    OptionalWrite c (written h).length r ∨ a = a'

-- ============================================================= isolated

/-- After so many writes, two programs make the same requests for as long as they get the same
answers, whatever is answered to the optional writes, and end with values that `Q` relates. -/
inductive Isolated (c : Config) (Q : Nat → α → α → Prop) :
    Nat → BusProgram α → BusProgram α → Prop
  | done {n : Nat} {a a' : α} : Q n a a' → Isolated c Q n (.done a) (.done a')
  | other {n : Nat} {r : Bus.Request} {f f' : r.Answer → BusProgram α} : ¬ Writes r →
      (∀ a, Isolated c Q n (f a) (f' a)) → Isolated c Q n (.request r f) (.request r f')
  | write {n : Nat} {r : Bus.Request} {f f' : r.Answer → BusProgram α} : Writes r →
      ¬ OptionalWrite c n r → (∀ a, Isolated c Q (n + 1) (f a) (f' a)) →
      Isolated c Q n (.request r f) (.request r f')
  | optional {n : Nat} {r : Bus.Request} {f f' : r.Answer → BusProgram α} :
      OptionalWrite c n r → (∀ a a', Isolated c Q (n + 1) (f a) (f' a')) →
      Isolated c Q n (.request r f) (.request r f')

section

variable {Q R : Nat → α → α → Prop} {p p' : BusProgram α} {a a' : α}

/-- Isolated programs in sequence are isolated, if what follows is for any two related
values. -/
theorem Isolated.bind {R : Nat → β → β → Prop} {f f' : α → BusProgram β}
    (hp : Isolated c Q n p p')
    (hf : ∀ m a a', Q m a a' → Isolated c R m (f a) (f' a')) :
    Isolated c R n (p >>= f) (p' >>= f') := by
  show Isolated c R n (p.bind f) (p'.bind f')
  induction hp with
  | done hq => exact hf _ _ _ hq
  | other hr _ ih => exact .other hr ih
  | write hr hnot _ ih => exact .write hr hnot ih
  | optional hr _ ih => exact .optional hr ih

/-- A weaker relation between the values is kept too. -/
theorem Isolated.mono (hp : Isolated c Q n p p') (h : ∀ m a a', Q m a a' → R m a a') :
    Isolated c R n p p' := by
  induction hp with
  | done hq => exact .done (h _ _ _ hq)
  | other hr _ ih => exact .other hr ih
  | write hr hnot _ ih => exact .write hr hnot ih
  | optional hr _ ih => exact .optional hr ih

/-- A program that writes nothing. -/
theorem isolated_of_only (hp : p.Only fun r => ¬ Writes r) :
    Isolated c (fun m a a' => m = n ∧ a = a') n p p := by
  induction p with
  | done value => exact .done ⟨rfl, rfl⟩
  | request r resume ih => exact .other hp.1 fun answer => ih answer (hp.2 answer)

/-- A program behind all optional writes. -/
theorem isolated_late (hn : 8 ≤ n) (p : BusProgram α) :
    Isolated c (fun m a a' => 8 ≤ m ∧ a = a') n p p := by
  induction p generalizing n with
  | done value => exact .done ⟨hn, rfl⟩
  | request r resume ih =>
    by_cases hr : Writes r
    · exact .write hr (not_optionalWrite_of_late hn) fun answer => ih answer (by omega)
    · exact .other hr fun answer => ih answer hn

/-- Isolated programs have alike runs where they are answered alike, after alike histories. -/
theorem Isolated.runs (hp : Isolated c Q n p p') (hn : (written h).length = n)
    (hh : Alike c h h') (hrun : Runs p t a) (hrun' : Runs p' t' a')
    (hanswers : AnswersAlike c (h ++ t) (h' ++ t')) :
    Alike c (h ++ t) (h' ++ t') ∧ ∃ m, Q m a a' := by
  induction hp generalizing h h' t t' with
  | @done m _ _ hq =>
    obtain ⟨rfl, rfl⟩ := runs_done_iff.1 hrun
    obtain ⟨rfl, rfl⟩ := runs_done_iff.1 hrun'
    rw [List.append_nil, List.append_nil]
    exact ⟨hh, m, hq⟩
  | other hr _ ih =>
    obtain ⟨v, u, rfl, hnext⟩ := runs_request_iff.1 hrun
    obtain ⟨v', u', rfl, hnext'⟩ := runs_request_iff.1 hrun'
    obtain rfl : v = v' := (hanswers h h' u u' _ v v' hh rfl rfl).resolve_left
      fun hopt => hr hopt.writes
    rw [List.append_cons, List.append_cons h'] at hanswers ⊢
    refine ih v ?_ (hh.event (.inr rfl)) hnext hnext' hanswers
    rw [written_append, written_of_not_writes hr, List.append_nil, hn]
  | write hr hnot _ ih =>
    obtain ⟨v, u, rfl, hnext⟩ := runs_request_iff.1 hrun
    obtain ⟨v', u', rfl, hnext'⟩ := runs_request_iff.1 hrun'
    obtain rfl : v = v' := (hanswers h h' u u' _ v v' hh rfl rfl).resolve_left (hn ▸ hnot)
    rw [List.append_cons, List.append_cons h'] at hanswers ⊢
    refine ih v ?_ (hh.event (.inr rfl)) hnext hnext' hanswers
    rw [written_append, List.length_append, length_written_of_writes hr, hn]
  | optional hr _ ih =>
    obtain ⟨v, u, rfl, hnext⟩ := runs_request_iff.1 hrun
    obtain ⟨v', u', rfl, hnext'⟩ := runs_request_iff.1 hrun'
    rw [List.append_cons, List.append_cons h'] at hanswers ⊢
    refine ih v v' ?_ (hh.event (.inl (hn ▸ hr))) hnext hnext' hanswers
    rw [written_append, List.length_append, length_written_of_writes hr.writes, hn]

end

-- =============================================================== stages

/-- Two stages end early for the same reason, or end with values that are related. -/
inductive SameResult (V : α → α → Prop) : Except Stop α → Except Stop α → Prop
  | error (stop : Stop) : SameResult V (.error stop) (.error stop)
  | ok {a a' : α} : V a a' → SameResult V (.ok a) (.ok a')

/-- Two stages that are isolated as programs. -/
abbrev IsolatedStage (c : Config) (V : Nat → α → α → Prop) (n : Nat) (p p' : Stage α) : Prop :=
  Isolated c (fun m => SameResult (V m)) n p.run p'.run

section

variable {V : Nat → α → α → Prop} {W : Nat → β → β → Prop} {p p' : Stage α} {a a' : α}

theorem isolatedStage_pure (hv : V n a a') : IsolatedStage c V n (pure a) (pure a') :=
  .done (.ok hv)

/-- Both runs may end everything for the same reason. -/
theorem isolatedStage_throw (stop : Stop) :
    IsolatedStage c V n (throw stop : Stage α) (throw stop) := .done (.error stop)

/-- Stages in sequence are isolated, as a reason to end everything is the same in both runs.
-/
theorem IsolatedStage.bind {f f' : α → Stage β} (hp : IsolatedStage c V n p p')
    (hf : ∀ m a a', V m a a' → IsolatedStage c W m (f a) (f' a')) :
    IsolatedStage c W n (p >>= f) (p' >>= f') := by
  unfold IsolatedStage
  rw [ExceptT.run_bind, ExceptT.run_bind]
  refine Isolated.bind hp fun m r r' hr => ?_
  cases hr with
  | error e => exact .done (.error e)
  | ok hv => exact hf m _ _ hv

/-- A program that cannot fail is isolated as a stage too. -/
theorem isolatedStage_lift {p : BusProgram α} (hp : Isolated c V n p p) :
    IsolatedStage c V n (liftM p) (liftM p) := by
  unfold IsolatedStage
  rw [ExceptT.run_liftM, map_eq_pure_bind]
  exact hp.bind fun m a a' hv => .done (.ok hv)

/-- The results of one run are the same results. -/
theorem sameResult_self {K : Prop} {r r' : Except Stop α} (h : K ∧ r = r') :
    SameResult (fun a a' => K ∧ a = a') r r' := by
  obtain ⟨hk, rfl⟩ := h
  cases r with
  | error e => exact .error e
  | ok a => exact .ok ⟨hk, rfl⟩

/-- A stage that writes nothing has nothing to be isolated from. -/
theorem isolatedStage_of_only (hp : p.run.Only fun r => ¬ Writes r) :
    IsolatedStage c (fun m a a' => m = n ∧ a = a') n p p :=
  (isolated_of_only hp).mono fun _ _ _ h => sameResult_self h

/-- Neither has one that comes after all optional writes. -/
theorem isolatedStage_late (hn : 8 ≤ n) (p : Stage α) :
    IsolatedStage c (fun m a a' => 8 ≤ m ∧ a = a') n p p :=
  (isolated_late hn p.run).mono fun _ _ _ h => sameResult_self h

end

/-- The optional parameters from one of them on, after those before it. -/
theorem isolated_writeOptional (before : List Parameter) {rest : List Parameter}
    (hall : optionalParameters c.parameters = before ++ rest) :
    Isolated c (fun m _ _ => 8 ≤ m) (before.length + 1) (writeOptional c.slave rest)
      (writeOptional c.slave rest) := by
  induction rest generalizing before with
  | nil =>
    have hlength : 7 = before.length := by
      rw [List.append_nil] at hall
      rw [← hall]
      rfl
    exact .done (by omega)
  | cons parameter rest ih =>
    have hturn : OptionalWrite c (before.length + 1) (parameter.request c.slave) :=
      ⟨before.length, parameter, rfl, by simp [hall], rfl⟩
    have hlater := ih (before ++ [parameter]) (by simp [hall])
    rw [List.length_append, List.length_singleton] at hlater
    refine .optional hturn fun a a' => hlater.bind fun m others others' hm => ?_
    cases a <;> cases a' <;> exact .done hm

/-- All optional writes are made here, and the mode that is read afterwards is the same. -/
theorem isolated_writeParameters :
    IsolatedStage c (fun m a a' => 8 ≤ m ∧ a.2 = a'.2) 0 (writeParameters c)
      (writeParameters c) := by
  have hfirst {r : Bus.Request} : ¬ OptionalWrite c 0 r := by
    rintro ⟨i, _, hi, -⟩
    exact Nat.succ_ne_zero i hi.symm
  have hmode : IsolatedStage c (fun m _ _ => m = 1) 0
      (require (DataObject.Standard.modeOfOperation.write c.slave .torqueProfile))
      (require (DataObject.Standard.modeOfOperation.write c.slave .torqueProfile)) := by
    refine .write trivial hfirst fun answer => .done ?_
    cases answer with
    | error fault => exact .error _
    | ok => exact .ok rfl
  unfold writeParameters
  refine hmode.bind fun m _ _ hm => ?_
  subst hm
  refine (isolatedStage_lift (isolated_writeOptional [] rfl)).bind
    fun m failures failures' hm => ?_
  refine (isolatedStage_late hm _).bind fun m mode _ hmode => ?_
  obtain ⟨hm, rfl⟩ := hmode
  exact isolatedStage_pure ⟨hm, rfl⟩

/-- Two reports differ in the refused parameters at most. -/
def SameReport (report report' : Report) : Prop :=
  report' = { report with parameterFailures := report'.parameterFailures }

/-- The stages are isolated: the optional writes stand between the operation mode and the
mappings. -/
theorem isolated_stages :
    IsolatedStage c (fun _ => SameReport) 0 (stages c layout slaves) (stages c layout slaves) := by
  have hstates {target : AlState} : IsolatedStage c (fun m a a' => m = 0 ∧ a = a') 0
      (bringTo c.timing target (slavesOf slaves)) (bringTo c.timing target (slavesOf slaves)) :=
    isolatedStage_of_only (only_bringTo (fun _ => ⟨id, id⟩) (fun _ => id) fun _ _ => id)
  unfold stages
  by_cases hzero : slaves = 0
  · rw [if_pos hzero]
    exact (isolatedStage_throw (V := fun _ _ _ => False) _).bind fun _ _ _ h => h.elim
  by_cases hmissing : slaves < c.slave
  · rw [if_neg hzero, if_pos hmissing]
    exact (isolatedStage_throw (V := fun _ _ _ => False) _).bind fun _ _ _ h => h.elim
  rw [if_neg hzero, if_neg hmissing]
  refine hstates.bind fun m _ _ hm => ?_
  obtain ⟨rfl, -⟩ := hm
  refine hstates.bind fun m _ _ hm => ?_
  obtain ⟨rfl, -⟩ := hm
  refine isolated_writeParameters.bind fun m parameters parameters' hm => ?_
  obtain ⟨failures, mode⟩ := parameters
  obtain ⟨failures', mode'⟩ := parameters'
  obtain ⟨hm, rfl⟩ := hm
  refine (isolatedStage_late hm _).bind fun m mappings _ hm => ?_
  obtain ⟨hm, rfl⟩ := hm
  refine (isolatedStage_late hm _).bind fun m clocks _ hm => ?_
  obtain ⟨hm, rfl⟩ := hm
  refine (isolatedStage_late hm _).bind fun m image _ hm => ?_
  obtain ⟨hm, rfl⟩ := hm
  refine (isolatedStage_late hm _).bind fun m _ _ hm => ?_
  refine (isolatedStage_late hm.1 _).bind fun m _ _ hm => ?_
  refine (isolatedStage_late hm.1 _).bind fun m _ _ hm => ?_
  refine (isolatedStage_late hm.1 _).bind fun m _ _ hm => ?_
  exact isolatedStage_pure rfl

-- ============================================================== the run

/-- Giving the bus up writes to no dictionary. -/
theorem only_release : (release slaves).Only fun r => ¬ Writes r := by
  have hreset (list : List UInt16) : (resetSlaves list).Only fun r => ¬ Writes r := by
    induction list with
    | nil => exact only_pure _
    | cons slave rest ih =>
      have hask : (Bus.perform (.setState slave .init)).Only fun r => ¬ Writes r := only_perform id
      exact hask.bind fun _ => ih
  exact (hreset _).bind fun _ => only_perform id

/-- So a whole bring-up is isolated, the way out included. -/
theorem isolated_run :
    Isolated c (fun _ => SameResult SameReport) 0 (run c layout name) (run c layout name) := by
  have hopen : IsolatedStage c (fun m a a' => m = 0 ∧ a = a') 0 (openBus name) (openBus name) :=
    isolatedStage_of_only (only_openBus id id)
  have habandon (m : Nat) (slaves : UInt16) (stop : Stop) :
      Isolated c (fun _ => SameResult SameReport) m (abandon slaves stop) (abandon slaves stop) := by
    cases stop with
    | failed e => exact (isolated_of_only only_release).bind fun _ _ _ _ => .done (.error _)
    | panicked => exact .done (.error _)
  unfold run
  refine Isolated.bind hopen fun m opened opened' hm => ?_
  cases hm with
  | error stop => exact habandon m 0 stop
  | @ok slaves _ hm =>
    obtain ⟨rfl, rfl⟩ := hm
    refine Isolated.bind isolated_stages fun m finished finished' hm => ?_
    cases hm with
    | error stop => exact habandon m slaves stop
    | ok hreport => exact .done (.ok hreport)

-- ============================================================ refusals

/-- The parameters that were refused, by the answers to their writes. -/
def refusals (parameters : List Parameter) (answers : List (Except Fault Unit)) :
    List (String × Fault) :=
  (parameters.zip answers).filterMap fun
    | (_, .ok ()) => none
    | (parameter, .error fault) => some (parameter.name, fault)

/-- The write of the operation mode, which is not optional. -/
def modeWrite (c : Config) : Bus.Request :=
  .sdoWrite c.slave DataObject.Standard.modeOfOperation.address
    (Packed.bytes OperationMode.torqueProfile)

/-- What is noted of the optional writes in a trace. -/
structure Noted (c : Config) (t : Trace) (failures : List (String × Fault)) : Prop where
  /-- The optional writes are those after the first one. -/
  first : (writesOf t).take 8
    = modeWrite c :: (optionalParameters c.parameters).map (Parameter.request c.slave)
  failures : failures = refusals (optionalParameters c.parameters) (written t).tail

/-- Each parameter is written once, and those with a refusal are noted in their order. -/
theorem writeOptional_refusals {slave : UInt16} {parameters : List Parameter}
    {failures : List (String × Fault)} (h : Runs (writeOptional slave parameters) t failures) :
    (written t).length = parameters.length ∧ failures = refusals parameters (written t) := by
  induction parameters generalizing t failures with
  | nil =>
    obtain ⟨rfl, rfl⟩ := runs_pure_iff.1 h
    exact ⟨rfl, rfl⟩
  | cons parameter rest ih =>
    obtain ⟨answer, u, rfl, hrest⟩ := runs_request_bind_iff.1 h
    obtain ⟨v, others, w, rfl, hwrite, hdone⟩ := runs_bind_iff.1 hrest
    obtain ⟨hlength, rfl⟩ := ih hwrite
    cases answer with
    | ok =>
      obtain ⟨rfl, rfl⟩ := runs_pure_iff.1 hdone
      rw [List.append_nil]
      exact ⟨congrArg (· + 1) hlength, rfl⟩
    | error fault =>
      obtain ⟨rfl, rfl⟩ := runs_pure_iff.1 hdone
      rw [List.append_nil]
      exact ⟨congrArg (· + 1) hlength, rfl⟩

/-- The operation mode is written before the optional parameters, and nothing after them. -/
theorem writeParameters_refusals {result : List (String × Fault) × Option Int8}
    (h : Runs (writeParameters c).run t (.ok result)) :
    ∃ answers, writesOf t
        = modeWrite c :: (optionalParameters c.parameters).map (Parameter.request c.slave)
      ∧ written t = .ok () :: answers ∧ answers.length = 7
      ∧ result.1 = refusals (optionalParameters c.parameters) answers := by
  unfold writeParameters at h
  obtain ⟨u, _, v, rfl, hmode, h⟩ := runs_bind_ok_iff.1 h
  obtain ⟨v, failures, w, rfl, hwrites, h⟩ := runs_bind_ok_iff.1 h
  obtain ⟨w, shown, x, rfl, hshown, h⟩ := runs_bind_ok_iff.1 h
  obtain ⟨rfl, hresult⟩ := runs_pure_iff.1 h
  cases hresult
  obtain ⟨_, hfailures, hwrites⟩ := runs_lift_iff.1 hwrites
  cases hfailures
  obtain ⟨_, -, hshown⟩ := runs_lift_iff.1 hshown
  obtain ⟨answer, rfl, -⟩ := DataObject.runs_read_iff.1 hshown
  obtain rfl := runs_perform_iff.1 (runs_require_ok_iff.1 hmode)
  obtain ⟨hlength, hrefusals⟩ := writeOptional_refusals hwrites
  have hall : writesOf v
      = (optionalParameters c.parameters).map (Parameter.request c.slave) := by
    unfold writesOf
    rw [writeOptional_requests hwrites]
    rfl
  refine ⟨written v, ?_, ?_, hlength, hrefusals⟩
  · rw [← hall, writesOf_append, writesOf_append]
    exact congrArg (modeWrite c :: ·) (List.append_nil _)
  · rw [written_append, written_append]
    exact congrArg (Except.ok () :: ·) (List.append_nil _)

/-- What writes nothing may come before. -/
theorem Noted.prepend {failures : List (String × Fault)} (h : Noted c t failures)
    (hu : ∀ e ∈ h', ¬ Writes e.1) : Noted c (h' ++ t) failures := by
  obtain ⟨hnone, hunwritten⟩ := nil_of_not_writes hu
  constructor
  · rw [writesOf_append, hnone]
    exact h.first
  · rw [written_append, hunwritten]
    exact h.failures

/-- The report notes the refused parameters, and nothing else. -/
theorem stages_noted {report : Report} (h : Runs (stages c layout slaves).run t (.ok report)) :
    Noted c t report.parameterFailures := by
  obtain ⟨-, -, -, -, s, rfl⟩ := exists_staged h
  obtain ⟨answers, hwrites, hwritten, hlength, hrefusals⟩ :=
    writeParameters_refusals s.parameters_runs
  have hstates {target : AlState} :
      (bringTo c.timing target (slavesOf report.slaves)).run.Only fun r => ¬ Writes r :=
    only_bringTo (fun _ => ⟨id, id⟩) (fun _ => id) fun _ _ => id
  unfold Staged.trace
  refine Noted.prepend ?_ (hstates.of_runs s.toInit_runs)
  refine Noted.prepend ?_ (hstates.of_runs s.toPreOperational_runs)
  constructor
  · rw [writesOf_append, hwrites]
    rfl
  · have hzip (later : List (Except Fault Unit)) :
        (optionalParameters c.parameters).zip (answers ++ later)
          = (optionalParameters c.parameters).zip answers := by
      -- what is written later finds no parameter left
      have happend : (optionalParameters c.parameters ++ []).zip (answers ++ later)
          = (optionalParameters c.parameters).zip answers ++ [].zip later :=
        List.zip_append hlength.symm
      rwa [List.append_nil, List.zip_nil_left, List.append_nil] at happend
    rw [written_append, hwritten, List.cons_append, List.tail_cons]
    refine hrefusals.trans ?_
    unfold refusals
    rw [hzip]

-- ============================================================ isolation

/-- Two runs of a bring-up whose buses answer in the same way but for the writes of optional
parameters: they make the same requests, and end early for the same reason or with reports that
differ in the refused parameters alone. Each report has the names and the faults of the
optional writes that were refused in its run, in order. -/
theorem optional_failures_isolated {result result' : Except Stop Report}
    (hrun : Runs (run c layout name) t result) (hrun' : Runs (run c layout name) t' result')
    (hanswers : AnswersAlike c t t') :
    requests t = requests t' ∧ SameResult SameReport result result'
      ∧ (∀ report, result = .ok report → Noted c t report.parameterFailures)
      ∧ ∀ report, result' = .ok report → Noted c t' report.parameterFailures := by
  have hnoted {u : Trace} {report : Report} (hok : Runs (run c layout name) u (.ok report)) :
      Noted c u report.parameterFailures := by
    obtain ⟨slaves, v, rfl, hstages⟩ := runs_run_ok hok
    exact (stages_noted hstages).prepend
      (List.forall_mem_cons.2 ⟨id, List.forall_mem_singleton.2 id⟩)
  obtain ⟨halike, _, hsame⟩ := isolated_run.runs rfl .nil hrun hrun' hanswers
  refine ⟨halike.requests_eq, hsame, ?_, ?_⟩
  · rintro report rfl
    exact hnoted hrun
  · rintro report rfl
    exact hnoted hrun'

/-- The end of a list that is cut at one of its elements. -/
theorem concat_eq_append_cons {first before after : Trace} {last e : Event}
    (h : first ++ [last] = before ++ e :: after) :
    first = before ∧ last = e ∧ after = []
      ∨ ∃ after', after = after' ++ [last] ∧ first = before ++ e :: after' := by
  rcases List.eq_nil_or_concat after with rfl | ⟨after', z, rfl⟩
  · obtain ⟨rfl, hlast⟩ := List.append_inj' h rfl
    exact .inl ⟨rfl, (List.cons.inj hlast).1, rfl⟩
  · rw [List.concat_eq_append, ← List.cons_append, ← List.append_assoc] at h
    obtain ⟨rfl, hlast⟩ := List.append_inj' h rfl
    rw [(List.cons.inj hlast).1, List.concat_eq_append]
    exact .inr ⟨after', rfl, rfl⟩

/-- Alike runs are answered alike. -/
theorem Alike.answersAlike (ht : Alike c t t') : AnswersAlike c t t' := by
  intro h h' u u' r a a' hh hsplit hsplit'
  have hlength : h.length = h'.length := by
    simpa [requests] using congrArg List.length hh.requests_eq
  induction ht generalizing u u' with
  | nil => simp at hsplit
  | event ht hlast ih =>
    have hsame := congrArg List.length ht.requests_eq
    simp only [requests, List.length_map] at hsame
    rcases concat_eq_append_cons hsplit with ⟨rfl, he, rfl⟩ | ⟨v, rfl, hfirst⟩
    · rcases concat_eq_append_cons hsplit' with ⟨rfl, he', rfl⟩ | ⟨v', rfl, rfl⟩
      · cases he
        cases he'
        exact hlast
      · simp at hsame
        omega
    · rcases concat_eq_append_cons hsplit' with ⟨rfl, he', rfl⟩ | ⟨v', rfl, hfirst'⟩
      · rw [hfirst] at hsame
        simp at hsame
        omega
      · exact ih v v' hfirst hfirst'

/-- The write that the sample refuses, with an answer. -/
def sampleWrite (answer : Except Fault Unit) : Event :=
  ⟨.sdoWrite 2 DataObject.Standard.maxTorque.address (Packed.bytes (1000 : UInt16)), answer⟩

/-- The sample where that write is taken, and all else is answered as it was. -/
def takenTrace : Trace := sampleRun.1.take 16 ++ [sampleWrite (.ok ())] ++ sampleRun.1.drop 17

theorem takenTrace_runs : Runs (run { slave := 2 } .standard "eth0") takenTrace
    (.ok { sampleReport with parameterFailures := [] }) :=
  Runs.of_replay rfl

/-- It is the third one, after the operation mode and the rated current. -/
theorem alike_sample : Alike { slave := 2 } sampleRun.1 takenTrace := by
  let before := sampleRun.1.take 16
  let after := sampleRun.1.drop 17
  let fault := Fault.sdo 2 DataObject.Standard.maxTorque.address Simulation.Slave.generalAbort
  have hrefused : sampleRun.1 = before ++ [sampleWrite (.error fault)] ++ after := by rfl
  have hopt : OptionalWrite { slave := 2 } (written before).length (sampleWrite (.ok ())).1 :=
    ⟨1, _, by rfl, rfl, rfl⟩
  rw [hrefused]
  exact ((Alike.nil.append before).event (.inl hopt)).append after

/-- The two make the same requests, and their reports differ in one entry. -/
theorem optional_failures_isolated_sample :
    requests sampleRun.1 = requests takenTrace
      ∧ SameReport sampleReport { sampleReport with parameterFailures := [] }
      ∧ Noted { slave := 2 } sampleRun.1 [("max torque",
          .sdo 2 DataObject.Standard.maxTorque.address Simulation.Slave.generalAbort)]
      ∧ Noted { slave := 2 } takenTrace [] := by
  obtain ⟨hrequests, hsame, hnoted, hnoted'⟩ :=
    optional_failures_isolated sampleRun_runs takenTrace_runs alike_sample.answersAlike
  cases hsame with
  | ok hreport => exact ⟨hrequests, hreport, hnoted _ rfl, hnoted' _ rfl⟩

end Servo.Bringup
