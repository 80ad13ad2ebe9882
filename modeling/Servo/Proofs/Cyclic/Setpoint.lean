/-
The setpoint reaches nothing but the torque field.

Two histories of an exchange are alike (`Alike`) if they differ in the setpoints and
in what the outputs of the slave hold in the torque field, and in nothing else.
Surroundings that cannot tell alike histories apart (`Surroundings`) answer both in
the same way, so whatever an exchange does in them, it does with any other setpoints
too (`setpoint_only_in_torque`).

# Two runs at once

Two programs are matched (`Matches`) if they make alike requests for as long as they
get alike answers, and end with the same value then. Programs in sequence are matched
if their parts are (`Matches.bind`), and after most requests the answers are the same
(`Matches.plain`). Only three programs go on with what may differ: a send, an attempt
of the enabling sequence, and the stop, which write to the outputs that they find.
-/
import Mathlib.Data.List.Forall2
import Servo.Proofs.Cyclic.Telemetry
import Servo.Proofs.Field

namespace Servo.Cyclic

open Program

variable {α β : Type} {c : Settings} {s s' : State} {t t' u u' h h' : Trace} {e e' : Event}

-- ================================================================ alike

/-- The outputs of the slave differ in the torque field at most. -/
abbrev SameOutputs (c : Settings) : Bytes → Bytes → Prop := c.layout.targetTorque.AgreeOutside

/-- Two requests are the same, but for a torque that is handed over. -/
inductive AlikeRequest (c : Settings) : Request → Request → Prop
  | same (r : Request) : AlikeRequest c r r
  | setOutputs {bytes bytes' : Bytes} : SameOutputs c bytes bytes' →
    AlikeRequest c (.bus (.setOutputs c.slave bytes)) (.bus (.setOutputs c.slave bytes'))

/-- Two events are the same, but for the setpoint and for the torque in the outputs. -/
inductive Alike (c : Settings) : Event → Event → Prop
  | same (e : Event) : Alike c e e
  | setpoint (v v' : Single) : Alike c ⟨.setpoint, v⟩ ⟨.setpoint, v'⟩
  | outputs {bytes bytes' : Bytes} : SameOutputs c bytes bytes' →
    Alike c ⟨.bus (.outputs c.slave), bytes⟩ ⟨.bus (.outputs c.slave), bytes'⟩
  | setOutputs {bytes bytes' : Bytes} : SameOutputs c bytes bytes' →
    Alike c ⟨.bus (.setOutputs c.slave bytes), ()⟩ ⟨.bus (.setOutputs c.slave bytes'), ()⟩

/-- Whatever answers the exchange, given all that was requested before: the bus, the
control side and the clock. Only the setpoints are not its own, and it does not know of
them, nor of the torque in the outputs. -/
structure Surroundings (c : Settings) where
  answer : Trace → (r : Request) → r.Answer
  blind : ∀ h h' r, List.Forall₂ (Alike c) h h' → Alike c ⟨r, answer h r⟩ ⟨r, answer h' r⟩

/-- The answers of a trace after a history are those of the surroundings, for any
setpoints. -/
inductive Surroundings.Answers (world : Surroundings c) : Trace → Trace → Prop
  | nil (h : Trace) : Answers world h []
  | event {h t : Trace} {e : Event} : e.1 = .setpoint ∨ e.2 = world.answer h e.1 →
    Answers world (h ++ [e]) t → Answers world h (e :: t)

/-- A trace is answered part by part, the later part on top of the earlier one. -/
theorem Surroundings.answers_append {world : Surroundings c} :
    world.Answers h (t ++ u) ↔ world.Answers h t ∧ world.Answers (h ++ t) u := by
  induction t generalizing h with
  | nil => exact ⟨fun hu => ⟨.nil h, by rwa [List.append_nil]⟩, fun ht => by simpa using ht.2⟩
  | cons e t ih =>
    have hcons : h ++ e :: t = h ++ [e] ++ t := by simp
    constructor
    · intro ht
      cases ht with
      | event he hrest =>
        obtain ⟨hfirst, hsecond⟩ := ih.1 hrest
        exact ⟨.event he hfirst, hcons ▸ hsecond⟩
    · intro ht
      obtain ⟨hfirst, hsecond⟩ := ht
      cases hfirst with
      | event he hrest => exact .event he (ih.2 ⟨hrest, hcons ▸ hsecond⟩)

/-- Surroundings that cannot see the torque answer alike after histories that are alike. -/
theorem Surroundings.alike (world : Surroundings c) {r : Request} {v v' : r.Answer}
    (hh : List.Forall₂ (Alike c) h h') (hv : r = .setpoint ∨ v = world.answer h r)
    (hv' : r = .setpoint ∨ v' = world.answer h' r) : Alike c ⟨r, v⟩ ⟨r, v'⟩ := by
  by_cases hr : r = .setpoint
  · subst hr
    exact .setpoint v v'
  · rw [hv.resolve_left hr, hv'.resolve_left hr]
    exact world.blind h h' r hh

-- ============================================================== matched

/-- Two programs make alike requests for as long as they get alike answers, and end with
the same value. -/
inductive Matches (c : Settings) : CyclicProgram α → CyclicProgram α → Prop
  | done (value : α) : Matches c (.done value) (.done value)
  | request {r r' : Request} {resume : r.Answer → CyclicProgram α}
      {resume' : r'.Answer → CyclicProgram α} : AlikeRequest c r r' →
    (∀ a a', Alike c ⟨r, a⟩ ⟨r', a'⟩ → Matches c (resume a) (resume' a')) →
    Matches c (.request r resume) (.request r' resume')

/-- A program that requests nothing matches itself. -/
theorem Matches.pure (value : α) : Matches c (pure value : CyclicProgram α) (Pure.pure value) :=
  .done value

/-- Programs match step by step. -/
theorem Matches.bind {p p' : CyclicProgram α} {f f' : α → CyclicProgram β}
    (hp : Matches c p p') (hf : ∀ a, Matches c (f a) (f' a)) :
    Matches c (p >>= f) (p' >>= f') := by
  show Matches c (p.bind f) (p'.bind f')
  induction hp with
  | done value => exact hf value
  | request hr _ ih => exact .request hr ih

/-- A request that every answer is the same to. -/
def Plain (c : Settings) : Request → Prop
  | .setpoint => False
  | .bus (.outputs slave) | .bus (.setOutputs slave _) => slave ≠ c.slave
  | _ => True

/-- A plain request has one answer in both runs. -/
theorem Alike.eq_of_plain {r : Request} {a a' : r.Answer} (hr : Plain c r)
    (h : Alike c ⟨r, a⟩ ⟨r, a'⟩) : a = a' := by
  cases h with
  | same => rfl
  | setpoint => exact hr.elim
  | outputs => exact absurd rfl hr
  | setOutputs => rfl

/-- Behind a plain request the answers are the same, so one continuation is enough. -/
theorem Matches.plain {r : Request} {f f' : r.Answer → CyclicProgram β} (hr : Plain c r)
    (hf : ∀ a, Matches c (f a) (f' a)) : Matches c (perform r >>= f) (perform r >>= f') := by
  refine .request (.same r) fun a a' halike => ?_
  rw [halike.eq_of_plain hr]
  exact hf a'

/-- The setpoints may differ, so what comes behind must match for any two. -/
theorem Matches.setpoint {f f' : Single → CyclicProgram β}
    (hf : ∀ v v', Matches c (f v) (f' v')) :
    Matches c (perform .setpoint >>= f) (perform .setpoint >>= f') :=
  .request (.same _) fun a a' _ => hf a a'

/-- The outputs that are found agree outside the torque field. -/
theorem Matches.outputs {f f' : Bytes → CyclicProgram β}
    (hf : ∀ bytes bytes', SameOutputs c bytes bytes' → Matches c (f bytes) (f' bytes')) :
    Matches c (onBus (.outputs c.slave) >>= f) (onBus (.outputs c.slave) >>= f') := by
  refine .request (.same _) fun a a' halike => hf a a' ?_
  cases halike with
  | same => exact Field.AgreeOutside.refl _ _
  | outputs h => exact h

/-- Outputs that agree outside the torque field may be handed over for one another. -/
theorem Matches.setOutputs {bytes bytes' : Bytes} {f f' : Unit → CyclicProgram β}
    (hbytes : SameOutputs c bytes bytes') (hf : Matches c (f ()) (f' ())) :
    Matches c (onBus (.setOutputs c.slave bytes) >>= f)
      (onBus (.setOutputs c.slave bytes') >>= f') :=
  .request (.setOutputs hbytes) fun _ _ _ => hf

/-- Matched programs have alike runs in the same surroundings. -/
theorem Matches.runs {world : Surroundings c} {p p' : CyclicProgram α} {a a' : α}
    (hp : Matches c p p') (hrun : Runs p t a) (hrun' : Runs p' t' a')
    (hanswers : world.Answers h t) (hanswers' : world.Answers h' t')
    (hh : List.Forall₂ (Alike c) h h') : List.Forall₂ (Alike c) t t' ∧ a = a' := by
  induction hp generalizing t t' h h' with
  | done value =>
    obtain ⟨rfl, rfl⟩ := runs_done_iff.1 hrun
    obtain ⟨rfl, rfl⟩ := runs_done_iff.1 hrun'
    exact ⟨.nil, rfl⟩
  | request hr _ ih =>
    obtain ⟨v, u, rfl, hnext⟩ := runs_request_iff.1 hrun
    obtain ⟨v', u', rfl, hnext'⟩ := runs_request_iff.1 hrun'
    cases hanswers with
    | event hv hrest =>
      cases hanswers' with
      | event hv' hrest' =>
        have halike : Alike c ⟨_, v⟩ ⟨_, v'⟩ := by
          cases hr with
          | setOutputs hbytes => exact .setOutputs hbytes
          | same => exact world.alike hh hv hv'
        obtain ⟨hevents, rfl⟩ := ih v v' halike hnext hnext' hrest hrest'
          (List.rel_append hh (.cons halike .nil))
        exact ⟨.cons halike hevents, rfl⟩

-- ============================================================= programs

/-- A field that cannot be written in one of two images that differ elsewhere cannot be
written in the other. -/
theorem set_of_sameOutputs {γ : Type} [Packed γ] {bytes bytes' : Bytes}
    (hbytes : SameOutputs c bytes bytes') (f : Field γ) (v : γ) :
    (∃ e e', f.set bytes v = .error e ∧ f.set bytes' v = .error e')
      ∨ ∃ sent sent', f.set bytes v = .ok sent ∧ f.set bytes' v = .ok sent'
        ∧ SameOutputs c sent sent' := by
  have hput := hbytes.put f v
  cases hset : f.set bytes v with
  | ok sent =>
    obtain ⟨hfit, hwide, -⟩ := Field.set_eq_ok_iff.1 hset
    have hset' := Field.set_eq_put (hbytes.length ▸ hfit) hwide v
    rw [Field.put_eq_of_set hset] at hput
    exact .inr ⟨sent, _, rfl, hset', hput⟩
  | error e =>
    cases hset' : f.set bytes' v with
    | error e' => exact .inl ⟨e, e', rfl, rfl⟩
    | ok sent' =>
      obtain ⟨hfit, hwide, -⟩ := Field.set_eq_ok_iff.1 hset'
      cases hset.symm.trans (Field.set_eq_put (hbytes.length ▸ hfit) hwide v)

theorem matches_awaitReady (polls : Nat) :
    Matches c (awaitReady polls s) (awaitReady polls s) := by
  induction polls with
  | zero => exact .pure _
  | succ polls ih =>
    unfold awaitReady
    refine .plain trivial fun stopped => ?_
    split
    next => exact .pure _
    next =>
      refine .plain trivial fun ready => ?_
      split
      next => exact .plain trivial fun _ => .pure _
      next => exact ih

theorem matches_waitForMaster : Matches c (waitForMaster c s) (waitForMaster c s) :=
  (matches_awaitReady _).bind fun _ => .pure _

/-- Whatever torques are sent. -/
theorem matches_send (controlword : UInt16) (torque torque' : Int16) :
    Matches c (send c controlword torque) (send c controlword torque') := by
  refine .outputs fun bytes bytes' hbytes => ?_
  have hsent := ((hbytes.put c.layout.controlword controlword).put c.layout.mode
    OperationMode.torqueProfile.raw).put_self torque torque'
  exact .setOutputs hsent (.plain trivial fun answer => .pure _)

/-- The clock is looked at for the same inputs, and answers the same. -/
theorem matches_updateVelocity (reading : Reading) :
    Matches c (updateVelocity s reading) (updateVelocity s reading) := by
  unfold updateVelocity
  split
  · exact .pure _
  · exact .plain trivial fun now => .pure _
  · exact .pure _

theorem matches_receive (wkc : UInt16) : Matches c (receive c s wkc) (receive c s wkc) := by
  refine .plain trivial fun inputs => (matches_updateVelocity _).bind fun s' => ?_
  exact .plain trivial fun _ => .pure _

/-- A cycle matches itself whatever setpoint it takes: the setpoint goes into the torque
field, and nowhere else. -/
theorem matches_cycle : Matches c (cycle c s) (cycle c s) := by
  refine .plain trivial fun again => .setpoint fun v v' => ?_
  refine (matches_send _ _ _).bind fun wkc => ?_
  dsimp only
  split
  next => exact (matches_receive wkc).bind fun s' => .pure _
  next => exact .plain trivial fun _ => .pure _

/-- An enabling sequence takes no setpoint, and finds outputs that differ in the torque
field only. -/
theorem matches_attempts (left : Nat) (last : Option UInt16) :
    Matches c (Enabling.attempts c.slave c.layout left last)
      (Enabling.attempts c.slave c.layout left last) := by
  induction left generalizing last with
  | zero => exact .pure _
  | succ left ih =>
    unfold Enabling.attempts
    refine .plain trivial fun inputs => .plain trivial fun _ => ?_
    refine .outputs fun bytes bytes' hbytes => ?_
    dsimp only
    have hrelaxed := hbytes.put_self 0 0
    rcases set_of_sameOutputs hrelaxed c.layout.controlword
        (Drive.State.decode (c.layout.statuswordIn inputs)).controlword with
      ⟨e, e', hset, hset'⟩ | ⟨sent, sent', hset, hset', hsent⟩
    · rw [hset, hset']
      exact .setOutputs hrelaxed (.pure _)
    · rw [hset, hset']
      refine .setOutputs hsent ?_
      split
      next => exact .pure _
      next => exact .plain trivial fun _ => ih _

theorem matches_enableIfDue (good : Bool) :
    Matches c (enableIfDue c good s) (enableIfDue c good s) := by
  unfold enableIfDue
  split
  next => exact (matches_attempts _ none).bind fun outcome => .pure _
  next => exact .pure _

theorem matches_watchIfDue : Matches c (watchIfDue c s) (watchIfDue c s) := by
  unfold watchIfDue
  split
  next =>
    refine .plain trivial fun answer => .plain trivial fun _ => ?_
    split
    next => exact .plain trivial fun _ => .pure _
    next => exact .pure _
  next => exact .pure _

/-- A whole step matches itself, since each of its parts does. -/
theorem matches_step : Matches c (step c s) (step c s) := by
  refine matches_cycle.bind fun r => (matches_enableIfDue r.1).bind fun s' => ?_
  exact matches_watchIfDue.bind fun _ => .pure _

theorem matches_stop : Matches c (stop c s) (stop c s) := by
  refine .outputs fun bytes bytes' hbytes => ?_
  have hsent := (hbytes.put c.layout.controlword Drive.Command.shutdown.bits).put_self 0 0
  exact .setOutputs hsent (.plain trivial fun _ => .plain trivial fun _ => .pure _)

/-- The steps up to a stop match themselves, one step after the other. -/
theorem matches_steps (bound : Nat) : Matches c (steps c bound s) (steps c bound s) := by
  induction bound generalizing s with
  | zero => exact .pure _
  | succ bound ih =>
    unfold steps
    refine .plain trivial fun stopped => ?_
    split
    next => exact .pure _
    next => exact matches_step.bind fun r => ih

/-- The whole program matches itself, from the wait to the stop. -/
theorem matches_run (bound : Nat) : Matches c (run c bound s) (run c bound s) := by
  refine matches_waitForMaster.bind fun r => ?_
  dsimp only
  split
  next =>
    refine (matches_steps bound).bind fun ended => ?_
    split
    next => exact matches_stop.bind fun _ => .pure _
    next => exact .pure _
  next => exact .pure _

-- ============================================================== onlooking

/-- What is seen of two exchanges is the same, but for the torque in the outputs. -/
structure SameSeen (c : Settings) (o o' : Observed) : Prop where
  rest : o' = { o with outputs := o'.outputs }
  outputs : Option.Rel (SameOutputs c) o.outputs o'.outputs

variable {o o' : Observed}

/-- Events that are alike show the same, but for the torque field. -/
theorem SameSeen.after (ho : SameSeen c o o') (he : Alike c e e') :
    SameSeen c (o.after c e) (o'.after c e') := by
  obtain ⟨hrest, houtputs⟩ := ho
  obtain ⟨held, rfl⟩ : ∃ held, o' = { o with outputs := held } := ⟨_, hrest⟩
  cases he with
  | setpoint => exact ⟨rfl, houtputs⟩
  | outputs => exact ⟨rfl, houtputs⟩
  | setOutputs hbytes =>
    rw [Observed.after_setOutputs, Observed.after_setOutputs]
    exact ⟨rfl, .some hbytes⟩
  | same =>
    unfold Observed.after
    split
    next =>
      split
      · exact ⟨rfl, .some (.refl _ _)⟩
      · exact ⟨rfl, houtputs⟩
    next => split <;> exact ⟨rfl, houtputs⟩
    next => exact ⟨rfl, houtputs⟩
    next => exact ⟨rfl, houtputs⟩
    next => exact ⟨rfl, houtputs⟩

/-- So do traces that are alike, event by event. -/
theorem SameSeen.follow (ho : SameSeen c o o') (ht : List.Forall₂ (Alike c) t t') :
    SameSeen c (o.follow c t) (o'.follow c t') := by
  induction ht generalizing o o' with
  | nil => exact ho
  | cons he _ ih => exact ih (ho.after he)

theorem sameSeen_observe (ht : List.Forall₂ (Alike c) t t') :
    SameSeen c (observe c t) (observe c t') :=
  SameSeen.follow ⟨rfl, .none⟩ ht

/-- Of two traces, nothing tells which setpoints there were but the torque in the outputs:
the same requests are made of the bus and have the same answers, the same is published at
any time, and whatever is exchanged has the same bytes outside the torque field, the
control word among them. -/
structure Indistinct (c : Settings) (t t' : Trace) : Prop where
  events : List.Forall₂ (Alike c) t t'
  telemetry : ∀ n, (observe c (t.take n)).telemetry = (observe c (t'.take n)).telemetry
  exchanged : ∀ n answer, t[n]? = some ⟨.bus .exchange, answer⟩ →
    t'[n]? = some ⟨.bus .exchange, answer⟩
      ∧ Option.Rel (fun sent sent' => SameOutputs c sent sent'
          ∧ c.layout.controlword.get sent = c.layout.controlword.get sent')
        (observe c (t.take n)).outputs (observe c (t'.take n)).outputs

/-- An exchange is answered the same in both runs. -/
theorem Alike.exchange {answer : Except Bus.Fault UInt16}
    (he : Alike c ⟨.bus .exchange, answer⟩ e) : e = ⟨.bus .exchange, answer⟩ := by
  cases he
  rfl

/-- Traces that are alike cannot be told apart but by setpoints and torques. -/
theorem indistinct_of_alike (hapart : c.layout.controlword.Apart c.layout.targetTorque)
    (ht : List.Forall₂ (Alike c) t t') : Indistinct c t t' := by
  have hseen (n : Nat) : SameSeen c (observe c (t.take n)) (observe c (t'.take n)) :=
    sameSeen_observe (List.forall₂_take n ht)
  constructor
  case events => exact ht
  case telemetry =>
    intro n
    rw [(hseen n).rest]
  case exchanged =>
    intro n answer hn
    obtain ⟨hlt, hn⟩ := List.getElem?_eq_some_iff.1 hn
    obtain ⟨hlength, hget⟩ := List.forall₂_iff_get.1 ht
    have hlt' : n < t'.length := hlength ▸ hlt
    have halike := hget n hlt hlt'
    rw [List.get_eq_getElem, List.get_eq_getElem, hn] at halike
    refine ⟨List.getElem?_eq_some_iff.2 ⟨hlt', halike.exchange⟩, ?_⟩
    have houtputs := (hseen n).outputs
    generalize (observe c (t.take n)).outputs = sent at houtputs ⊢
    generalize (observe c (t'.take n)).outputs = sent' at houtputs ⊢
    cases houtputs with
    | none => exact .none
    | some hsent => exact .some ⟨hsent, (hsent.get hapart).symm⟩

-- ================================================================= calls

/-- What is called, whatever it answers. -/
inductive Operation
  | waitForMaster
  | look
  | step
  | stop

def Call.operation : Call → Operation
  | .waitForMaster _ => .waitForMaster
  | .look _ => .look
  | .step _ => .step
  | .stop => .stop

variable {world : Surroundings c} {x x' : Call} {calls calls' : List Call} {s₁ s₁' : State}

/-- One call in alike surroundings does the same, and leaves the same state. -/
theorem Returned.alike (hx : Returned c s x u s₁) (hx' : Returned c s x' u' s₁')
    (hcalled : x.operation = x'.operation) (hu : world.Answers h u) (hu' : world.Answers h' u')
    (hh : List.Forall₂ (Alike c) h h') :
    x = x' ∧ s₁ = s₁' ∧ List.Forall₂ (Alike c) u u' := by
  cases hx with
  | waitForMaster hrun =>
    cases hx' with
    | waitForMaster hrun' =>
      obtain ⟨halike, heq⟩ := matches_waitForMaster.runs hrun hrun' hu hu' hh
      cases heq
      exact ⟨rfl, rfl, halike⟩
    | _ => cases hcalled
  | look stopped =>
    cases hx' with
    | look stopped' =>
      cases hu with
      | event hv =>
        cases hu' with
        | event hv' =>
          have halike := world.alike hh hv hv'
          obtain rfl := halike.eq_of_plain (show Plain c .isStopped from trivial)
          exact ⟨rfl, rfl, .cons halike .nil⟩
    | _ => cases hcalled
  | step hrun =>
    cases hx' with
    | step hrun' =>
      obtain ⟨halike, heq⟩ := matches_step.runs hrun hrun' hu hu' hh
      cases heq
      exact ⟨rfl, rfl, halike⟩
    | _ => cases hcalled
  | stop hrun =>
    cases hx' with
    | stop hrun' =>
      obtain ⟨halike, rfl⟩ := matches_stop.runs hrun hrun' hu hu' hh
      exact ⟨rfl, rfl, halike⟩
    | _ => cases hcalled

/-- So do any number of calls one after the other. -/
theorem Called.alike (hc : Called c calls t s) (hc' : Called c calls' t' s')
    (hcalled : calls.map Call.operation = calls'.map Call.operation)
    (ht : world.Answers [] t) (ht' : world.Answers [] t') :
    calls = calls' ∧ s = s' ∧ List.Forall₂ (Alike c) t t' := by
  induction hc generalizing calls' t' s' with
  | new =>
    cases hc' with
    | new => exact ⟨rfl, rfl, .nil⟩
    | call => simp at hcalled
  | call _ hx ih =>
    cases hc' with
    | new => simp at hcalled
    | call hc' hx' =>
      rw [List.map_append, List.map_append] at hcalled
      obtain ⟨hbefore, hlast⟩ := List.append_inj' hcalled rfl
      obtain ⟨ht, hu⟩ := Surroundings.answers_append.1 ht
      obtain ⟨ht', hu'⟩ := Surroundings.answers_append.1 ht'
      obtain ⟨rfl, rfl, halike⟩ := ih hc' hbefore ht ht'
      obtain ⟨rfl, rfl, halike'⟩ := hx.alike hx' (List.cons.inj hlast).1 hu hu' halike
      exact ⟨rfl, rfl, List.rel_append halike halike'⟩

/-- Whatever the setpoints are, in surroundings that do not know of them nor of the torque
in the outputs: calls of the same operations, and runs of the whole loop, have the same
results, leave the same to be remembered, and are indistinct but for that torque. -/
theorem setpoint_only_in_torque (hapart : c.layout.controlword.Apart c.layout.targetTorque)
    (world : Surroundings c) :
    (∀ calls calls' t t' s s', Called c calls t s → Called c calls' t' s' →
        calls.map Call.operation = calls'.map Call.operation →
        world.Answers [] t → world.Answers [] t' →
        calls = calls' ∧ s = s' ∧ Indistinct c t t')
      ∧ ∀ bound t t' ended ended', Runs (run c bound {}) t ended →
        Runs (run c bound {}) t' ended' → world.Answers [] t → world.Answers [] t' →
        ended = ended' ∧ Indistinct c t t' := by
  constructor
  · intro calls calls' t t' s s' hc hc' hcalled ht ht'
    obtain ⟨hcalls, hs, halike⟩ := hc.alike hc' hcalled ht ht'
    exact ⟨hcalls, hs, indistinct_of_alike hapart halike⟩
  · intro bound t t' ended ended' hrun hrun' ht ht'
    obtain ⟨halike, hended⟩ := (matches_run bound).runs hrun hrun' ht ht' .nil
    exact ⟨hended, indistinct_of_alike hapart halike⟩

-- =============================================================== samples

/-- Surroundings that answer by the time alone, and keep the outputs that are handed over. -/
def Surroundings.keeping (c : Settings) (image : Bytes) (fixed : Nat → (r : Request) → r.Answer) :
    Surroundings c where
  answer h
    | .bus (.outputs slave) =>
      if slave = c.slave then (observe c h).outputs.getD image
      else fixed h.length (.bus (.outputs slave))
    | r => fixed h.length r
  blind h h' r hh := by
    rw [hh.length_eq]
    split
    next slave =>
      split
      next hslave =>
        subst hslave
        refine .outputs ?_
        have houtputs := (sameSeen_observe hh).outputs
        generalize (observe c h).outputs = held at houtputs ⊢
        generalize (observe c h').outputs = held' at houtputs ⊢
        cases houtputs with
        | none => exact .refl _ _
        | some hheld => exact hheld
      next => exact .same _
    next => exact .same _

/-- The answer of surroundings, or of a control side with its own setpoints. -/
def Surroundings.reply (world : Surroundings c) (setpoint : Trace → Single) (h : Trace) :
    (r : Request) → r.Answer
  | .setpoint => setpoint h
  | r => world.answer h r

/-- Both of them as one machine, which remembers all that was requested. -/
def Surroundings.ask (world : Surroundings c) (setpoint : Trace → Single) (r : Request) :
    StateM Trace r.Answer :=
  fun h => (world.reply setpoint h r, h ++ [⟨r, world.reply setpoint h r⟩])

/-- What is recorded in some surroundings is answered by them. -/
theorem Surroundings.answers_record (world : Surroundings c) (setpoint : Trace → Single)
    (p : CyclicProgram α) (h : Trace) :
    world.Answers h (p.record (world.ask setpoint) h).1
      ∧ (p.record (world.ask setpoint) h).2.2 = h ++ (p.record (world.ask setpoint) h).1 := by
  induction p generalizing h with
  | done value => exact ⟨.nil h, (List.append_nil h).symm⟩
  | request r resume ih =>
    have hreply : r = .setpoint ∨ world.reply setpoint h r = world.answer h r := by
      cases r with
      | setpoint => exact .inl rfl
      | _ => exact .inr rfl
    obtain ⟨hanswers, hrest⟩ := ih (world.reply setpoint h r)
      (h ++ [⟨r, world.reply setpoint h r⟩])
    exact ⟨.event hreply hanswers, hrest.trans (List.append_assoc ..)⟩

/-- A step in surroundings, after a history. -/
def Surroundings.stepped (world : Surroundings c) (setpoint : Trace → Single) (s : State)
    (h : Trace) : Trace × (Bool × State) × Trace :=
  (step c s).record (world.ask setpoint) h

/-- A run of a step is a call of it that returned. -/
theorem Returned.of_runs {r : Bool × State} (hrun : Runs (Cyclic.step c s) u r) :
    Returned c s (.step r.1) u r.2 := .step hrun

/-- An exchange goes on with a step in any surroundings, and with any setpoints. -/
theorem Called.stepped (hc : Called c calls t s) (ht : world.Answers [] t)
    (setpoint : Trace → Single) :
    Called c (calls ++ [.step (world.stepped setpoint s t).2.1.1])
        (t ++ (world.stepped setpoint s t).1) (world.stepped setpoint s t).2.1.2
      ∧ world.Answers [] (t ++ (world.stepped setpoint s t).1) := by
  obtain ⟨hanswers, -⟩ := world.answers_record setpoint (Cyclic.step c s) t
  have hstep := Returned.of_runs (runs_record (world.ask setpoint) (Cyclic.step c s) t)
  exact ⟨hc.call hstep, Surroundings.answers_append.2 ⟨ht, hanswers⟩⟩

/-- A drive that reports operation enabled at all times, until a stop is asked for. -/
def sampleAnswers (n : Nat) : (r : Request) → r.Answer
  | .bus (.inputs _) => Packed.bytes (0x27 : UInt16)
  | .bus .exchange => .ok 3
  | .bus (.state _) => .ok ⟨some .operational, .noError⟩
  | .bus .discover => .ok 1
  | .bus .map => .ok ⟨[⟨9, 9⟩], 1, 1⟩
  | .bus (.outputs _) => []
  | .bus (.sdoRead _ _ _) => .ok []
  | .bus (.init _) | .bus .clocks | .bus (.setState _ _) | .bus (.sdoWrite _ _ _) => .ok ()
  | .bus (.clearAl _) | .bus (.setOutputs _ _) | .bus .close | .publish _ => ()
  | .isReady => true
  | .isStopped => decide (20 ≤ n)
  | .takeReenable => false
  | .setpoint => .zero
  | .now => .ofNanoseconds n

def sampleWorld : Surroundings sample := .keeping sample (List.replicate 9 0) sampleAnswers

/-- What the loop requests with a setpoint, and how it ends. -/
def sampleRun (setpoint : Single) : Trace × Option State × Trace :=
  (run sample 4 {}).record (sampleWorld.ask fun _ => setpoint) []

theorem sampleRun_runs (setpoint : Single) :
    Runs (run sample 4 {}) (sampleRun setpoint).1 (sampleRun setpoint).2.1
      ∧ sampleWorld.Answers [] (sampleRun setpoint).1 := by
  unfold sampleRun
  generalize sampleWorld = world
  exact ⟨runs_record .., (world.answers_record _ _ _).1⟩

/-- The trace and the state after two steps with a setpoint. -/
def sampleTwice (setpoint : Single) : Trace × State :=
  let first := sampleWorld.stepped (fun _ => setpoint) {} []
  let second := sampleWorld.stepped (fun _ => setpoint) first.2.1.2 ([] ++ first.1)
  ([] ++ first.1 ++ second.1, second.2.1.2)

theorem sampleTwice_called (setpoint : Single) :
    ∃ calls, calls.map Call.operation = [.step, .step]
      ∧ Called sample calls (sampleTwice setpoint).1 (sampleTwice setpoint).2
      ∧ sampleWorld.Answers [] (sampleTwice setpoint).1 := by
  unfold sampleTwice
  generalize sampleWorld = world
  have hnone : world.Answers [] [] := .nil []
  obtain ⟨hfirst, hanswers⟩ := Called.new.stepped hnone fun _ => setpoint
  obtain ⟨hsecond, hanswers'⟩ := hfirst.stepped hanswers fun _ => setpoint
  exact ⟨_, rfl, hsecond, hanswers'⟩

/-- A quarter of the rated torque, and half of it the other way: the exchanges of the
second step carry them, and nothing else tells them apart. -/
theorem setpoint_only_in_torque_sample :
    let quarter : Single := ⟨0x3e800000⟩
    let half : Single := ⟨0xbf000000⟩
    (observe sample ((sampleRun quarter).1.take 21)).outputs = some [15, 0, 4, 250, 0, 0, 0, 0, 0]
      ∧ (observe sample ((sampleRun half).1.take 21)).outputs
        = some [15, 0, 4, 0x0c, 0xfe, 0, 0, 0, 0]
      ∧ (sampleRun quarter).2.1 = (sampleRun half).2.1
      ∧ Indistinct sample (sampleRun quarter).1 (sampleRun half).1
      ∧ (sampleTwice quarter).2 = (sampleTwice half).2
      ∧ Indistinct sample (sampleTwice quarter).1 (sampleTwice half).1 := by
  intro quarter half
  obtain ⟨hcalls, hruns⟩ := setpoint_only_in_torque (c := sample) (by decide) sampleWorld
  obtain ⟨hrun, hworld⟩ := sampleRun_runs quarter
  obtain ⟨hrun', hworld'⟩ := sampleRun_runs half
  obtain ⟨hended, hindistinct⟩ := hruns 4 _ _ _ _ hrun hrun' hworld hworld'
  obtain ⟨calls, hsteps, hcalled, hanswers⟩ := sampleTwice_called quarter
  obtain ⟨calls', hsteps', hcalled', hanswers'⟩ := sampleTwice_called half
  obtain ⟨-, hstate, htwice⟩ := hcalls _ _ _ _ _ _ hcalled hcalled' (hsteps.trans hsteps'.symm)
    hanswers hanswers'
  refine ⟨by decide +kernel, by decide +kernel, ?_⟩
  exact ⟨hended, hindistinct, hstate, htwice⟩

end Servo.Cyclic
