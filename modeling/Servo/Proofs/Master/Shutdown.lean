/-
The whole life of a master on a simulated segment.

`World` puts the two sides of a master to work on one segment. The bus belongs to one of
them at a time: the side of the master has it until the hand-over and again once the
cyclic side has ended, so what the cyclic side does is played when it is waited for
(`World.join`). What is shared meanwhile is the board. The master raises its two flags
there, and between these it may be called for other torques and for enabling again, any
number of times before any request of the cyclic side. The clock shows whatever it likes.

# The end of it

No step is begun once the stop is raised, so the cyclic side gives the bus back
(`World.join_returned`). By then the drive is shut down, wherever the stop met the
exchange: in the midst of enabling the drive, with a torque applied, or after it gave up.
The requests of the exchange keep the segment in operation, and the
last three shut the drive down. `shutdown_orderly` puts that together with the bring-up
before and the retirement after it.
-/
import Servo.Proofs.Cyclic.SafeStop
import Servo.Proofs.Master.Release
import Servo.Proofs.Simulation.Operation

namespace Servo

open Program

namespace Simulation.Segment

variable {α : Type} {g g' : Segment} {k : UInt16} {s : Slave}

/-- What a program requests, the value it ends with, and what it leaves. -/
theorem ends_record (p : BusProgram α) (g : Segment) :
    g.Ends p (p.record answer g).2.1 (p.record answer g).2.2
      ∧ (p.record answer g).2.2 = g.requested (Bringup.requests (p.record answer g).1) := by
  induction p generalizing g with
  | done value => exact ⟨rfl, rfl⟩
  | request r resume ih => exact ih (answer r g).1 (answer r g).2

/-- Whatever is requested, a slave is frozen if it was. -/
theorem answer_frozen (r : Bus.Request) (hk : g.slave? k = some s) :
    ∃ s', (answer r g).2.slave? k = some s' ∧ s'.frozen = s.frozen := by
  by_cases haside : Aside k r
  · obtain ⟨s', hs', al, alStatus, stuck, rfl⟩ := answer_restated r haside hk
    exact ⟨_, hs', rfl⟩
  · cases r with
    | exchange =>
      refine ⟨_, answer_exchange hk, ?_⟩
      split
      next => exact s.exchange_settings.2.2.2.2
      next => rfl
    | map =>
      refine ⟨_, answer_map hk, ?_⟩
      split <;> rfl
    | sdoWrite slave a data => exact ⟨_, answer_sdoWrite slave a data hk, rfl⟩
    | setOutputs slave bytes =>
      obtain rfl : slave = k := Decidable.not_not.1 haside
      exact ⟨_, answer_setOutputs bytes hk, rfl⟩
    | _ => exact absurd trivial haside

theorem requested_frozen (requests : List Bus.Request) (hk : g.slave? k = some s) :
    ∃ s', (g.requested requests).slave? k = some s' ∧ s'.frozen = s.frozen := by
  induction requests generalizing g s with
  | nil => exact ⟨s, hk, rfl⟩
  | cons r rest ih =>
    obtain ⟨s₁, hs₁, hfirst⟩ := answer_frozen r hk
    obtain ⟨s', hs', hrest⟩ := ih hs₁
    exact ⟨s', hs', hrest.trans hfirst⟩

end Simulation.Segment

namespace Master

open Simulation (Segment Slave AllNew)
open Bringup (ClosedLast requests MapsDefault)

-- ========================================================== the world

/-- A segment, and a master at work on it. -/
structure World where
  segment : Segment
  /-- What was requested of the bus so far, by either side. -/
  asked : List Bus.Request := []
  board : Board := {}
  /-- How many requests the cyclic side makes before the master is seen to be ready. -/
  early : Nat
  /-- What is done from then on, before each of the requests that follow. -/
  calls : List (List Board.Act)
  /-- What is still to be done before each of the next requests. -/
  acts : List (List Board.Act) := []
  /-- What the clock is going to show. -/
  times : List Duration
  /-- What the cyclic side was handed. -/
  settings : Option Cyclic.Settings := none
  /-- What the cyclic side did. -/
  history : Cyclic.Trace := []

namespace World

/-- The world once the next acts are done. -/
def pass (w : World) : World :=
  { w with board := (w.acts.headD []).foldl Board.act w.board, acts := w.acts.tail }

/-- The answer of the segment to a request of the bus. -/
def onBus (r : Bus.Request) : StateM World r.Answer := fun w =>
  let (a, segment) := Segment.answer r w.segment
  (a, { w with segment, asked := w.asked ++ [r] })

/-- The board, and the clock. -/
def seat : Cyclic.Seat (StateM World) where
  board := fun w => (w.board, w)
  setBoard board := fun w => ((), { w with board })
  now := fun w => (w.times.headD .zero, { w with times := w.times.tail })

/-- The answer to a request of the cyclic side. -/
def cyclic (r : Cyclic.Request) : StateM World r.Answer := fun w =>
  Cyclic.answer onBus seat r w.pass

/-- What the cyclic side does, from the hand-over on. Where no act is left nothing can change
its mind, so a loop with more steps than that goes on forever; then it counts as broken. -/
def join : StateM World Ending := fun w =>
  match w.settings with
  | none => (.neverReceived, w)
  | some settings =>
    let (history, ended, w) := (Cyclic.run settings (w.acts.length + 1) {}).record cyclic w
    (if ended.isSome then .returned else .panicked, { w with history })

/-- The exchange may start, and the master is free for what it is to be called for. -/
def raiseReady (w : World) : World :=
  { w with acts := w.acts ++ List.replicate w.early [] ++ [.raiseReady] :: w.calls }

/-- The exchange is to stop, after all that the master was called for. -/
def raiseStop (w : World) : World := { w with acts := w.acts ++ [[.raiseStop]] }

/-- The answer to a request of the master. -/
def answer : (r : Request) → StateM World r.Answer
  | .bus r => onBus r
  | .start => pure (.ok ())
  | .handOver settings => fun w => (true, { w with settings := some settings })
  | .raiseReady => fun w => ((), w.raiseReady)
  | .raiseStop => fun w => ((), w.raiseStop)
  | .join => join

/-- New slaves, and a master still to be brought up. -/
def new (slaves : List Slave) (early : Nat) (calls : List (List Board.Act))
    (times : List Duration) : World :=
  { segment := .ofSlaves slaves, early, calls, times }

-- ============================================================ the bus

/-- The bus was asked this much more. -/
structure Asked (w : World) (made : List Bus.Request) (w' : World) : Prop where
  segment : w'.segment = w.segment.requested made
  asked : w'.asked = w.asked ++ made

variable {α β : Type} {w w' : World}

theorem Asked.trans {w'' : World} {made more : List Bus.Request} (h : w.Asked made w')
    (h' : w'.Asked more w'') : w.Asked (made ++ more) w'' := by
  constructor
  case segment =>
    rw [h'.segment, h.segment]
    exact List.foldl_append.symm
  case asked => rw [h'.asked, h.asked, List.append_assoc]

-- ====================================================== the cyclic side

/-- No act lowers the stop, and one raises it. -/
theorem stop_foldl_act (acts : List Board.Act) (board : Board) :
    (acts.foldl Board.act board).control.stop = true
      ↔ board.control.stop = true ∨ .raiseStop ∈ acts := by
  induction acts generalizing board with
  | nil => simp
  | cons first rest ih =>
    rw [List.foldl_cons, ih]
    cases first <;> simp [Board.act]

theorem stop_pass : w.pass.board.control.stop = true
    ↔ w.board.control.stop = true ∨ .raiseStop ∈ w.acts.headD [] :=
  stop_foldl_act _ _

/-- A request of the bus is answered by the segment. -/
theorem cyclic_bus (r : Bus.Request) : (cyclic (.bus r) w).1 = (Segment.answer r w.segment).1
    ∧ w.Asked [r] (cyclic (.bus r) w).2 :=
  ⟨rfl, rfl, rfl⟩

/-- Any other request leaves the bus alone. -/
theorem cyclic_other {r : Cyclic.Request} (hr : ∀ r', r ≠ .bus r') :
    w.Asked [] (cyclic r w).2 := by
  cases r with
  | bus r => exact absurd rfl (hr r)
  | _ => exact ⟨rfl, (List.append_nil _).symm⟩

/-- What a program of the cyclic side does on the segment. -/
theorem record_cyclic (p : CyclicProgram α) (w : World) :
    AnsweredBy Segment.answer w.segment (Cyclic.busTrace (p.record cyclic w).1)
      ∧ w.Asked (requests (Cyclic.busTrace (p.record cyclic w).1)) (p.record cyclic w).2.2 := by
  induction p generalizing w with
  | done value => exact ⟨trivial, rfl, (List.append_nil _).symm⟩
  | request r resume ih =>
    obtain ⟨hanswers, hrest⟩ := ih (cyclic r w).1 (cyclic r w).2
    by_cases hbus : ∃ r', r = .bus r'
    · obtain ⟨r, rfl⟩ := hbus
      obtain ⟨hanswer, hfirst⟩ := cyclic_bus (w := w) r
      rw [hfirst.segment] at hanswers
      exact ⟨⟨hanswer.symm, hanswers⟩, hfirst.trans hrest⟩
    · have hfirst := cyclic_other (w := w) fun r' hr => hbus ⟨r', hr⟩
      rw [hfirst.segment] at hanswers
      cases r with
      | bus r => exact absurd ⟨r, rfl⟩ hbus
      | _ => exact ⟨hanswers, hfirst.trans hrest⟩

/-- The stop is raised, or going to be. -/
def Stopping (w : World) : Prop := w.board.control.stop = true ∨ .raiseStop ∈ w.acts.flatten

theorem acts_cyclic (r : Cyclic.Request) : (cyclic r w).2.acts = w.acts.tail
    ∧ (cyclic r w).2.board.control.stop = w.pass.board.control.stop := by
  cases r <;> exact ⟨rfl, rfl⟩

theorem Stopping.cyclic (h : w.Stopping) (r : Cyclic.Request) : (cyclic r w).2.Stopping := by
  obtain ⟨hacts, hstop⟩ := acts_cyclic (w := w) r
  unfold Stopping at h ⊢
  rw [hacts, hstop, stop_pass]
  cases hleft : w.acts with
  | nil => simpa [hleft] using h
  | cons first rest => simpa [hleft, or_assoc] using h

/-- Where no act is left, the stop is raised. -/
theorem Stopping.raised (h : w.Stopping) (hnone : w.acts = []) :
    w.pass.board.control.stop = true := by
  unfold Stopping at h
  rw [hnone] at h
  exact stop_pass.2 (.inl (by simpa using h))

/-- The cyclic side finds the flag lowered at most as often as there are acts to come. -/
theorem count_stopLooks (p : CyclicProgram α) (h : w.Stopping) :
    (Cyclic.stopLooks (p.record cyclic w).1).count false ≤ w.acts.length := by
  induction p generalizing w with
  | done value => exact Nat.zero_le _
  | request r resume ih =>
    have hrest := ih (cyclic r w).1 (h.cyclic r)
    rw [(acts_cyclic r).1, List.length_tail] at hrest
    cases r with
    | isStopped =>
      show (w.pass.board.control.stop :: Cyclic.stopLooks ((resume (cyclic .isStopped w).1).record
        cyclic (cyclic .isStopped w).2).1).count false ≤ _
      rw [List.count_cons]
      by_cases hraised : w.pass.board.control.stop = true
      · rw [hraised, if_neg (by decide)]
        omega
      · have hpos := List.length_pos_iff.2 fun hnone => hraised (h.raised hnone)
        rw [Bool.eq_false_iff.2 hraised, if_pos (beq_self_eq_true _)]
        omega
    | _ => exact Nat.le_trans hrest (Nat.sub_le _ _)

/-- Once the stop is raised the cyclic side ends, and gives the bus back. -/
theorem exists_ended (settings : Cyclic.Settings) (h : w.Stopping) : ∃ ended,
    ((Cyclic.run settings (w.acts.length + 1) {}).record cyclic w).2.1 = some ended := by
  have hran := Cyclic.runs_run (runs_record cyclic (Cyclic.run settings (w.acts.length + 1) {}) w)
  have hfew := count_stopLooks (Cyclic.run settings (w.acts.length + 1) {}) h
  generalize (Cyclic.run settings (w.acts.length + 1) {}).record cyclic w = recorded at hran hfew ⊢
  obtain ⟨t, ended, w'⟩ := recorded
  cases hran with
  | unready => exact ⟨_, rfl⟩
  | stopped => exact ⟨_, rfl⟩
  | exceeded _ hloop =>
    dsimp only at hfew
    rw [List.append_eq, Cyclic.stopLooks_append, hloop.exceeded_stopLooks, List.count_append,
      List.count_replicate_self] at hfew
    omega

/-- What comes of waiting for it. -/
theorem join_returned {settings : Cyclic.Settings} (hsettings : w.settings = some settings)
    (h : w.Stopping) : ∃ w' ended, join w = (.returned, w')
      ∧ Cyclic.Ran settings (w.acts.length + 1) {} w'.history (some ended)
      ∧ AnsweredBy Segment.answer w.segment (Cyclic.busTrace w'.history)
      ∧ w.Asked (requests (Cyclic.busTrace w'.history)) w' := by
  let p := Cyclic.run settings (w.acts.length + 1) {}
  obtain ⟨ended, hended⟩ := exists_ended settings h
  have hruns := runs_record cyclic p w
  rw [hended] at hruns
  obtain ⟨hanswers, hasked⟩ := record_cyclic p w
  refine ⟨{ (p.record cyclic w).2.2 with history := (p.record cyclic w).1 }, ended, ?_,
    Cyclic.runs_run hruns, hanswers, hasked.segment, hasked.asked⟩
  unfold join
  rw [hsettings]
  show (if (p.record cyclic w).2.1.isSome then _ else _, _) = _
  rw [hended]
  rfl

theorem stopping_raiseStop : w.raiseStop.Stopping := by
  unfold Stopping raiseStop
  simp

-- ========================================================== the master

/-- What comes of a program that only talks to the bus. -/
theorem run_onBus (p : BusProgram α) (w : World) :
    (Master.onBus p).run answer w
      = ((p.record Segment.answer w.segment).2.1,
        { w with
          segment := (p.record Segment.answer w.segment).2.2
          asked := w.asked ++ requests (p.record Segment.answer w.segment).1 }) := by
  induction p generalizing w with
  | done value =>
    show (value, w) = (value, { w with asked := w.asked ++ [] })
    rw [List.append_nil]
  | request r resume ih =>
    show (Master.onBus (resume (Segment.answer r w.segment).1)).run answer
      (onBus r w).2 = _
    rw [ih]
    show (_, { w with segment := _, asked := (w.asked ++ [r]) ++ _ }) = _
    rw [List.append_assoc]
    rfl

/-- One program after the other. -/
theorem run_bind_answer {β : Type} (p : MasterProgram α) (f : α → MasterProgram β) (w : World) :
    (p >>= f).run answer w = (f (p.run answer w).1).run answer (p.run answer w).2 :=
  congrFun (Program.run_bind answer p f) w

/-- What a program that only talks to the bus did there. -/
theorem asked_onBus (p : BusProgram α) (w : World) : ∃ t,
    Runs p t ((Master.onBus p).run answer w).1
      ∧ w.segment.Ends p ((Master.onBus p).run answer w).1
        ((Master.onBus p).run answer w).2.segment
      ∧ w.Asked (requests t) ((Master.onBus p).run answer w).2 := by
  obtain ⟨hends, hrequested⟩ := Segment.ends_record p w.segment
  rw [run_onBus]
  exact ⟨_, runs_record Segment.answer p w.segment, hends, hrequested, rfl⟩

variable {c : Config} {name : String} {report : Bringup.Report}

/-- What a bring-up that succeeds leaves: the exchange is handed over. -/
structure Underway (c : Config) (name : String) (report : Bringup.Report) (w w' : World) :
    Prop where
  valid : c.validate = .ok ()
  ends : w.segment.Ends (Bringup.run c .standard name) (.ok report) w'.segment
  asked : ∃ t, Runs (Bringup.run c .standard name) t (.ok report) ∧ w.Asked (requests t) w'
  settings : w'.settings = some ⟨c.slave, .standard, c.timing, report.expectedWkc⟩

theorem underway (h : (bringUp c name).run answer w = (.ok report, w')) :
    Underway c name report w w' := by
  let p := Bringup.run c .standard name
  have hruns := runs_record Segment.answer p w.segment
  obtain ⟨hends, hrequested⟩ := Segment.ends_record p w.segment
  unfold bringUp at h
  cases hvalid : c.validate with
  | error error =>
    rw [hvalid] at h
    cases h
  | ok =>
    rw [hvalid] at h
    dsimp only at h
    rw [run_bind_answer, run_onBus] at h
    cases hbrought : (p.record Segment.answer w.segment).2.1 with
    | error e =>
      rw [hbrought] at h
      cases h
    | ok brought =>
      rw [hbrought] at h hruns hends
      cases h
      exact ⟨hvalid, hends, ⟨_, hruns, hrequested, rfl⟩, rfl⟩

/-- A shutdown stops the exchange and retires the slaves. -/
theorem run_shutdown {timing : Timing} {slaves : UInt16}
    (h : join w.raiseStop = (.returned, w')) :
    (shutdown timing slaves).run answer w
      = (.ok (), ((Master.onBus (retire timing slaves)).run answer w').2) := by
  unfold shutdown
  rw [run_bind_answer]
  have hhalt : halt.run answer w = (.returned, w') := h
  rw [hhalt]
  exact run_bind_answer ..

end World

-- ============================================================ shutdown

/-- A drive is brought up, kept in torque control, and shut down. -/
def life (c : Config) (name : String) :
    MasterProgram (Except Bringup.Stop (Except Bus.Fault Unit)) := do
  match ← bringUp c name with
  | .error error => return .error error
  | .ok report => return .ok (← shutdown c.timing report.slaves)

variable {c : Config} {slaves : List Slave} {timing : Timing} {name : String}

/-- Retiring closes the bus, which was open until then. -/
theorem closedLast_retire {count : UInt16} {t : Bringup.Trace} {before : List Bus.Request}
    {v : Unit} (hbefore : .close ∉ before) (h : Runs (retire timing count) t v) :
    ClosedLast (before ++ requests t) := by
  have hopen (target : AlState) : (leadTo timing target (Bringup.slavesOf count)).Only
      fun r : Bus.Request => r ≠ .close := by
    refine only_leadTo fun r hr hclose => ?_
    rw [hclose] at hr
    cases hr
  obtain ⟨u, _, v, rfl, hsafe, h⟩ := runs_bind_iff.1 h
  obtain ⟨v, _, w, rfl, hinit, h⟩ := runs_bind_iff.1 h
  rw [runs_request_done_iff.1 h]
  refine ⟨before ++ (requests u ++ requests v), ?_, ?_⟩
  · rw [Bringup.requests_append, Bringup.requests_append, List.append_assoc, List.append_assoc]
    rfl
  · simp only [List.mem_append, not_or]
    exact ⟨hbefore, Bringup.not_close_of_keeps ((hopen _).of_runs hsafe),
      Bringup.not_close_of_keeps ((hopen _).of_runs hinit)⟩

/-- What the cyclic side gives back, having kept a drive in operation. -/
structure GivenBack (c : Config) (slaves : List Slave) (w : World) : Prop where
  told : w.segment = (Segment.ofSlaves slaves).requested w.asked
  opened : .close ∉ w.asked
  operates : w.segment.Operates slaves.length c.slave
  drive : ∃ s, w.segment.slave? c.slave = some s ∧ s.ShutDown

/-- How a segment of new slaves is left. -/
structure Orderly (c : Config) (slaves : List Slave) (w : World) : Prop where
  /-- The bus is closed, and all slaves are in their initial state. -/
  released : Bringup.Released w.segment
  count : w.segment.slaves.length = slaves.length
  /-- Closing the bus was the last request, and the only one of its kind. -/
  closedLast : ClosedLast w.asked
  /-- The drive was shut down; it is frozen only if it was from the start. -/
  drive : ∃ s s', (Segment.ofSlaves slaves).slave? c.slave = some s
    ∧ w.segment.slave? c.slave = some s' ∧ s'.frozen = s.frozen ∧ s'.ShutDown

section

variable {w w₁ w₂ : World} {report : Bringup.Report} {made : List Bus.Request}

theorem World.Asked.told {g : Segment} (h : w.Asked made w₁)
    (htold : w.segment = g.requested w.asked) : w₁.segment = g.requested w₁.asked := by
  rw [h.segment, h.asked, htold]
  exact List.foldl_append.symm

/-- An exchange that did start leaves the drive shut down, wherever the stop met it. -/
theorem World.Underway.givenBack {bound : Nat} {ended : Cyclic.State}
    (h : Underway c name report w w₁) (hw : w.segment = .ofSlaves slaves) (hnone : w.asked = [])
    (hoperates : w₁.segment.Operates slaves.length c.slave)
    (hran : Cyclic.Ran ⟨c.slave, .standard, c.timing, report.expectedWkc⟩ bound {} w₂.history
      (some ended))
    (hanswers : AnsweredBy Segment.answer w₁.segment (Cyclic.busTrace w₂.history))
    (hasked : w₁.Asked (requests (Cyclic.busTrace w₂.history)) w₂)
    (hstarted : .started ∈ Cyclic.publications w₂.history) : GivenBack c slaves w₂ := by
  have hafter : w₂.segment
      = stateAfter Segment.answer w₁.segment (Cyclic.busTrace w₂.history) :=
    hasked.segment.trans List.foldl_map
  obtain ⟨t, hruns, hmade⟩ := h.asked
  obtain ⟨hasks, s, hs, hdown⟩ := hran.shutDown hstarted rfl hoperates hanswers
  constructor
  case told =>
    refine hasked.told (hmade.told ?_)
    rw [hw, hnone]
    rfl
  case opened =>
    rw [hasked.asked, hmade.asked, hnone, List.nil_append, List.mem_append, not_or]
    refine ⟨Bringup.not_close_of_keeps (Bringup.run_ok_keeps hruns),
      Bringup.not_close_of_keeps fun e he hclose => ?_⟩
    have hasked := hasks e he
    rw [hclose] at hasked
    exact hasked
  case operates =>
    rw [hafter]
    exact hoperates.after hasks
  case drive =>
    rw [hafter]
    exact ⟨s, hs, hdown⟩

/-- What was given back is retired in order. -/
theorem GivenBack.orderly (h : GivenBack c slaves w) (hnew : AllNew slaves)
    (hvalid : c.validate = .ok ()) : Orderly c slaves
      ((Master.onBus (retire c.timing (.ofNat slaves.length))).run World.answer w).2 := by
  obtain ⟨hattempts, hpolls⟩ := Config.stateControl_ne_zero hvalid
  obtain ⟨t, hruns, hends, hasked⟩ := World.asked_onBus (retire c.timing (.ofNat slaves.length)) w
  generalize (Master.onBus (retire c.timing (.ofNat slaves.length))).run World.answer w = left
    at hruns hends hasked
  obtain ⟨l, hl, hcount, hoperates⟩ := h.operates
  obtain ⟨g, hretired, hreleased, hlength⟩ := ends_retire hattempts hpolls hl hoperates.mapped
  rw [hcount] at hretired hlength
  obtain ⟨-, rfl⟩ := hretired.unique hends
  obtain ⟨s, hs, hdown⟩ := h.drive
  obtain ⟨s', hs', hdown'⟩ := hends.shutDown hs hdown
  constructor
  case released => exact hreleased
  case count => exact hlength
  case closedLast =>
    rw [hasked.asked]
    exact closedLast_retire h.opened hruns
  case drive =>
    have hslave : c.slave.toNat ≤ slaves.length := by
      rw [← hcount]
      exact hoperates.has.2
    obtain ⟨s₀, hs₀⟩ := hnew.exists_slave ⟨hoperates.has.1, hslave⟩
    obtain ⟨s₂, hs₂, hfrozen⟩ :=
      Segment.requested_frozen (g := .ofSlaves slaves) left.2.asked hs₀
    rw [← hasked.told h.told, hs'] at hs₂
    cases hs₂
    exact ⟨s₀, s', hs₀, hs', hfrozen, hdown'⟩

end

open World in
/-- Whatever the master is called for meanwhile and wherever the stop meets it, a drive that
was brought up and whose exchange did start is shut down in order. -/
theorem shutdown_orderly {early : Nat} {calls : List (List Board.Act)} {times : List Duration}
    {r : Except Bus.Fault Unit} {w : World} (hnew : AllNew slaves)
    (hslave : c.slave.toNat ≤ slaves.length) (hdefault : MapsDefault c)
    (hlife : (life c name).run World.answer (.new slaves early calls times) = (.ok r, w))
    (hstarted : .started ∈ Cyclic.publications w.history) : r = .ok () ∧ Orderly c slaves w := by
  unfold life at hlife
  rw [run_bind_answer] at hlife
  generalize hbringUp : (bringUp c name).run World.answer (.new slaves early calls times) = brought
    at hlife
  obtain ⟨result, w₁⟩ := brought
  cases result with
  | error e => cases hlife
  | ok report =>
    dsimp only at hlife
    have hup := underway hbringUp
    obtain ⟨hcount, hoperates⟩ := Bringup.operates_of_ok hnew hup.valid hslave hdefault hup.ends
    -- the exchange goes on until the stop is seen
    obtain ⟨w₂, ended, hjoin, hran, hanswers, hasked⟩ :=
      join_returned (w := w₁.raiseStop) hup.settings stopping_raiseStop
    rw [run_bind_answer, run_shutdown hjoin, run_onBus] at hlife
    cases hlife
    have hback := hup.givenBack rfl rfl hoperates hran hanswers ⟨hasked.segment, hasked.asked⟩
      hstarted
    have horderly := hback.orderly hnew hup.valid
    rw [run_onBus, ← hcount] at horderly
    exact ⟨rfl, horderly⟩

/-- The drive is told to apply half of its rated torque, and stopped while it does. -/
def sampleCalls : List (List Board.Act) := [.setTargetTorque ⟨0x3f000000⟩] :: List.replicate 38 []

def sampleLife : Except Bringup.Stop (Except Bus.Fault Unit) × World :=
  (life {} "eth0").run World.answer (.new [{}] 0 sampleCalls [])

theorem shutdown_orderly_sample :
    sampleLife.1 = .ok (.ok ()) ∧ Orderly {} [{}] sampleLife.2 := by
  have hok : sampleLife.1 = .ok (.ok ()) := by decide +kernel
  have hstarted : .started ∈ Cyclic.publications sampleLife.2.history := by decide +kernel
  have hnew : AllNew [({} : Slave)] :=
    ⟨by decide, List.forall_mem_singleton.2 ⟨false, false, 0, rfl⟩⟩
  generalize hlife : sampleLife = left at hok hstarted ⊢
  obtain ⟨result, w⟩ := left
  obtain rfl : result = .ok (.ok ()) := hok
  exact ⟨rfl, (shutdown_orderly hnew (by decide) (.inr rfl) hlife hstarted).2⟩

end Master

end Servo
