/-
Enabling a simulated drive.

Each attempt of the enabling sequence answers the status word that the drive showed
last, and each exchange makes the drive take one transition. With every state answered
by its own command the drive comes closer to operation enabled at each exchange
(`remaining_transition`), from five exchanges away at most.

That the two sides understand each other is a matter of the process image: `Wired` is
what the mappings and the layout owe each other, and an exchange of the outputs of an
attempt keeps it (`Wired.exchange`). No torque is applied on the way, because each
attempt writes a torque of zero before its command.

# What it takes

It is not enough that the objects are mapped where the layout has them (`Matched`), not
even by whole bytes and with room for everything (`Covered`). A field that is too short for
its value is not written, and once the bus is closed there are no exchanges, whatever state
the slave was left in. `not_converges` has a drive for each of the three that is not
enabled, or not without a torque.
-/
import Servo.Proofs.Cyclic.Steps
import Servo.Proofs.Cyclic.Tame
import Servo.Proofs.Simulation.Astray
import Servo.Proofs.Simulation.Counter
import Servo.Proofs.Simulation.Image

namespace Servo

open Program

namespace Simulation.Slave

variable {layout : Layout} {s : Slave} {controlword : UInt16} {sent : Bytes} {drive : Drive.State}

-- ==================================================== state machine

/-- How many exchanges a drive is away from operation enabled. -/
def remaining : Drive.State → Nat
  | .operationEnabled => 0
  | .switchedOn => 1
  | .readyToSwitchOn => 2
  | .switchOnDisabled | .quickStopActive => 3
  | .notReady | .fault => 4
  | .faultReactionActive => 5

/-- No drive is more than five exchanges away. -/
theorem remaining_le (drive : Drive.State) : remaining drive ≤ 5 := by
  cases drive <;> decide

/-- The command for a state brings the drive one exchange closer. -/
theorem remaining_transition (h : drive ≠ .operationEnabled) :
    remaining (transition drive drive.controlword) + 1 = remaining drive := by
  cases drive with
  | operationEnabled => exact absurd rfl h
  | _ => decide

/-- The status word of a drive decodes to the state that it is in. -/
theorem decode_statusword (s : Slave) : Drive.State.decode s.statusword = s.drive := by
  unfold statusword
  cases s.drive <;> decide

-- ============================================================= wiring

/-- The master and the drive look for their values at the same places: the control word
and the status word are mapped once, at the fields of the layout, and so is the torque if
it is mapped. The images cover these fields, and the inputs hold what the drive shows. -/
structure Matched (layout : Layout) (s : Slave) : Prop where
  operational : s.al = .operational
  moving : s.frozen = false
  controlword : ∃ e, e.index = 0x6040 ∧ e.bits = 16
    ∧ MapsOnce (s.dictionary.assigned Pdo.receive.assign) e layout.controlword.byte.toNat
  statusword : ∃ e, e.index = 0x6041 ∧ e.bits = 16
    ∧ MapsOnce (s.dictionary.assigned Pdo.transmit.assign) e layout.statusword.byte.toNat
  torque : ∀ e ∈ s.dictionary.assigned Pdo.receive.assign, e.index = 0x6071 →
    MapsOnce (s.dictionary.assigned Pdo.receive.assign) e layout.targetTorque.byte.toNat
  apart : layout.controlword.Apart layout.targetTorque
  outputs : layout.controlword.Fits s.outputs.length ∧ layout.targetTorque.Fits s.outputs.length
  inputs : layout.statusword.Fits s.inputs.length
  shown : layout.statusword.get s.inputs = .ok s.statusword

/-- The fields of the outputs are long enough for their values too. -/
structure Wired (layout : Layout) (s : Slave) : Prop extends Matched layout s where
  wide : layout.controlword.Wide ∧ layout.targetTorque.Wide

/-- The mappings are made of whole bytes, and the images cover them and the layout. -/
structure Covered (layout : Layout) (s : Slave) : Prop where
  whole : ∀ e ∈ s.dictionary.assigned Pdo.receive.assign
    ++ s.dictionary.assigned Pdo.transmit.assign, e.bits % 8 = 0
  mappings : imageBytes (s.dictionary.assigned Pdo.receive.assign) ≤ s.outputs.length
    ∧ imageBytes (s.dictionary.assigned Pdo.transmit.assign) ≤ s.inputs.length
  layout : layout.outputLen.toNat ≤ s.outputs.length ∧ layout.inputLen.toNat ≤ s.inputs.length

/-- The master reads the status word that the drive shows. -/
theorem Matched.statuswordIn (h : Matched layout s) :
    layout.statuswordIn s.inputs = s.statusword := by
  unfold Layout.statuswordIn Field.get?
  rw [h.shown]
  rfl

/-- A drive that is not frozen follows the control word that it finds. -/
theorem readOutputs_drive (hmoving : s.frozen = false)
    (hword : word? (s.dictionary.assigned Pdo.receive.assign) 0x6040 s.outputs = some controlword) :
    s.readOutputs.drive = transition s.drive controlword := by
  have hcommand : (s.command controlword).drive = transition s.drive controlword := by
    unfold command
    rw [hmoving]
    rfl
  unfold readOutputs
  dsimp only
  split
  next found hfound =>
    cases hfound.symm.trans hword
    exact hcommand
  next hnone => cases hnone.symm.trans hword

/-- A drive that finds no torque, or one of zero, applies none. -/
theorem readOutputs_null (hnull : ((word? (s.dictionary.assigned Pdo.receive.assign) 0x6071
      s.outputs).map UInt16.toInt16).getD 0 = 0) : s.readOutputs.appliedTorque = 0 := by
  unfold readOutputs
  dsimp only
  split
  · show (if _ then ((word? (s.dictionary.assigned Pdo.receive.assign) 0x6071
      s.outputs).map UInt16.toInt16).getD 0 else 0) = 0
    rw [hnull, ite_self]
  · rw [hnull, ite_self]

@[simp] theorem readOutputs_frozen (s : Slave) : s.readOutputs.frozen = s.frozen := by
  unfold readOutputs
  dsimp only
  split <;> rfl

@[simp] theorem writeInputs_frozen (s : Slave) : s.writeInputs.frozen = s.frozen := rfl

@[simp] theorem writeInputs_statusword (s : Slave) : s.writeInputs.statusword = s.statusword := by
  unfold statusword
  rw [writeInputs_drive]

/-- What an attempt hands over: its command, and a torque of zero. -/
structure Handed (layout : Layout) (s : Slave) (controlword : UInt16) : Prop where
  commanded : layout.controlword.get s.outputs = .ok controlword
  relaxed : layout.targetTorque.get s.outputs = .ok 0

/-- At an exchange of what an attempt hands over, the drive follows the command without
a torque, and shows where it is. -/
theorem Wired.exchange (h : Wired layout s) (hhanded : Handed layout s controlword) :
    s.exchange.1.drive = transition s.drive controlword ∧ s.exchange.1.appliedTorque = 0
      ∧ Wired layout s.exchange.1 := by
  have hexchange : s.exchange.1 = s.readOutputs.writeInputs := by
    unfold Slave.exchange
    rw [h.operational]
  obtain ⟨e, hindex, hbits, hmaps⟩ := h.controlword
  obtain ⟨e', hindex', hbits', hmaps'⟩ := h.statusword
  obtain ⟨hcommand, htorque⟩ := h.outputs
  have hword : entryBytes e = 2 := by unfold entryBytes; rw [hbits]; rfl
  have hword' : entryBytes e' = 2 := by unfold entryBytes; rw [hbits']; rfl
  have hfound := word?_of_get hcommand h.wide.1 hmaps hword hhanded.commanded
  rw [hindex] at hfound
  have hnull := torque_of_get htorque h.wide.2 h.torque hhanded.relaxed
  have hshown := get_statusword (s := s.readOutputs) (by simpa using h.inputs)
    (Field.wide_of_get h.shown) (by simpa using hmaps') hindex' hword'
  rw [hexchange, writeInputs_drive, writeInputs_applied]
  refine ⟨readOutputs_drive h.moving hfound, readOutputs_null hnull, ⟨?_, h.wide⟩⟩
  constructor
  case operational => simpa using h.operational
  case moving => simpa using h.moving
  case controlword => exact ⟨e, hindex, hbits, by simpa using hmaps⟩
  case statusword => exact ⟨e', hindex', hbits', by simpa using hmaps'⟩
  case torque => simpa using h.torque
  case apart => exact h.apart
  case outputs => simpa using h.outputs
  case inputs => simpa using h.inputs
  case shown =>
    rw [writeInputs_statusword]
    exact hshown

/-- Handing outputs over keeps the wiring. -/
theorem Wired.handed (h : Wired layout s)
    (hset : layout.controlword.set (layout.targetTorque.put s.outputs 0) controlword = .ok sent) :
    Wired layout { s with outputs := Bytes.overwrite s.outputs sent }
      ∧ Handed layout { s with outputs := Bytes.overwrite s.outputs sent } controlword := by
  have hsent := Field.put_eq_of_set hset
  have hlength : sent.length = s.outputs.length := by
    rw [← hsent, Field.length_put, Field.length_put]
  rw [Bytes.overwrite_of_length hlength]
  obtain ⟨hcommand, htorque⟩ := h.outputs
  constructor
  · exact { h with outputs := by rw [hlength]; exact h.outputs }
  · constructor
    · show layout.controlword.get sent = _
      rw [← hsent]
      exact Field.get_put_self (by rw [Field.length_put]; exact hcommand) h.wide.1
    · show layout.targetTorque.get sent = _
      rw [← hsent, Field.get_put_of_apart h.apart]
      exact Field.get_put_self htorque h.wide.2

end Simulation.Slave

-- ============================================================ attempts

namespace Simulation.Segment

open Cyclic Slave

variable {g : Segment} {k : UInt16} {s : Slave} {layout : Layout} {controlword : UInt16}
  {sent : Bytes} {h : Bus.interface.Trace} {t : Trace}

/-- The inputs that are found are those of the slave. -/
theorem answer_inputs (hk : g.slave? k = some s) : (answer (.inputs k) g).1 = s.inputs := by
  show g.inputs k = s.inputs
  unfold inputs
  rw [hk]
  rfl

/-- Handing outputs over leaves the image laid out. -/
theorem mapped_setOutputs (bytes : Bytes) :
    (answer (.setOutputs k bytes) g).2.mapped = g.mapped := by
  show (g.setOutputs k bytes).mapped = g.mapped
  unfold setOutputs
  split <;> rfl

/-- An exchange leaves the image laid out. -/
theorem mapped_exchange : (answer .exchange g).2.mapped = g.mapped := by
  show (g.exchange).2.mapped = g.mapped
  unfold exchange
  split
  · rfl
  · dsimp only
    split <;> rfl

/-- What an attempt that is followed by an exchange makes of the slave. -/
theorem exchange_handed (hmapped : g.mapped = true) (hk : g.slave? k = some s)
    (hw : Wired layout s)
    (hset : layout.controlword.set (layout.targetTorque.put s.outputs 0) controlword = .ok sent) :
    (answer .exchange (answer (.setOutputs k sent) g).2).2.mapped = true
      ∧ ∃ s', (answer .exchange (answer (.setOutputs k sent) g).2).2.slave? k = some s'
        ∧ s'.drive = transition s.drive controlword ∧ s'.appliedTorque = 0 ∧ Wired layout s' := by
  have hmapped' : (answer (.setOutputs k sent) g).2.mapped = true :=
    (mapped_setOutputs sent).trans hmapped
  have hexchange := answer_exchange (answer_setOutputs sent hk)
  rw [if_pos hmapped'] at hexchange
  obtain ⟨hwired, hhanded⟩ := hw.handed hset
  obtain ⟨hdrive, hnull, hwired'⟩ := hwired.exchange hhanded
  exact ⟨mapped_exchange.trans hmapped', _, hexchange, hdrive, hnull, hwired'⟩

/-- If the event is an exchange, the slave applies no torque after it. -/
def NullAfter (k : UInt16) (g : Segment) (pre : Bus.interface.Trace) (e : Bus.interface.Event) :
    Prop :=
  e.1 = .exchange →
    ∃ s, (stateAfter answer g (pre ++ [e])).slave? k = some s ∧ s.appliedTorque = 0

/-- The requests to the bus of an attempt that is followed by an exchange. -/
def roundTrace (k : UInt16) (inputs outputs sent : Bytes) (answered : Except Bus.Fault UInt16) :
    Bus.interface.Trace :=
  [⟨.inputs k, inputs⟩, ⟨.outputs k, outputs⟩, ⟨.setOutputs k sent, ()⟩, ⟨.exchange, answered⟩]

/-- A sequence that follows `h`, with the slave as `s` by then, enables its drive. -/
structure Enables (k : UInt16) (g : Segment) (h : Bus.interface.Trace) (s : Slave) (t : Trace)
    (out : Enabling.Outcome) : Prop where
  enabled : out.enabled = true
  few : (Cyclic.exchanges t).length ≤ remaining s.drive
  there : ∃ s', (stateAfter answer g (h ++ busTrace t)).slave? k = some s'
    ∧ s'.drive = .operationEnabled
  published : ∀ m : Telemetry, ((publications t).foldl Telemetry.publish m).enabled = true
    ∧ ((publications t).foldl Telemetry.publish m).drive = .operationEnabled
  null : Always (NullAfter k g) h (busTrace t)

/-- One more attempt before a sequence, with an exchange that brings the drive closer. -/
theorem Enables.again {inputs outputs : Bytes} {answered : Except Bus.Fault UInt16}
    {out : Enabling.Outcome} {s' : Slave}
    (hk : (stateAfter answer g (h ++ roundTrace k inputs outputs sent answered)).slave? k = some s')
    (hnull : s'.appliedTorque = 0) (hcloser : remaining s'.drive + 1 = remaining s.drive)
    (hrest : Enables k g (h ++ roundTrace k inputs outputs sent answered) s' t out) :
    Enables k g h s
      (Enabling.attemptTrace k layout inputs outputs sent ++ ⟨.bus .exchange, answered⟩ :: t)
      out := by
  have hbus : busTrace (Enabling.attemptTrace k layout inputs outputs sent
      ++ ⟨.bus .exchange, answered⟩ :: t)
      = roundTrace k inputs outputs sent answered ++ busTrace t := rfl
  constructor
  case enabled => exact hrest.enabled
  case few =>
    have hfew := hrest.few
    show (answered :: Cyclic.exchanges t).length ≤ _
    rw [List.length_cons]
    omega
  case there =>
    rw [hbus, ← List.append_assoc]
    exact hrest.there
  case published =>
    intro m
    rw [publications_append, List.foldl_append]
    exact hrest.published _
  case null =>
    rw [hbus, always_append]
    refine ⟨?_, hrest.null⟩
    unfold roundTrace at hk ⊢
    simp only [always_cons, always_nil, and_true]
    refine ⟨by simp [NullAfter], by simp [NullAfter], by simp [NullAfter],
      fun _ => ⟨s', ?_, hnull⟩⟩
    rw [List.append_assoc, List.append_assoc, List.append_assoc]
    exact hk

/-- With more attempts left than the drive is exchanges away, a sequence enables it. -/
theorem attempts_enable {left : Nat} {last : Option UInt16} {out : Enabling.Outcome}
    (ha : Enabling.Attempts k layout left last t out)
    (hmapped : (stateAfter answer g h).mapped = true)
    (hk : (stateAfter answer g h).slave? k = some s) (hw : Wired layout s)
    (hleft : remaining s.drive < left)
    (hanswers : AnsweredBy answer (stateAfter answer g h) (busTrace t)) :
    Enables k g h s t out := by
  -- each round moves the history and the slave on, and takes one off both `left` and `remaining`
  induction ha generalizing h s with
  | exhausted => exact absurd hleft (Nat.not_lt_zero _)
  | @noRoom left last inputs outputs e hset =>
    -- the control word has room, the outputs being those of the slave
    obtain ⟨-, hout, -, -⟩ := hanswers
    obtain rfl : s.outputs = outputs := (answer_outputs hk).symm.trans hout
    have hfit : layout.controlword.Fits (layout.targetTorque.put s.outputs 0).length := by
      rw [Field.length_put]
      exact hw.outputs.1
    have hok := (Field.set_eq_ok_iff (v := (Drive.State.decode
      (layout.statuswordIn inputs)).controlword)).2 ⟨hfit, hw.wide.1, rfl⟩
    cases hset.symm.trans hok
  | @there left last inputs outputs sent hset hnext =>
    obtain ⟨hin, -, -, -⟩ := hanswers
    obtain rfl : s.inputs = inputs := (answer_inputs hk).symm.trans hin
    rw [Drive.State.next_eq_none_iff, hw.statuswordIn, decode_statusword] at hnext
    constructor
    case enabled => rfl
    case few => exact Nat.zero_le _
    case there =>
      rw [stateAfter_append]
      exact ⟨_, answer_setOutputs sent hk, hnext⟩
    case published =>
      intro m
      show (Drive.State.decode _).next.isNone = true ∧ Drive.State.decode _ = .operationEnabled
      rw [hw.statuswordIn, decode_statusword, hnext]
      exact ⟨rfl, rfl⟩
    case null => simp [Enabling.attemptTrace, busTrace, NullAfter]
  | @again left last inputs outputs sent answered t out hset hnext _ ih =>
    obtain ⟨hin, hout, -, -, hanswers⟩ := hanswers
    obtain rfl : s.inputs = inputs := (answer_inputs hk).symm.trans hin
    obtain rfl : s.outputs = outputs := (answer_outputs hk).symm.trans hout
    rw [Ne, Drive.State.next_eq_none_iff, hw.statuswordIn, decode_statusword] at hnext
    rw [hw.statuswordIn, decode_statusword] at hset
    obtain ⟨hmapped', s', hk', hdrive, hnull, hw'⟩ := exchange_handed hmapped hk hw hset
    have hafter : stateAfter answer g (h ++ roundTrace k s.inputs s.outputs sent answered)
        = (answer .exchange (answer (.setOutputs k sent) (stateAfter answer g h)).2).2 := by
      rw [stateAfter_append]
      rfl
    rw [← hafter] at hmapped' hk'
    have hcloser := remaining_transition hnext
    rw [← hdrive] at hcloser
    refine .again hk' hnull hcloser (ih hmapped' hk' hw' (by omega) ?_)
    rw [hafter]
    exact hanswers

-- =========================================================== the whole

/-- An enabling sequence asks for the process image only. -/
theorem attempts_image {left : Nat} {last : Option UInt16} {out : Enabling.Outcome}
    (ha : Enabling.Attempts k layout left last t out) : ∀ e ∈ busTrace t, e.1.part = .image := by
  induction ha with
  | exhausted => exact List.forall_mem_nil _
  | noRoom | there => simp [Enabling.attemptTrace, busTrace, Bus.Request.part]
  | again inputs outputs answered _ _ _ ih =>
    rw [busTrace_append]
    refine List.forall_mem_append.2 ⟨?_, List.forall_mem_cons.2 ⟨rfl, ih⟩⟩
    simp [Enabling.attemptTrace, busTrace, Bus.Request.part]

/-- The sequence succeeds within five exchanges, none of which leaves a torque or counts too
much, and the telemetry shows what became of the drive. -/
structure Converges (k : UInt16) (g : Segment) (t : Trace) (r : Except Enabling.Error Unit) :
    Prop where
  result : r = .ok ()
  few : (Cyclic.exchanges t).length ≤ 5
  there : ∃ s, (stateAfter answer g (busTrace t)).slave? k = some s ∧ s.drive = .operationEnabled
  published : ∀ m : Telemetry, ((publications t).foldl Telemetry.publish m).enabled = true
    ∧ ((publications t).foldl Telemetry.publish m).drive = .operationEnabled
  null : ∀ pre a post, busTrace t = pre ++ ⟨.exchange, a⟩ :: post →
    ∃ s, (stateAfter answer g (pre ++ [⟨.exchange, a⟩])).slave? k = some s ∧ s.appliedTorque = 0
  addsUp : ∀ pre a post, busTrace t = pre ++ ⟨.exchange, a⟩ :: post →
    (stateAfter answer g pre).AddsUp

end Simulation.Segment

/-- A segment answers what a program asks of it. -/
theorem Cyclic.answeredBy_unattended {α : Type} (p : CyclicProgram α) (g : Simulation.Segment) :
    AnsweredBy Simulation.Segment.answer g (busTrace (p.record unattended g).1) := by
  induction p generalizing g with
  | done value => trivial
  | request r resume ih =>
    have hrest := ih (unattended r g).1 (unattended r g).2
    cases r with
    | bus r => exact ⟨rfl, hrest⟩
    | _ => exact hrest

open Simulation Simulation.Segment in
/-- With six attempts or more, on a bus that is mapped and counts in a word, the enabling
sequence enables every drive that is wired to its layout, from whatever state, and whatever
the control side asks for meanwhile. -/
theorem enable_converges {k : UInt16} {layout : Layout} {timing : Timing} {g : Segment}
    {s : Slave} (hmapped : g.mapped = true) (hadds : g.AddsUp) (hk : g.slave? k = some s)
    (hw : s.Wired layout) (hattempts : 6 ≤ timing.enableAttempts) :
    (∃ t r, Runs (Enabling.enable k layout timing) t r
        ∧ AnsweredBy answer g (Cyclic.busTrace t))
      ∧ ∀ t r, Runs (Enabling.enable k layout timing) t r →
        AnsweredBy answer g (Cyclic.busTrace t) → Converges k g t r := by
  refine ⟨⟨_, _, runs_record Cyclic.unattended _ g, Cyclic.answeredBy_unattended _ g⟩, ?_⟩
  intro t r hrun hanswers
  unfold Enabling.enable at hrun
  obtain ⟨out, rfl, hsequence⟩ := runs_bind_pure_iff.1 hrun
  have henough : Slave.remaining s.drive < timing.enableAttempts.toNat := by
    have hle := Slave.remaining_le s.drive
    rw [UInt32.le_iff_toNat_le] at hattempts
    exact Nat.lt_of_le_of_lt hle hattempts
  have hattempted := Enabling.runs_attempts hsequence
  have henables := attempts_enable (h := []) hattempted hmapped hk hw henough hanswers
  constructor
  case result =>
    unfold Enabling.Outcome.result
    rw [henables.enabled]
    rfl
  case few => exact Nat.le_trans henables.few (Slave.remaining_le s.drive)
  case there => exact henables.there
  case published => exact henables.published
  case null =>
    intro pre a post hsplit
    have hnull := henables.null
    rw [hsplit] at hnull
    exact hnull.at_split rfl
  case addsUp =>
    intro pre a post hsplit
    have himage := attempts_image hattempted
    rw [hsplit] at himage
    exact (addsUp_stateAfter (List.forall_mem_append.1 himage).1).2 hadds

/-- A drive that is about to react to a fault, with a torque left in its outputs. -/
def faulted : Simulation.Slave where
  al := .operational
  drive := .faultReactionActive
  outputs := [0x0f, 0, 4, 0xfa, 0, 0, 0, 0, 0]
  inputs := [0x1f, 2, 4, 0, 0, 0, 0, 0, 0]

/-- The drive is matched by any layout that has its fields where the default mappings have
them. -/
theorem faulted_matched {layout : Layout} (hcontrolword : layout.controlword.byte = 0)
    (hstatusword : layout.statusword = .simple 0) (htorque : layout.targetTorque.byte = 3)
    (hapart : layout.controlword.Apart layout.targetTorque)
    (hfits : layout.controlword.Fits 9 ∧ layout.targetTorque.Fits 9) : faulted.Matched layout := by
  have hreceive : faulted.dictionary.assigned Pdo.receive.assign = Pdo.defaultReceive := by decide
  have htransmit : faulted.dictionary.assigned Pdo.transmit.assign = Pdo.defaultTransmit := by
    decide
  constructor
  case operational => rfl
  case moving => rfl
  case controlword =>
    rw [hreceive, hcontrolword]
    exact ⟨_, by decide, by decide, Simulation.Slave.mapsOnce_controlword⟩
  case statusword =>
    rw [htransmit, hstatusword]
    exact ⟨_, by decide, by decide, [], _, rfl, rfl, by decide⟩
  case torque =>
    rw [hreceive, htorque]
    exact fun _ => Simulation.Slave.mapsOnce_targetTorque
  case apart => exact hapart
  case outputs => exact hfits
  case inputs =>
    rw [hstatusword]
    decide
  case shown =>
    rw [hstatusword]
    rfl

theorem faulted_wired : faulted.Wired .standard :=
  ⟨faulted_matched rfl rfl rfl (by decide) (by decide), by decide⟩

/-- Its images cover the default mappings, and a layout of nine bytes each way. -/
theorem faulted_covered {layout : Layout} (houtputs : layout.outputLen = 9)
    (hinputs : layout.inputLen = 9) : faulted.Covered layout := by
  constructor
  case whole => decide
  case mappings => decide
  case layout =>
    rw [houtputs, hinputs]
    decide

/-- The segment of that drive alone. -/
def faultedSegment : Simulation.Segment := { slaves := [faulted], mapped := true }

theorem faultedSegment_addsUp : faultedSegment.AddsUp := Simulation.Segment.addsUp_iff.2 (by decide)

/-- What an enabling sequence of six attempts requests of a segment, the result, and the
segment after it. -/
def enablingRun (layout : Layout) (g : Simulation.Segment) :
    Cyclic.Trace × Except Enabling.Error Unit × Simulation.Segment :=
  (Enabling.enable 1 layout { enableAttempts := 6 }).record Cyclic.unattended g

theorem enablingRun_runs (layout : Layout) (g : Simulation.Segment) :
    Runs (Enabling.enable 1 layout { enableAttempts := 6 }) (enablingRun layout g).1
      (enablingRun layout g).2.1 :=
  runs_record ..

/-- The segment answers what the recorded sequence asks for. -/
theorem enablingRun_answered (layout : Layout) (g : Simulation.Segment) :
    AnsweredBy Simulation.Segment.answer g (Cyclic.busTrace (enablingRun layout g).1) :=
  Cyclic.answeredBy_unattended ..

/-- The enabling sequence takes all five exchanges there. -/
theorem enable_converges_faulted :
    let run := enablingRun .standard faultedSegment
    Simulation.Segment.Converges 1 faultedSegment run.1 run.2.1
      ∧ (Cyclic.exchanges run.1).length = 5 := by
  intro run
  have hk : faultedSegment.slave? 1 = some faulted := rfl
  have hattempts : 6 ≤ Timing.enableAttempts { enableAttempts := 6 } := by decide
  obtain ⟨-, hconverges⟩ :=
    enable_converges rfl faultedSegment_addsUp hk faulted_wired hattempts
  exact ⟨hconverges _ _ (enablingRun_runs ..) (enablingRun_answered ..), rfl⟩

-- ====================================================== what it takes

/-- Enough for the sequence, beside six attempts and objects that are mapped by whole bytes
where the layout has them, in images that cover it all. -/
def Suffices (P : Layout → Simulation.Segment → Prop) : Prop :=
  ∀ (k : UInt16) (layout : Layout) (timing : Timing) (g : Simulation.Segment)
    (s : Simulation.Slave), g.AddsUp → g.slave? k = some s → s.Matched layout →
    s.Covered layout → 6 ≤ timing.enableAttempts → P layout g → ∀ t r, Runs (Enabling.enable k layout timing) t r →
      AnsweredBy Simulation.Segment.answer g (Cyclic.busTrace t) →
      Simulation.Segment.Converges k g t r

/-- If something suffices, the sequence must converge on the sample drive wherever that
holds. -/
theorem Suffices.converges {P : Layout → Simulation.Segment → Prop} (h : Suffices P)
    {layout : Layout} {g : Simulation.Segment} (hadds : g.AddsUp) (hk : g.slave? 1 = some faulted)
    (hmatched : faulted.Matched layout) (hcovered : faulted.Covered layout) (hP : P layout g) :
    Simulation.Segment.Converges 1 g (enablingRun layout g).1 (enablingRun layout g).2.1 :=
  h _ _ _ _ _ hadds hk hmatched hcovered (by decide) hP _ _ (enablingRun_runs ..)
    (enablingRun_answered ..)

/-- The segment after it was closed, which leaves the slave in its state. -/
def closedSegment : Simulation.Segment := faultedSegment.close

/-- A layout with a control word of one byte. -/
def shortCommand : Layout := { Layout.standard with controlword := ⟨0, 1⟩ }

/-- A layout with a torque of one byte. -/
def shortTorque : Layout := { Layout.standard with targetTorque := ⟨3, 1⟩ }

/-- Without a bus that is mapped, or with a field that is too short for its value, a drive
is not enabled, or not without a torque. -/
theorem not_converges :
    ¬ Suffices (fun layout _ => layout.controlword.Wide ∧ layout.targetTorque.Wide)
      ∧ ¬ Suffices (fun layout g => g.mapped = true ∧ layout.targetTorque.Wide)
      ∧ ¬ Suffices (fun layout g => g.mapped = true ∧ layout.controlword.Wide) := by
  refine ⟨fun h => ?closed, fun h => ?command, fun h => ?torque⟩
  case closed =>
    have hconverges := h.converges (g := closedSegment) faultedSegment_addsUp rfl
      faulted_wired.toMatched (faulted_covered rfl rfl) (by decide)
    cases hconverges.result
  case command =>
    have hmatched : faulted.Matched shortCommand :=
      faulted_matched rfl rfl rfl (by decide) (by decide)
    have hconverges := h.converges faultedSegment_addsUp rfl hmatched (faulted_covered rfl rfl)
      (by decide)
    cases hconverges.result
  case torque =>
    have hmatched : faulted.Matched shortTorque :=
      faulted_matched rfl rfl rfl (by decide) (by decide)
    have hconverges := h.converges faultedSegment_addsUp rfl hmatched (faulted_covered rfl rfl)
      (by decide)
    -- the last of its exchanges, which finds the drive enabled
    have hsplit : Cyclic.busTrace (enablingRun shortTorque faultedSegment).1
        = (Cyclic.busTrace (enablingRun shortTorque faultedSegment).1).take 19
          ++ ⟨.exchange, .ok 3⟩
            :: (Cyclic.busTrace (enablingRun shortTorque faultedSegment).1).drop 20 := rfl
    obtain ⟨s, hk, hnull⟩ := hconverges.null _ _ _ hsplit
    have happlied : some s.appliedTorque = some 0xfa :=
      (congrArg (Option.map Simulation.Slave.appliedTorque) hk).symm.trans rfl
    rw [hnull] at happlied
    cases happlied

end Servo
