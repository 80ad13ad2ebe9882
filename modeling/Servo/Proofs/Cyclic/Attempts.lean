/-
Enabling a drive, attempt by attempt.

A sequence is a row of attempts. Each reads the inputs, publishes what it found in
them, puts the command that this calls for into the outputs, and makes an exchange
unless the drive is there or the command does not fit. Nothing that an attempt
does depends on the attempts before it, so `Attempt` holds what it is given (the
inputs, the outputs it finds, the answer to its exchange), and the rest is computed.

# From the rules to a row

`attempts_row` turns the rules of the sequence (`Attempts`) into a row, by induction on
them. What a row is (`Row`) says which exchanges are made, and by that where the row
ends: every attempt but the last one made an exchange, and where the last one did so
too, none is left. `attempt_by_attempt` adds what an exchange carries and what is left
in the outputs.

# The flag

What is published last comes from the last attempt (`follow_row`), before it writes
its command. The flag that tells the control side whether the drive is enabled is
therefore raised by an attempt that finds it enabled and then cannot keep it there, for
want of room in the outputs. `enabled_flag_iff` says that nothing else parts the flag
from the outcome.
-/
import Servo.Proofs.Cyclic.Observed
import Servo.Proofs.Field

namespace Servo

-- ============================================================ commands

/-- The control word tells the command. -/
theorem Drive.Command.bits_inj {command command' : Drive.Command} :
    command.bits = command'.bits ↔ command = command' := by
  cases command <;> cases command' <;> decide

/-- Operation is enabled from one state only. -/
theorem Drive.State.next_eq_enableOperation_iff {state : Drive.State} :
    state.next = some .enableOperation ↔ state = .switchedOn := by
  cases state <;> simp [Drive.State.next]

/-- A fault is reset in one state only. -/
theorem Drive.State.next_eq_faultReset_iff {state : Drive.State} :
    state.next = some .faultReset ↔ state = .fault := by
  cases state <;> simp [Drive.State.next]

namespace Enabling

open Program Cyclic

variable {slave : UInt16} {layout : Layout} {timing : Timing} {left : Nat} {last : Option UInt16}
  {t : Trace} {o : Outcome} {r : Except Error Unit}

-- ============================================================ an attempt

/-- What an attempt is given: the inputs, the outputs as it finds them, and the answer
to its exchange, if it makes one. -/
structure Attempt where
  inputs : Bytes
  outputs : Bytes
  answer : Option (Except Bus.Fault UInt16)

namespace Attempt

/-- The status word it reads, 0 if the inputs do not hold one. -/
def statusword (layout : Layout) (a : Attempt) : UInt16 := layout.statuswordIn a.inputs

/-- The state it finds the drive in. -/
def drive (layout : Layout) (a : Attempt) : Drive.State := .decode (a.statusword layout)

/-- The outputs it hands over, with no torque and with the command, each if it fits. -/
def sent (layout : Layout) (a : Attempt) : Bytes :=
  layout.controlword.put (layout.targetTorque.put a.outputs 0) (a.drive layout).controlword

/-- The requests it makes. -/
def trace (slave : UInt16) (layout : Layout) (a : Attempt) : Trace :=
  attemptTrace slave layout a.inputs a.outputs (a.sent layout)
    ++ a.answer.toList.map fun answer => ⟨.bus .exchange, answer⟩

/-- It finds the drive enabled, and can tell it to stay so. -/
def There (layout : Layout) (a : Attempt) : Prop :=
  a.drive layout = .operationEnabled ∧ layout.controlword.HasRoom a.outputs

/-- It finds the drive in another state, and can send a command. -/
def Pending (layout : Layout) (a : Attempt) : Prop :=
  a.drive layout ≠ .operationEnabled ∧ layout.controlword.HasRoom a.outputs

/-- What the exchange of an attempt carries. -/
structure Commands (layout : Layout) (a : Attempt) : Prop where
  /-- The next command on the way. -/
  next : ∃ command, (a.drive layout).next = some command
    ∧ layout.controlword.get (a.sent layout) = .ok command.bits
  torque : layout.targetTorque.HasRoom a.outputs → layout.targetTorque.get (a.sent layout) = .ok 0
  enableOperation :
    layout.controlword.get (a.sent layout) = .ok Drive.Command.enableOperation.bits →
      a.drive layout = .switchedOn
  faultReset : layout.controlword.get (a.sent layout) = .ok Drive.Command.faultReset.bits →
    a.drive layout = .fault

/-- A command that can be written is handed over. -/
theorem sent_of_set {a : Attempt} {sent : Bytes}
    (h : layout.controlword.set (layout.targetTorque.put a.outputs 0)
      (a.drive layout).controlword = .ok sent) :
    a.sent layout = sent ∧ layout.controlword.HasRoom a.outputs :=
  ⟨Field.put_eq_of_set h, Field.hasRoom_put.1 (Field.hasRoom_of_set h)⟩

/-- Without room for it, only the torque is written. -/
theorem sent_of_set_error {a : Attempt} {e : PackingError}
    (h : layout.controlword.set (layout.targetTorque.put a.outputs 0)
      (a.drive layout).controlword = .error e) :
    a.sent layout = layout.targetTorque.put a.outputs 0
      ∧ ¬ layout.controlword.HasRoom a.outputs :=
  ⟨Field.put_eq_of_set_error h,
    fun hroom => Field.not_hasRoom_of_set_error h (Field.hasRoom_put.2 hroom)⟩

/-- The control word that is left in the outputs. -/
theorem get_sent {a : Attempt} (hroom : layout.controlword.HasRoom a.outputs) :
    layout.controlword.get (a.sent layout) = .ok (a.drive layout).controlword := by
  have hput : layout.controlword.HasRoom (layout.targetTorque.put a.outputs 0) :=
    Field.hasRoom_put.2 hroom
  exact Field.get_put_self hput.1 hput.2

theorem Pending.commands {a : Attempt} (hapart : layout.controlword.Apart layout.targetTorque)
    (h : a.Pending layout) : a.Commands layout := by
  obtain ⟨hnot, hroom⟩ := h
  have hnext : ∃ command, (a.drive layout).next = some command := by
    rw [← Option.isSome_iff_exists, Option.isSome_iff_ne_none]
    exact fun hnone => hnot (Drive.State.next_eq_none_iff.1 hnone)
  obtain ⟨command, hcommand⟩ := hnext
  have hget : layout.controlword.get (a.sent layout) = .ok command.bits := by
    rw [get_sent hroom, Drive.State.controlword, hcommand]
    rfl
  constructor
  case next => exact ⟨command, hcommand, hget⟩
  case torque =>
    intro htorque
    unfold sent
    rw [Field.get_put_of_apart hapart]
    exact Field.get_put_self htorque.1 htorque.2
  case enableOperation =>
    intro henable
    rw [hget, Except.ok.injEq, Drive.Command.bits_inj] at henable
    rwa [henable, Drive.State.next_eq_enableOperation_iff] at hcommand
  case faultReset =>
    intro hreset
    rw [hget, Except.ok.injEq, Drive.Command.bits_inj] at hreset
    rwa [hreset, Drive.State.next_eq_faultReset_iff] at hcommand

end Attempt

-- ============================================================== a row

variable {row : List Attempt}

/-- The attempts of a sequence with so many left. -/
structure Row (layout : Layout) (left : Nat) (row : List Attempt) : Prop where
  bounded : row.length ≤ left
  exchanges_iff : ∀ a ∈ row, a.answer.isSome ↔ a.Pending layout
  /-- Another attempt is made after an exchange only, -/
  goesOn : ∀ a ∈ row.dropLast, a.answer.isSome
  /-- and after each exchange as long as any is left. -/
  exhausted : (∀ a ∈ row, a.answer.isSome) → row.length = left

/-- The status word that the last attempt read, 0 if none was made. -/
def lastWord (layout : Layout) (row : List Attempt) : UInt16 :=
  (row.getLast?.map (Attempt.statusword layout)).getD 0

theorem row_nil : Row layout 0 [] where
  bounded := Nat.le_refl 0
  exchanges_iff := by simp
  goesOn := by simp
  exhausted _ := rfl

/-- An attempt that makes no exchange is the last one. -/
theorem row_singleton {a : Attempt} (hnone : a.answer = none) (hstop : ¬ a.Pending layout) :
    Row layout (left + 1) [a] where
  bounded := Nat.le_add_left 1 left
  exchanges_iff := by simp [hnone, hstop]
  goesOn := by simp
  exhausted hall := by simp [hnone] at hall

theorem Row.cons {a : Attempt} (h : Row layout left row) (hsome : a.answer.isSome)
    (hpending : a.Pending layout) : Row layout (left + 1) (a :: row) where
  bounded := Nat.succ_le_succ h.bounded
  exchanges_iff := by
    apply List.forall_mem_cons.2 ⟨?_, h.exchanges_iff⟩
    exact ⟨fun _ => hpending, fun _ => hsome⟩
  goesOn := by
    cases row with
    | nil => simp
    | cons b row =>
      rw [List.dropLast_cons_cons]
      exact List.forall_mem_cons.2 ⟨hsome, h.goesOn⟩
  exhausted hall :=
    congrArg (· + 1) (h.exhausted fun b hb => hall b (List.mem_cons_of_mem a hb))

/-- The first attempt that finds the drive there is the last one. -/
theorem Row.stops {a : Attempt} {before after : List Attempt} (h : Row layout left row)
    (hrow : row = before ++ a :: after) (hthere : a.There layout) : after = [] := by
  cases after with
  | nil => rfl
  | cons b after =>
    have hmem : a ∈ row.dropLast := by
      rw [hrow, List.dropLast_append_cons, List.dropLast_cons_cons]
      simp
    have hpending : a.Pending layout :=
      (h.exchanges_iff a (List.dropLast_subset row hmem)).1 (h.goesOn a hmem)
    exact absurd hthere.1 hpending.1

/-- The last attempt is the only one that can find the drive there. -/
theorem Row.exists_there_iff {a : Attempt} (h : Row layout left row)
    (hlast : row.getLast? = some a) : (∃ b ∈ row, b.There layout) ↔ a.There layout := by
  constructor
  · rintro ⟨b, hb, hthere⟩
    obtain ⟨before, after, hrow⟩ := List.append_of_mem hb
    obtain rfl := h.stops hrow hthere
    rw [hrow, List.getLast?_concat] at hlast
    exact Option.some.inj hlast ▸ hthere
  · intro hthere
    exact ⟨a, List.mem_of_getLast? hlast, hthere⟩

/-- A sequence is a row of attempts. It ends well exactly if one of them found the drive
enabled, and keeps the status word of the last one. -/
theorem attempts_row (h : Attempts slave layout left last t o) :
    ∃ row, t = row.flatMap (Attempt.trace slave layout) ∧ Row layout left row
      ∧ (o.enabled = true ↔ ∃ a ∈ row, a.There layout)
      ∧ o.statusword? = (row.getLast?.map (Attempt.statusword layout)).or last := by
  induction h with
  | exhausted last => exact ⟨[], rfl, row_nil, by simp, rfl⟩
  | @noRoom left last inputs outputs e herror =>
    obtain ⟨hsent, hroom⟩ := Attempt.sent_of_set_error (a := ⟨inputs, outputs, none⟩) herror
    refine ⟨[⟨inputs, outputs, none⟩], ?_, row_singleton rfl fun h => hroom h.2, ?_, rfl⟩
    · simp [Attempt.trace, hsent]
    · simpa [Attempt.There] using fun _ => hroom
  | @there left last inputs outputs sent hset hnext =>
    obtain ⟨hsent, hroom⟩ := Attempt.sent_of_set (a := ⟨inputs, outputs, none⟩) hset
    rw [Drive.State.next_eq_none_iff] at hnext
    refine ⟨[⟨inputs, outputs, none⟩], ?_, row_singleton rfl fun h => h.1 hnext, ?_, rfl⟩
    · simp [Attempt.trace, hsent]
    · exact ⟨fun _ => ⟨_, List.mem_singleton_self _, hnext, hroom⟩, fun _ => rfl⟩
  | @again left last inputs outputs sent answer t o hset hnext _ ih =>
    obtain ⟨row, rfl, hrow, henabled, hword⟩ := ih
    obtain ⟨hsent, hroom⟩ := Attempt.sent_of_set (a := ⟨inputs, outputs, some answer⟩) hset
    rw [Ne, Drive.State.next_eq_none_iff] at hnext
    refine ⟨⟨inputs, outputs, some answer⟩ :: row, ?_, hrow.cons rfl ⟨hnext, hroom⟩, ?_, ?_⟩
    · simp [Attempt.trace, hsent]
    · have hnot : ¬ Attempt.There layout ⟨inputs, outputs, some answer⟩ := fun h => hnext h.1
      simpa [hnot] using henabled
    · rw [hword, List.getLast?_cons]
      cases row.getLast? <;> rfl

/-- The error has the status word of the last attempt. -/
theorem enable_row (h : Runs (enable slave layout timing) t r) :
    ∃ row, t = row.flatMap (Attempt.trace slave layout)
      ∧ Row layout timing.enableAttempts.toNat row
      ∧ (r = .ok () ↔ ∃ a ∈ row, a.There layout)
      ∧ ∀ e, r = .error e → e = ⟨slave, timing.enableAttempts, .decode (lastWord layout row),
        lastWord layout row⟩ := by
  obtain ⟨o, rfl, hsequence⟩ := runs_bind_pure_iff.1 h
  obtain ⟨row, rfl, hrow, henabled, hword⟩ := attempts_row (runs_attempts hsequence)
  refine ⟨row, rfl, hrow, ?_, fun e he => ?_⟩
  · rw [← henabled, Outcome.result]
    cases o.enabled <;> simp
  · rw [Outcome.result] at he
    split at he
    next => cases he
    next =>
      cases he
      rw [hword, Option.or_none]
      rfl

end Enabling

namespace Cyclic

open Program Enabling

variable {c : Settings} {o : Observed} {t : Trace} {r : Except Enabling.Error Unit}

-- ======================================================== what is left

/-- What is seen after an attempt. -/
theorem follow_attempt (a : Attempt) :
    (o.follow c (a.trace c.slave c.layout)).outputs = some (a.sent c.layout)
      ∧ (o.follow c (a.trace c.slave c.layout)).statusword = a.statusword c.layout
      ∧ (o.follow c (a.trace c.slave c.layout)).telemetry
        = o.telemetry.publish (.answering (a.statusword c.layout)) := by
  unfold Attempt.trace
  cases a.answer <;> simp [attemptTrace, Attempt.statusword]

/-- What is seen after a row of attempts is what is seen after the last one. -/
theorem follow_row {row : List Attempt} {a : Attempt} (ha : row.getLast? = some a) :
    ∃ o' : Observed, o.follow c (row.flatMap (Attempt.trace c.slave c.layout))
      = o'.follow c (a.trace c.slave c.layout) := by
  obtain ⟨before, rfl⟩ := List.getLast?_eq_some_iff.1 ha
  refine ⟨o.follow c (before.flatMap (Attempt.trace c.slave c.layout)), ?_⟩
  rw [List.flatMap_append, List.flatMap_singleton, Observed.follow_append]

/-- What a sequence requests, and what it ends with. -/
structure Sequence (c : Settings) (row : List Attempt) (t : Trace)
    (r : Except Enabling.Error Unit) : Prop where
  requests : t = row.flatMap (Attempt.trace c.slave c.layout)
  attempts : Row c.layout c.timing.enableAttempts.toNat row
  commands : ∀ a ∈ row, a.answer.isSome → a.Commands c.layout
  /-- It succeeds exactly if an attempt finds the drive enabled, the last one then. -/
  ok_iff : r = .ok () ↔ ∃ a ∈ row, a.There c.layout
  first {before after : List Attempt} {a : Attempt} :
    row = before ++ a :: after → a.There c.layout → after = []
  failed {e : Enabling.Error} : r = .error e →
    e = ⟨c.slave, c.timing.enableAttempts, .decode (lastWord c.layout row), lastWord c.layout row⟩
  /-- The outputs that were handed over last hold the control word that is published. -/
  inFlight (o : Observed) {a : Attempt} :
    row.getLast? = some a → c.layout.controlword.HasRoom a.outputs →
      ∃ outputs, (o.follow c t).outputs = some outputs
        ∧ c.layout.controlword.get outputs = .ok (o.follow c t).telemetry.controlword

/-- Whatever the bus answers, a drive is enabled in a row of attempts. -/
theorem attempt_by_attempt (hapart : c.layout.controlword.Apart c.layout.targetTorque)
    (h : Runs (enable c.slave c.layout c.timing) t r) : ∃ row, Sequence c row t r := by
  obtain ⟨row, rfl, hrow, hok, hfailed⟩ := enable_row h
  refine ⟨row, ?_⟩
  constructor
  case requests => rfl
  case attempts => exact hrow
  case commands =>
    intro a ha hanswer
    have hpending : a.Pending c.layout := (hrow.exchanges_iff a ha).1 hanswer
    exact hpending.commands hapart
  case ok_iff => exact hok
  case first => exact hrow.stops
  case failed => exact hfailed _
  case inFlight =>
    intro o a hlast hroom
    obtain ⟨o', hseen⟩ := follow_row (c := c) (o := o) hlast
    obtain ⟨houtputs, -, htelemetry⟩ := follow_attempt (c := c) (o := o') a
    rw [hseen, htelemetry]
    exact ⟨a.sent c.layout, houtputs, Attempt.get_sent hroom⟩

/-- A drive in fault whose reset is answered by no one and done all the same; it was
switched on meanwhile, and follows the next command. -/
def resetTrace : Trace :=
  List.flatMap (Attempt.trace 1 .standard)
    [⟨Packed.bytes (0x08 : UInt16), List.replicate 9 0xff, some (.error (.timeout "no reply"))⟩,
     ⟨Packed.bytes (0x23 : UInt16), 0x80 :: List.replicate 8 0, some (.ok 3)⟩,
     ⟨Packed.bytes (0x27 : UInt16), 0x0f :: List.replicate 8 0, none⟩]

def resetSettings : Settings := ⟨1, .standard, { enableAttempts := 5 }, 3⟩

theorem attempt_by_attempt_reset :
    Layout.standard.controlword.Apart Layout.standard.targetTorque
      ∧ Runs (enable 1 .standard { enableAttempts := 5 }) resetTrace (.ok ())
      ∧ ∃ row, Sequence resetSettings row resetTrace (.ok ()) := by
  have hapart : Layout.standard.controlword.Apart Layout.standard.targetTorque := by decide
  have hruns : Runs (enable 1 .standard { enableAttempts := 5 }) resetTrace (.ok ()) :=
    Runs.of_replay rfl
  exact ⟨hapart, hruns, attempt_by_attempt (c := resetSettings) hapart hruns⟩

-- ============================================================ the flag

/-- The drive was last read to be enabled, and the outputs have no room to keep it so. -/
def OutOfReach (c : Settings) (o : Observed) : Prop :=
  Drive.State.decode o.statusword = .operationEnabled
    ∧ ∃ outputs, o.outputs = some outputs ∧ ¬ c.layout.controlword.HasRoom outputs

/-- The drive is published to be enabled exactly if the sequence succeeded, but for a drive
that is out of reach. -/
theorem enabled_flag_iff (hattempts : c.timing.enableAttempts ≠ 0)
    (h : Runs (enable c.slave c.layout c.timing) t r) (o : Observed) :
    ((o.follow c t).telemetry.enabled = true ↔ r = .ok ()) ↔ ¬ OutOfReach c (o.follow c t) := by
  obtain ⟨row, rfl, hrow, hok, -⟩ := enable_row h
  have hne : row ≠ [] := by
    rintro rfl
    have hzero : (0 : Nat) = c.timing.enableAttempts.toNat := hrow.exhausted (by simp)
    exact hattempts (UInt32.toNat_inj.1 hzero.symm)
  obtain ⟨a, hlast⟩ := Option.ne_none_iff_exists'.1 (mt List.getLast?_eq_none_iff.1 hne)
  obtain ⟨o', hseen⟩ := follow_row (c := c) (o := o) hlast
  obtain ⟨houtputs, hword, htelemetry⟩ := follow_attempt (c := c) (o := o') a
  have hflag : (o.follow c (row.flatMap (Attempt.trace c.slave c.layout))).telemetry.enabled = true
      ↔ a.drive c.layout = .operationEnabled := by
    rw [hseen, htelemetry, ← Drive.State.next_eq_none_iff, ← Option.isNone_iff_eq_none]
    exact Iff.rfl
  have hroom : (∃ outputs, (o'.follow c (a.trace c.slave c.layout)).outputs = some outputs
      ∧ ¬ c.layout.controlword.HasRoom outputs) ↔ ¬ c.layout.controlword.HasRoom a.outputs := by
    simp [houtputs, Attempt.sent]
  rw [hflag, hok, hrow.exists_there_iff hlast]
  unfold OutOfReach
  rw [hseen, hword, hroom]
  show (a.drive c.layout = .operationEnabled ↔ a.There c.layout)
    ↔ ¬ (a.drive c.layout = .operationEnabled ∧ ¬ c.layout.controlword.HasRoom a.outputs)
  unfold Attempt.There
  rw [iff_self_and, Decidable.not_and_not_right]

/-- A drive that is enabled already, and whose outputs are a single byte. -/
def shortTrace : Trace :=
  attemptTrace 1 .standard (Packed.bytes (0x237 : UInt16)) [0] [0]

def shortSettings : Settings := ⟨1, .standard, { enableAttempts := 3 }, 3⟩

theorem runs_shortTrace : Runs (enable 1 .standard { enableAttempts := 3 }) shortTrace
    (.error ⟨1, 3, .operationEnabled, 0x237⟩) :=
  Runs.of_replay rfl

theorem enabled_flag_iff_short :
    (3 : UInt32) ≠ 0
      ∧ Runs (enable 1 .standard { enableAttempts := 3 }) shortTrace
        (.error ⟨1, 3, .operationEnabled, 0x237⟩)
      ∧ OutOfReach shortSettings (observe shortSettings shortTrace) := by
  refine ⟨by decide, runs_shortTrace, ?_⟩
  have hiff := enabled_flag_iff (c := shortSettings) (by decide) runs_shortTrace {}
  apply Classical.byContradiction
  intro hreach
  cases (hiff.2 hreach).1 rfl

/-- A drive is published to be enabled by a sequence that fails. -/
theorem not_enabled_flag :
    ¬ ∀ (c : Settings) (t : Trace) (r : Except Enabling.Error Unit),
      c.timing.enableAttempts ≠ 0 → Runs (enable c.slave c.layout c.timing) t r →
      ((observe c t).telemetry.enabled = true ↔ r = .ok ()) := by
  intro h
  have hiff := h shortSettings shortTrace _ (by decide) runs_shortTrace
  cases hiff.1 rfl

end Cyclic

end Servo
