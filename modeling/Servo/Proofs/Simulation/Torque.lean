/-
Where a simulated drive finds its torque.

The drive takes the target torque from the bytes that its own mapping gives it,
which need not be those of the layout that the master writes by. In idle outputs
all bytes from the third on are zero, and no two bytes before that are: so the
drive finds a torque there exactly if its mapping leads it astray (`Astray`).

`Slave.Resting` is what every exchange keeps while the outputs are idle: the
torque applied is zero, unless the mapping is misleading.
-/
import Servo.Proofs.Idle
import Servo.Simulation.Slave

namespace Servo

-- ================================================ two bytes of an image

namespace Bytes

/-- A run of two bytes. -/
theorem window_two {bytes : Bytes} {start : Nat} {a b : UInt8} (ha : bytes[start]? = some a)
    (hb : bytes[start + 1]? = some b) : window bytes start 2 = [a, b] := by
  apply List.ext_getElem?
  intro i
  unfold window
  rcases Nat.lt_or_ge i 2 with hi | hi
  · rw [List.getElem?_take_of_lt hi, List.getElem?_drop]
    obtain rfl | rfl : i = 0 ∨ i = 1 := by omega
    · exact ha
    · exact hb
  · rw [List.getElem?_take_eq_none hi, List.getElem?_eq_none hi]

end Bytes

/-- Two bytes of idle outputs are a number other than zero where they begin with
the command or with the mode. -/
theorem Idle.word_ne_zero_iff {image : Bytes} {offset : Nat} (h : Idle image)
    (hoffset : offset + 2 ≤ image.length) :
    (UInt16.ofNat (Bytes.toNat (Bytes.window image offset 2))).toInt16 ≠ 0 ↔ offset < 3 := by
  obtain ⟨-, command, hbytes⟩ := idle_iff.1 h
  rw [Bytes.window_two (hbytes offset (by omega)) (hbytes (offset + 1) (by omega)), idleHead_eq]
  by_cases hlt : offset < 3
  · refine iff_of_true ?_ hlt
    obtain rfl | rfl | rfl : offset = 0 ∨ offset = 1 ∨ offset = 2 := by omega
    · cases command <;> decide
    · cases command <;> decide
    · cases command <;> decide
  · obtain ⟨n, rfl⟩ := Nat.exists_eq_add_of_le' (Nat.not_lt.1 hlt)
    exact iff_of_false (by simp [Bytes.toNat]) hlt

namespace Simulation.Slave

variable {mapping : List Pdo.Entry} {index : UInt16} {image : Bytes} {length offset : Nat}
  {s s' : Slave}

-- ============================================================= offsets

/-- Where the last two bytes lie that an image of some length holds for an index. -/
def wordOffset? (mapping : List Pdo.Entry) (index : UInt16) (length : Nat) : Option Nat :=
  ((place 0 mapping).filterMap fun (e, offset) =>
    if e.index = index ∧ entryBytes e = 2 ∧ offset + 2 ≤ length then some offset
    else none).getLast?

theorem word?_eq (mapping : List Pdo.Entry) (index : UInt16) (image : Bytes) :
    word? mapping index image = (wordOffset? mapping index image.length).map fun offset =>
      UInt16.ofNat (Bytes.toNat (Bytes.window image offset 2)) := by
  unfold word? wordOffset?
  rw [← List.getLast?_map, List.map_filterMap]
  congr 2
  funext ⟨e, offset⟩
  dsimp only
  split <;> rfl

theorem wordOffset?_mem (h : wordOffset? mapping index length = some offset) :
    offset + 2 ≤ length ∧ ∃ e, (e, offset) ∈ place 0 mapping ∧ e.index = index := by
  have hmem := List.mem_of_getLast? h
  obtain ⟨⟨e, there⟩, hplaced, hword⟩ := List.mem_filterMap.1 hmem
  dsimp only at hword
  split at hword
  next hin =>
    cases hword
    exact ⟨hin.2.2, e, hplaced, hin.1⟩
  next => cases hword

/-- In an image of some length, a mapping has the torque where the command and the
mode are sent. -/
def Misleads (mapping : List Pdo.Entry) (length : Nat) : Prop :=
  ∃ offset, offset < 3 ∧ wordOffset? mapping 0x6071 length = some offset

/-- No mapping leads to no torque. -/
theorem not_misleads_nil : ¬ Misleads [] length := by
  intro h
  obtain ⟨offset, -, hoffset⟩ := h
  cases hoffset

/-- By default the torque is where the layout has it. -/
theorem not_misleads_default : ¬ Misleads Pdo.defaultReceive length := by
  intro h
  obtain ⟨offset, hlt, hoffset⟩ := h
  obtain ⟨-, e, hplaced, hindex⟩ := wordOffset?_mem hoffset
  have hthere : ∀ placed ∈ place 0 Pdo.defaultReceive, placed.1.index = 0x6071 → placed.2 = 3 := by
    decide
  exact absurd (hthere _ hplaced hindex) (Nat.ne_of_lt hlt)

/-- The mapping of the drive leads it astray. -/
def Astray (s : Slave) : Prop :=
  Misleads (s.dictionary.assigned Pdo.receive.assign) s.outputs.length

/-- What the drive finds in idle outputs for its torque. -/
theorem found_ne_zero_iff (h : Idle s.outputs) :
    ((word? (s.dictionary.assigned Pdo.receive.assign) 0x6071 s.outputs).map UInt16.toInt16).getD 0
        ≠ 0
      ↔ s.Astray := by
  unfold Astray Misleads
  rw [word?_eq]
  cases hoffset : wordOffset? (s.dictionary.assigned Pdo.receive.assign) 0x6071
      s.outputs.length with
  | none => simp
  | some offset => simpa using h.word_ne_zero_iff (wordOffset?_mem hoffset).1

-- ============================================================ exchanges

@[simp] theorem readOutputs_dictionary (s : Slave) : s.readOutputs.dictionary = s.dictionary := by
  unfold readOutputs
  dsimp only
  split <;> rfl

@[simp] theorem readOutputs_outputs (s : Slave) : s.readOutputs.outputs = s.outputs := by
  unfold readOutputs
  dsimp only
  split <;> rfl

@[simp] theorem readOutputs_inputs (s : Slave) : s.readOutputs.inputs = s.inputs := by
  unfold readOutputs
  dsimp only
  split <;> rfl

/-- From idle outputs a drive takes a torque exactly if it is enabled and led
astray. -/
theorem readOutputs_applied (h : Idle s.outputs) :
    s.readOutputs.appliedTorque ≠ 0
      ↔ s.readOutputs.drive = .operationEnabled ∧ s.Astray := by
  have hfound := found_ne_zero_iff h
  have happlied (drive : Drive.State) :
      (if drive = .operationEnabled then
          ((word? (s.dictionary.assigned Pdo.receive.assign) 0x6071 s.outputs).map
            UInt16.toInt16).getD 0
        else 0) ≠ 0 ↔ drive = .operationEnabled ∧ s.Astray := by
    by_cases hon : drive = .operationEnabled
    · rw [if_pos hon, hfound]
      exact (and_iff_right hon).symm
    · rw [if_neg hon]
      exact iff_of_false (fun hne => hne rfl) fun hand => hon hand.1
  unfold readOutputs
  dsimp only
  split
  · exact happlied _
  · exact happlied _

@[simp] theorem writeInputs_dictionary (s : Slave) :
    s.writeInputs.dictionary = s.dictionary := rfl

@[simp] theorem writeInputs_outputs (s : Slave) : s.writeInputs.outputs = s.outputs := rfl

@[simp] theorem writeInputs_applied (s : Slave) :
    s.writeInputs.appliedTorque = s.appliedTorque := rfl

@[simp] theorem writeInputs_drive (s : Slave) : s.writeInputs.drive = s.drive := rfl

/-- The mapping and the outputs are the master's to change. -/
theorem exchange_kept (s : Slave) :
    s.exchange.1.dictionary = s.dictionary ∧ s.exchange.1.outputs = s.outputs := by
  unfold exchange
  split <;> simp

/-- At an exchange a drive takes a torque in operational only. -/
theorem exchange_applied (h : Idle s.outputs) :
    (s.al = .operational → (s.exchange.1.appliedTorque ≠ 0
        ↔ s.exchange.1.drive = .operationEnabled ∧ s.Astray))
      ∧ (s.al ≠ .operational → s.exchange.1.appliedTorque = s.appliedTorque) := by
  unfold exchange
  split
  next hal =>
    rw [writeInputs_applied, writeInputs_drive]
    exact ⟨fun _ => readOutputs_applied h, fun hother => absurd hal hother⟩
  next hal => exact ⟨fun hop => (nomatch hal.symm.trans hop), fun _ => rfl⟩
  next hal _ => exact ⟨fun hop => absurd hop hal, fun _ => rfl⟩

/-- The outputs are idle and the mapping stays as it is; what torque there is comes
from its being misleading. -/
structure Resting (mapping : List Pdo.Entry) (length : Nat) (s : Slave) : Prop where
  idle : Idle s.outputs
  assigned : s.dictionary.assigned Pdo.receive.assign = mapping
  size : s.outputs.length = length
  torque : ¬ Misleads mapping length → s.appliedTorque = 0

theorem Resting.astray_iff (h : s.Resting mapping length) : s.Astray ↔ Misleads mapping length := by
  unfold Astray
  rw [h.assigned, h.size]

theorem Resting.handed {bytes : Bytes} (h : s.Resting mapping length) (hbytes : Idle bytes) :
    Resting mapping length { s with outputs := Bytes.overwrite s.outputs bytes } where
  idle := h.idle.overwrite hbytes
  assigned := h.assigned
  size := (Bytes.length_overwrite s.outputs bytes).trans h.size
  torque := h.torque

/-- A drive that is not led astray takes no torque from idle outputs. -/
theorem Resting.exchange_applied (h : s.Resting mapping length) (hstraight : ¬ s.Astray) :
    s.exchange.1.appliedTorque = 0 := by
  obtain ⟨hon, hoff⟩ := Slave.exchange_applied h.idle
  by_cases hal : s.al = .operational
  · exact Decidable.byContradiction fun hne => hstraight ((hon hal).1 hne).2
  · rw [hoff hal]
    rw [h.astray_iff] at hstraight
    exact h.torque hstraight

theorem Resting.exchange (h : s.Resting mapping length) : s.exchange.1.Resting mapping length := by
  obtain ⟨hdictionary, houtputs⟩ := s.exchange_kept
  constructor
  case idle => exact houtputs ▸ h.idle
  case assigned => exact hdictionary ▸ h.assigned
  case size => exact houtputs ▸ h.size
  case torque =>
    rw [← h.astray_iff]
    exact h.exchange_applied

end Simulation.Slave

end Servo
