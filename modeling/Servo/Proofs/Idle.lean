/-
Outputs that ask for nothing but a state of the drive.

Under the standard layout these begin with a command and the torque mode, and
are zero from there on (`Idle`). They are what a bring-up leaves, and every
program that writes outputs keeps them so as long as the torque it writes is
zero: one lemma for each of the writes.
-/
import Servo.Proofs.Layout
import Servo.Drive.OperationMode

namespace Servo

-- ============================================================= zeros

namespace Bytes

theorem getElem?_fit (len : Nat) (bytes : Bytes) (i : Nat) :
    (fit len bytes)[i]? = if i < len then some (bytes.getD i 0) else none := by
  unfold fit
  rcases Nat.lt_or_ge i (bytes.take len).length with hi | hi
  · rw [List.getElem?_append_left hi]
    rw [List.length_take] at hi
    rw [List.getElem?_take_of_lt (by omega), if_pos (by omega), List.getD_eq_getElem?_getD,
      List.getElem?_eq_getElem (by omega)]
    rfl
  · rw [List.getElem?_append_right hi, List.getElem?_replicate]
    rw [List.length_take] at hi ⊢
    by_cases hlen : i < len
    · rw [if_pos (by omega), if_pos hlen, List.getD_eq_getElem?_getD,
        List.getElem?_eq_none (by omega)]
      rfl
    · rw [if_neg (by omega), if_neg hlen]

theorem getElem?_overwrite (bytes new : Bytes) (i : Nat) :
    (overwrite bytes new)[i]? = if i < new.length ∧ i < bytes.length then new[i]?
      else bytes[i]? := by
  unfold overwrite
  rcases Nat.lt_or_ge i (new.take bytes.length).length with hi | hi
  · rw [List.getElem?_append_left hi]
    rw [List.length_take] at hi
    rw [List.getElem?_take_of_lt (by omega), if_pos (by omega)]
  · rw [List.getElem?_append_right hi, List.getElem?_drop]
    rw [List.length_take] at hi ⊢
    rw [if_neg (by omega)]
    by_cases hnew : new.length ≤ bytes.length
    · congr 1
      omega
    · rw [List.getElem?_eq_none (by omega), List.getElem?_eq_none (by omega)]

theorem overwrite_of_length {bytes new : Bytes} (h : new.length = bytes.length) :
    overwrite bytes new = new := by
  unfold overwrite
  rw [← h, List.take_length, h, List.drop_length, List.append_nil]

end Bytes

-- ============================================================ the head

/-- The bytes that lie before the torque. -/
def idleHead (command : Drive.Command) : Bytes :=
  Packed.bytes command.bits ++ Packed.bytes OperationMode.torqueProfile.raw

/-- A command has no bit in the high byte. -/
theorem idleHead_eq (command : Drive.Command) :
    idleHead command = [command.bits.toUInt8, 0, 4] := by
  cases command <;> rfl

theorem getElem?_command {command : Drive.Command} {i : Nat} (hi : i < 2) :
    (Packed.bytes command.bits)[i]? = some ((idleHead command).getD i 0) := by
  obtain rfl | rfl : i = 0 ∨ i = 1 := by omega
  · cases command <;> rfl
  · cases command <;> rfl

/-- Behind the command all heads are the same. -/
theorem idleHead_getD_of_two_le (command last : Drive.Command) {i : Nat} (hi : 2 ≤ i) :
    (idleHead command).getD i 0 = (idleHead last).getD i 0 := by
  obtain ⟨n, rfl⟩ := Nat.exists_eq_add_of_le' hi
  rw [idleHead_eq, idleHead_eq]
  rfl

/-- Behind the mode a head is zero. -/
theorem idleHead_getD_of_three_le {command : Drive.Command} {i : Nat} (hi : 3 ≤ i) :
    (idleHead command).getD i 0 = 0 := by
  obtain ⟨n, rfl⟩ := Nat.exists_eq_add_of_le' hi
  rw [idleHead_eq]
  rfl

/-- Outputs with a command, and zeros where a torque would be. -/
def Idle (image : Bytes) : Prop :=
  2 ≤ image.length ∧ ∃ command, image = Bytes.fit image.length (idleHead command)

variable {image : Bytes}

theorem idle_iff : Idle image ↔ 2 ≤ image.length ∧ ∃ command,
    ∀ i, i < image.length → image[i]? = some ((idleHead command).getD i 0) := by
  constructor
  · intro h
    obtain ⟨hlen, command, himage⟩ := h
    refine ⟨hlen, command, fun i hi => ?_⟩
    calc image[i]? = (Bytes.fit image.length (idleHead command))[i]? := by rw [← himage]
      _ = some ((idleHead command).getD i 0) := by rw [Bytes.getElem?_fit, if_pos hi]
  · intro h
    obtain ⟨hlen, command, hbytes⟩ := h
    refine ⟨hlen, command, List.ext_getElem? fun i => ?_⟩
    rw [Bytes.getElem?_fit]
    by_cases hi : i < image.length
    · rw [if_pos hi, hbytes i hi]
    · rw [if_neg hi, List.getElem?_eq_none (by omega)]

-- ============================================================== writes

open Layout (standard)

/-- The bytes of an image after writing to a field that begins where it says, and
is as long as its type. -/
theorem Field.getElem?_put_simple {α : Type} [Packed α] {f : Field α} {start : Nat}
    (hstart : f.byte.toNat = start) (hstop : f.stop.toNat = start + Packed.size α)
    (hlen : f.len.toNat = Packed.size α) (image : Bytes) (v : α) (i : Nat) :
    (f.put image v)[i]?
      = if start + Packed.size α ≤ image.length ∧ start ≤ i ∧ i < start + Packed.size α then
          (Packed.bytes v)[i - start]?
        else image[i]? := by
  have hfits : f.Fits image.length ↔ start + Packed.size α ≤ image.length := by
    unfold Fits
    rw [UInt64.le_iff_toNat_le, hstart, hstop]
    omega
  rw [getElem?_put (Nat.le_of_eq hlen.symm)]
  simp only [hfits, hstart]

theorem getElem?_put_controlword (image : Bytes) (word : UInt16) (i : Nat) :
    (standard.controlword.put image word)[i]?
      = if 0 + 2 ≤ image.length ∧ 0 ≤ i ∧ i < 0 + 2 then (Packed.bytes word)[i - 0]?
        else image[i]? :=
  Field.getElem?_put_simple rfl rfl rfl image word i

theorem getElem?_put_mode (image : Bytes) (mode : Int8) (i : Nat) :
    (standard.mode.put image mode)[i]?
      = if 2 + 1 ≤ image.length ∧ 2 ≤ i ∧ i < 2 + 1 then (Packed.bytes mode)[i - 2]?
        else image[i]? :=
  Field.getElem?_put_simple rfl rfl rfl image mode i

theorem getElem?_put_targetTorque (image : Bytes) (torque : Int16) (i : Nat) :
    (standard.targetTorque.put image torque)[i]?
      = if 3 + 2 ≤ image.length ∧ 3 ≤ i ∧ i < 3 + 2 then (Packed.bytes torque)[i - 3]?
        else image[i]? :=
  Field.getElem?_put_simple rfl rfl rfl image torque i

/-- Another command. -/
theorem Idle.put_controlword (h : Idle image) (command : Drive.Command) :
    Idle (standard.controlword.put image command.bits) := by
  obtain ⟨hlen, last, hbytes⟩ := idle_iff.1 h
  refine idle_iff.2 ⟨by rw [Field.length_put]; exact hlen, command, fun i hi => ?_⟩
  rw [Field.length_put] at hi
  rw [getElem?_put_controlword]
  by_cases hin : i < 2
  · rw [if_pos (by omega)]
    exact getElem?_command hin
  · rw [if_neg (by omega), hbytes i hi]
    exact congrArg some (idleHead_getD_of_two_le last command (by omega))

/-- The mode that is there. -/
theorem Idle.put_mode (h : Idle image) :
    Idle (standard.mode.put image OperationMode.torqueProfile.raw) := by
  obtain ⟨hlen, command, hbytes⟩ := idle_iff.1 h
  refine idle_iff.2 ⟨by rw [Field.length_put]; exact hlen, command, fun i hi => ?_⟩
  rw [Field.length_put] at hi
  rw [getElem?_put_mode]
  split
  next hin =>
    obtain rfl : i = 2 := by omega
    rw [idleHead_eq]
    rfl
  next hout => exact hbytes i hi

/-- No torque. -/
theorem Idle.put_targetTorque (h : Idle image) : Idle (standard.targetTorque.put image 0) := by
  obtain ⟨hlen, command, hbytes⟩ := idle_iff.1 h
  refine idle_iff.2 ⟨by rw [Field.length_put]; exact hlen, command, fun i hi => ?_⟩
  rw [Field.length_put] at hi
  rw [getElem?_put_targetTorque]
  split
  next hin =>
    obtain rfl | rfl : i = 3 ∨ i = 4 := by omega
    · rw [idleHead_eq]
      rfl
    · rw [idleHead_eq]
      rfl
  next hout => exact hbytes i hi

/-- Idle outputs by others. -/
theorem Idle.overwrite {new : Bytes} (h : Idle image) (hnew : Idle new) :
    Idle (Bytes.overwrite image new) := by
  obtain ⟨hlen, last, hbytes⟩ := idle_iff.1 h
  obtain ⟨hlen', command, hbytes'⟩ := idle_iff.1 hnew
  refine idle_iff.2 ⟨by rw [Bytes.length_overwrite]; exact hlen, command, fun i hi => ?_⟩
  rw [Bytes.length_overwrite] at hi
  rw [Bytes.getElem?_overwrite]
  by_cases hin : i < new.length
  · rw [if_pos ⟨hin, hi⟩, hbytes' i hin]
  · rw [if_neg fun h => hin h.1, hbytes i hi]
    exact congrArg some (idleHead_getD_of_two_le last command (by omega))

theorem clearOutputs_zeros (l : Layout) (n : Nat) :
    l.clearOutputs (List.replicate n 0) = List.replicate n 0 := by
  have hreached : min l.outputLen.toNat n + (n - min l.outputLen.toNat n) = n := by omega
  unfold Layout.clearOutputs
  simp only [List.length_replicate, List.drop_replicate, List.replicate_append_replicate, hreached]

/-- What safe outputs hold beside zeros is a command, which must fit, and the mode. -/
theorem safeOutputs_zeros {n : Nat} {mode : Int8} {safe : Bytes}
    (h : standard.safeOutputs (List.replicate n 0) mode = (safe, .ok ())) :
    2 ≤ n ∧ safe = standard.mode.put
      (standard.controlword.put (List.replicate n 0) Drive.Command.shutdown.bits) mode := by
  obtain ⟨hfit, -, hsafe⟩ := Layout.safeOutputs_eq_put h
  unfold Layout.commanded at hsafe
  rw [clearOutputs_zeros] at hsafe
  rw [List.length_replicate] at hfit
  exact ⟨hfit.2, hsafe⟩

/-- Safe outputs are idle where all was zero. -/
theorem idle_safeOutputs {n : Nat} {safe : Bytes}
    (h : standard.safeOutputs (List.replicate n 0) OperationMode.torqueProfile.raw
      = (safe, .ok ())) : safe.length = n ∧ Idle safe := by
  obtain ⟨hn, rfl⟩ := safeOutputs_zeros h
  refine ⟨by simp, idle_iff.2 ⟨by simpa using hn, .shutdown, fun i hi => ?_⟩⟩
  rw [Field.length_put, Field.length_put, List.length_replicate] at hi
  rw [getElem?_put_mode, Field.length_put, getElem?_put_controlword, List.length_replicate,
    List.getElem?_replicate, if_pos hi]
  by_cases hcommand : i < 2
  · rw [if_neg (by omega), if_pos (by omega)]
    exact getElem?_command hcommand
  by_cases hmode : i = 2
  · subst hmode
    rw [if_pos (by omega), idleHead_eq]
    rfl
  · rw [if_neg (by omega), if_neg (by omega), idleHead_getD_of_three_le (by omega)]

end Servo
