/-
What safe outputs hold.

`Layout.safeOutputs` clears what the fields reach, puts the command there, and the
mode. Where the command and the mode are apart, none of the three undoes another, and
every byte of an image that was made safe is known (`MadeSafe`): there are a shutdown
command, the mode as far as there is room for it, and zeros wherever else the layout
reaches, whatever the image held before. `safeOutputs_bytes` says so, with the only
reason for which an image cannot be made safe, and what becomes of it then.

In a sound layout the fields that move the motor are among the zeros
(`safe_safeOutputs`).
-/
import Servo.Proofs.Field

namespace Servo.Layout

variable {l : Layout} {outputs safe : Bytes} {mode : Int8}

-- ============================================================ clearing

/-- No output field reaches further than the layout. -/
theorem stop_le_outputLen (l : Layout) :
    l.controlword.stop ≤ l.outputLen ∧ l.mode.stop ≤ l.outputLen
      ∧ l.targetTorque.stop ≤ l.outputLen ∧ l.targetPosition.stop ≤ l.outputLen := by
  have hleft (a b : UInt64) : a ≤ max a b := by
    show a ≤ if a ≤ b then b else a
    split
    next h => exact h
    next => exact UInt64.le_refl a
  have hright (a b : UInt64) : b ≤ max a b := by
    show b ≤ if a ≤ b then b else a
    split
    next => exact UInt64.le_refl b
    next h => exact UInt64.le_of_lt (UInt64.not_le.1 h)
  unfold outputLen
  simp only [List.foldl_cons, List.foldl_nil]
  refine ⟨?_, ?_, UInt64.le_trans (hright _ _) (hleft _ _), hright _ _⟩
  · refine UInt64.le_trans ?_ (hleft _ _)
    exact UInt64.le_trans (hright _ _) (UInt64.le_trans (hleft _ _) (hleft _ _))
  · exact UInt64.le_trans (hright _ _) (UInt64.le_trans (hleft _ _) (hleft _ _))

@[simp] theorem length_clearOutputs (l : Layout) (outputs : Bytes) :
    (l.clearOutputs outputs).length = outputs.length := by
  unfold clearOutputs
  rw [List.length_append, List.length_replicate, List.length_drop]
  omega

theorem getElem?_clearOutputs {i : Nat} (hreached : i < l.outputLen.toNat)
    (hi : i < outputs.length) : (l.clearOutputs outputs)[i]? = some 0 := by
  unfold clearOutputs
  rw [List.getElem?_append_left (by rw [List.length_replicate]; omega),
    List.getElem?_replicate_of_lt (by omega)]

/-- What lies behind the layout is not cleared. -/
theorem getElem?_clearOutputs_behind {i : Nat} (hbehind : l.outputLen.toNat ≤ i) :
    (l.clearOutputs outputs)[i]? = outputs[i]? := by
  have hreached : min l.outputLen.toNat outputs.length ≤ i :=
    Nat.le_trans (Nat.min_le_left ..) hbehind
  unfold clearOutputs
  rw [List.getElem?_append_right (by rw [List.length_replicate]; exact hreached),
    List.length_replicate, List.getElem?_drop, Nat.add_sub_of_le hreached]

/-- A field that the layout reaches reads the value of no bit. -/
theorem get_clearOutputs {α : Type} [Packed α] {f : Field α} (hreached : f.stop ≤ l.outputLen)
    (hfit : f.Fits outputs.length) (hwide : f.Wide) :
    f.get (l.clearOutputs outputs) = Packed.ofWord 0 := by
  have hle := hfit.le
  have hstop : f.byte.toNat + f.len.toNat ≤ l.outputLen.toNat := by
    exact Nat.le_trans (Field.Fits.le ⟨hfit.1, Nat.le_refl _⟩) hreached
  have hzeros : Bytes.window (l.clearOutputs outputs) f.byte.toNat (Packed.size α)
      = List.replicate (Packed.size α) 0 := by
    unfold Field.Wide at hwide
    have hlength : (Bytes.window (l.clearOutputs outputs) f.byte.toNat (Packed.size α)).length
        = Packed.size α := Bytes.length_window (by rw [length_clearOutputs]; omega)
    refine List.eq_replicate_iff.2 ⟨hlength, fun b hb => ?_⟩
    obtain ⟨i, hi⟩ := List.mem_iff_getElem?.1 hb
    have hlt : i < Packed.size α := hlength ▸ (List.getElem?_eq_some_iff.1 hi).1
    unfold Bytes.window at hi
    rw [List.getElem?_take_of_lt hlt, List.getElem?_drop,
      getElem?_clearOutputs (by omega) (by omega)] at hi
    exact (Option.some.inj hi).symm
  rw [Field.get_eq_ofWord (by rw [length_clearOutputs]; exact hfit) hwide, hzeros,
    Bytes.toNat_zeros]

-- ======================================================== safe outputs

/-- The outputs cannot move the motor: they shut the drive down, in this mode, and ask
for no torque and no position, as far as the image has room for that. -/
structure Safe (l : Layout) (mode : Int8) (outputs : Bytes) : Prop where
  controlword : l.controlword.get outputs = .ok Drive.Command.shutdown.bits
  mode : l.mode.Fits outputs.length → l.mode.get outputs = .ok mode
  torque : l.targetTorque.Fits outputs.length → l.targetTorque.get outputs = .ok 0
  position : l.targetPosition.Fits outputs.length → l.targetPosition.get outputs = .ok 0

/-- The image with all of it cleared but the command and the mode, as far as there is room
for them. -/
def commanded (l : Layout) (outputs : Bytes) (mode : Int8) : Bytes :=
  l.mode.put (l.controlword.put (l.clearOutputs outputs) Drive.Command.shutdown.bits) mode

@[simp] theorem length_commanded : (l.commanded outputs mode).length = outputs.length := by
  unfold commanded
  rw [Field.length_put, Field.length_put, length_clearOutputs]

/-- An image is made safe by clearing it and putting the command and the mode there; the
command must fit. -/
theorem safeOutputs_eq_put (h : l.safeOutputs outputs mode = (safe, .ok ())) :
    l.controlword.Fits outputs.length ∧ l.controlword.Wide ∧ safe = l.commanded outputs mode := by
  unfold safeOutputs at h
  dsimp only at h
  cases hcommand : l.controlword.set (l.clearOutputs outputs) Drive.Command.shutdown.bits with
  | error e => simp [hcommand] at h
  | ok commanded =>
    obtain ⟨hfit, hwide, -⟩ := Field.set_eq_ok_iff.1 hcommand
    rw [length_clearOutputs] at hfit
    have hlength : commanded.length = outputs.length := by
      rw [← Field.put_eq_of_set hcommand, Field.length_put, length_clearOutputs]
    rw [hcommand] at h
    refine ⟨hfit, hwide, ?_⟩
    unfold Layout.commanded
    rw [Field.put_eq_of_set hcommand]
    dsimp only at h
    split at h
    next hroom =>
      cases hmode : l.mode.set commanded mode with
      | error e => simp [hmode] at h
      | ok complete =>
        rw [hmode] at h
        rw [Field.put_eq_of_set hmode]
        exact (congrArg Prod.fst h).symm
    next hroom =>
      rw [Field.put_eq_of_not_fits fun hmode => hroom (hlength ▸ hmode.2)]
      exact (congrArg Prod.fst h).symm

/-- The command and the mode can be written one without the other: each field is long
enough for its type, and they share no byte. The offsets of the mode do not wrap around. -/
structure CommandsApart (l : Layout) : Prop where
  controlword : l.controlword.Wide
  mode : l.mode.Wide
  ends : l.mode.byte.toNat + l.mode.len.toNat < UInt64.size
  apart : l.controlword.Apart l.mode

/-- An image without room for the command is cleared, and that is all. -/
theorem safeOutputs_eq (hl : l.CommandsApart) (outputs : Bytes) (mode : Int8) :
    l.safeOutputs outputs mode
      = if l.controlword.Fits outputs.length then (l.commanded outputs mode, .ok ())
        else (l.clearOutputs outputs, .error (.outOfBounds outputs.length)) := by
  have hfits : l.controlword.Fits (l.clearOutputs outputs).length
      ↔ l.controlword.Fits outputs.length := by
    rw [length_clearOutputs]
  by_cases hfit : l.controlword.Fits outputs.length
  · have hcommand := Field.set_eq_put (hfits.2 hfit) hl.controlword Drive.Command.shutdown.bits
    unfold safeOutputs commanded
    dsimp only
    rw [if_pos hfit, hcommand]
    dsimp only
    have hlength : (l.controlword.put (l.clearOutputs outputs) Drive.Command.shutdown.bits).length
        = outputs.length := by
      rw [Field.length_put, length_clearOutputs]
    split
    next hroom =>
      rw [Field.set_eq_put ⟨Field.le_stop_iff.2 hl.ends, by rw [hlength]; exact hroom⟩ hl.mode]
    next hroom => rw [Field.put_eq_of_not_fits fun hmode => hroom (hlength ▸ hmode.2)]
  · have hcommand : l.controlword.set (l.clearOutputs outputs) Drive.Command.shutdown.bits
        = .error (.outOfBounds (l.clearOutputs outputs).length) :=
      if_neg fun h => hfit (hfits.1 h)
    unfold safeOutputs
    dsimp only
    rw [if_neg hfit, hcommand, length_clearOutputs]

/-- An image with room for the command can be made safe. -/
theorem exists_safeOutputs_iff (hl : l.Sound) (hmode : l.mode.byte ≤ l.mode.stop) :
    (∃ safe, l.safeOutputs outputs mode = (safe, .ok ()))
      ↔ l.controlword.Fits outputs.length := by
  obtain ⟨hcontrolword, hwide, -, -⟩ := hl.wide
  rw [safeOutputs_eq ⟨hcontrolword, hwide, Field.le_stop_iff.1 hmode, hl.controlword_apart.1⟩]
  split
  next hfit => exact ⟨fun _ => hfit, fun _ => ⟨_, rfl⟩⟩
  next hfit =>
    refine ⟨fun h => ?_, fun h => absurd h hfit⟩
    obtain ⟨safe, hsafe⟩ := h
    cases (Prod.mk.inj hsafe).2

-- ========================================================== every byte

/-- What lies behind the layout is as it was. -/
structure KeepsRest (l : Layout) (outputs after : Bytes) : Prop where
  length : after.length = outputs.length
  behind : ∀ i, l.outputLen.toNat ≤ i → after[i]? = outputs[i]?

theorem keepsRest_clearOutputs (l : Layout) (outputs : Bytes) :
    l.KeepsRest outputs (l.clearOutputs outputs) :=
  ⟨length_clearOutputs .., fun _ => getElem?_clearOutputs_behind⟩

/-- A value that fits does not reach behind the layout. -/
theorem KeepsRest.put {α : Type} [Packed α] {f : Field α} {after : Bytes} {v : α}
    (h : l.KeepsRest outputs after) (hreached : f.stop ≤ l.outputLen) :
    l.KeepsRest outputs (f.put after v) := by
  refine ⟨(Field.length_put ..).trans h.length, fun i hi => ?_⟩
  rw [← h.behind i hi]
  cases hset : f.set after v with
  | error e => rw [Field.put_eq_of_set_error hset]
  | ok written =>
    obtain ⟨hfit, hwide⟩ := Field.hasRoom_of_set hset
    have hstop : f.byte.toNat + f.len.toNat ≤ f.stop.toNat :=
      Field.Fits.le ⟨hfit.1, Nat.le_refl _⟩
    have hlen : f.stop.toNat ≤ l.outputLen.toNat := hreached
    refine Field.getElem?_put_of_not_takes (fun htakes => ?_) v
    unfold Field.Wide at hwide
    unfold Field.Takes at htakes
    omega

theorem keepsRest_commanded : l.KeepsRest outputs (l.commanded outputs mode) := by
  obtain ⟨hcontrolword, hmode, -, -⟩ := l.stop_le_outputLen
  exact ((l.keepsRest_clearOutputs outputs).put hcontrolword).put hmode

/-- What an image holds that was made safe: the command, the mode if there is room for it,
and nothing else as far as the layout reaches. -/
structure MadeSafe (l : Layout) (mode : Int8) (safe : Bytes) : Prop where
  controlword : l.controlword.get safe = .ok Drive.Command.shutdown.bits
  mode : l.mode.Fits safe.length → l.mode.get safe = .ok mode
  others : ∀ i, i < l.outputLen.toNat → i < safe.length → ¬ l.controlword.Takes i →
    ¬ (l.mode.Fits safe.length ∧ l.mode.Takes i) → safe[i]? = some 0
  torque : l.targetTorque.HasRoom safe → l.controlword.Apart l.targetTorque →
    l.mode.Apart l.targetTorque → l.targetTorque.get safe = .ok 0
  position : l.targetPosition.HasRoom safe → l.controlword.Apart l.targetPosition →
    l.mode.Apart l.targetPosition → l.targetPosition.get safe = .ok 0

/-- A field that both of them leave alone reads the value of no bit. -/
theorem get_commanded {α : Type} [Packed α] {f : Field α} (hreached : f.stop ≤ l.outputLen)
    (hroom : f.HasRoom (l.commanded outputs mode)) (hcontrolword : l.controlword.Apart f)
    (hmode : l.mode.Apart f) : f.get (l.commanded outputs mode) = Packed.ofWord 0 := by
  obtain ⟨hfit, hwide⟩ := hroom
  rw [length_commanded] at hfit
  unfold commanded
  rw [Field.get_put_of_apart hmode, Field.get_put_of_apart hcontrolword]
  exact get_clearOutputs hreached hfit hwide

theorem madeSafe_commanded (hfit : l.controlword.Fits outputs.length)
    (hcontrolword : l.controlword.Wide) (hmode : l.mode.Wide)
    (hapart : l.controlword.Apart l.mode) : l.MadeSafe mode (l.commanded outputs mode) := by
  obtain ⟨-, -, htorque, hposition⟩ := l.stop_le_outputLen
  constructor
  case controlword =>
    unfold commanded
    rw [Field.get_put_of_apart hapart.symm]
    exact Field.get_put_self (by rw [length_clearOutputs]; exact hfit) hcontrolword
  case mode =>
    intro hroom
    rw [length_commanded] at hroom
    exact Field.get_put_self (by rw [Field.length_put, length_clearOutputs]; exact hroom) hmode
  case others =>
    intro i hreached hi hcommand hother
    rw [length_commanded] at hi hother
    have hzero := (Field.getElem?_put_of_not_takes hcommand Drive.Command.shutdown.bits).trans
      (getElem?_clearOutputs hreached hi)
    unfold commanded
    by_cases hroom : l.mode.Fits outputs.length
    · rw [Field.getElem?_put_of_not_takes (fun htakes => hother ⟨hroom, htakes⟩) mode]
      exact hzero
    · rw [Field.put_eq_of_not_fits (by rw [Field.length_put, length_clearOutputs]; exact hroom)]
      exact hzero
  case torque => exact fun hroom => get_commanded htorque hroom
  case position => exact fun hroom => get_commanded hposition hroom

/-- An image that was made safe is, whatever it held before. -/
theorem safe_safeOutputs (hl : l.Sound) (h : l.safeOutputs outputs mode = (safe, .ok ())) :
    l.Safe mode safe ∧ safe.length = outputs.length := by
  obtain ⟨hfit, -, rfl⟩ := safeOutputs_eq_put h
  obtain ⟨hcontrolword, hmode, htorque, hposition⟩ := hl.wide
  have hmade : l.MadeSafe mode (l.commanded outputs mode) :=
    madeSafe_commanded hfit hcontrolword hmode hl.controlword_apart.1
  refine ⟨?_, length_commanded⟩
  constructor
  case controlword => exact hmade.controlword
  case mode => exact hmade.mode
  case torque =>
    intro hroom
    exact hmade.torque ⟨hroom, htorque⟩ hl.controlword_apart.2.1 hl.mode_apart.1
  case position =>
    intro hroom
    exact hmade.position ⟨hroom, hposition⟩ hl.controlword_apart.2.2 hl.mode_apart.2

/-- An image can be made safe just if there is room for the command, and every byte of it is
known afterwards. If there is none, all that the layout reaches is zero; what lies behind
the layout is never touched. -/
theorem safeOutputs_bytes (hl : l.CommandsApart) (outputs : Bytes) (mode : Int8) :
    ((l.safeOutputs outputs mode).2 = .ok () ↔ l.controlword.Fits outputs.length)
      ∧ l.KeepsRest outputs (l.safeOutputs outputs mode).1
      ∧ ((l.safeOutputs outputs mode).2 = .ok () →
        l.MadeSafe mode (l.safeOutputs outputs mode).1)
      ∧ ((l.safeOutputs outputs mode).2 ≠ .ok () →
        ∀ i, i < l.outputLen.toNat → i < outputs.length →
          (l.safeOutputs outputs mode).1[i]? = some 0) := by
  rw [safeOutputs_eq hl]
  by_cases hfit : l.controlword.Fits outputs.length
  · rw [if_pos hfit]
    refine ⟨⟨fun _ => hfit, fun _ => rfl⟩, keepsRest_commanded, fun _ => ?_,
      fun hfailed => absurd rfl hfailed⟩
    exact madeSafe_commanded hfit hl.controlword hl.mode hl.apart
  · rw [if_neg hfit]
    exact ⟨⟨nofun, fun h => absurd h hfit⟩, l.keepsRest_clearOutputs outputs, nofun,
      fun _ _ => getElem?_clearOutputs⟩

/-- A layout with a gap at its head and a command field that is longer than a command, the
mode before it. -/
def gapped : Layout :=
  { Layout.standard with
    mode := .simple 1
    controlword := ⟨4, 3⟩
    targetTorque := .simple 8
    targetPosition := .simple 10 }

/-- An image that is longer than the layout, all of its bits set. -/
def dirty : Bytes := List.replicate 16 0xff

/-- It is made safe: the gap and the tail of the command are zero then, and so is the torque,
but not what lies behind the layout. -/
theorem safeOutputs_bytes_gapped :
    gapped.CommandsApart ∧ (gapped.safeOutputs dirty 4).2 = .ok ()
      ∧ gapped.controlword.get (gapped.safeOutputs dirty 4).1 = .ok 6
      ∧ gapped.mode.get (gapped.safeOutputs dirty 4).1 = .ok 4
      ∧ gapped.targetTorque.get (gapped.safeOutputs dirty 4).1 = .ok 0
      ∧ (gapped.safeOutputs dirty 4).1[0]? = some 0
      ∧ (gapped.safeOutputs dirty 4).1[6]? = some 0
      ∧ (gapped.safeOutputs dirty 4).1[15]? = some 0xff := by
  have hl : gapped.CommandsApart := ⟨by decide, by decide, by decide, by decide⟩
  obtain ⟨hresult, hrest, hsafe, -⟩ := safeOutputs_bytes hl dirty 4
  have hok := hresult.2 (by decide)
  have hmade := hsafe hok
  have hlength : (gapped.safeOutputs dirty 4).1.length = 16 := hrest.length
  refine ⟨hl, hok, hmade.controlword, hmade.mode ?_, hmade.torque ?_ (by decide) (by decide),
    ?_, ?_, hrest.behind 15 (by decide)⟩
  · rw [hlength]
    decide
  · refine ⟨?_, by decide⟩
    rw [hlength]
    decide
  · refine hmade.others 0 (by decide) (by rw [hlength]; decide) ?_ fun h => ?_
    · unfold Field.Takes
      decide
    · exact absurd h.2.1 (by decide)
  · refine hmade.others 6 (by decide) (by rw [hlength]; decide) ?_ fun h => ?_
    · unfold Field.Takes
      decide
    · exact absurd h.2.2 (by decide)

end Servo.Layout
