/-
The laws of fields: what is written is read back, and nothing else changes.

Two things keep a write from doing what it says. A field may not fit the image,
and a field may be shorter than the type it stands for; `set_eq_ok_iff` says
that nothing else does, and what the image is then. A field that is at least as
long as its type is `Wide`, and two fields that share no byte are `Apart`. Both
are said of the true sum of offset and length, not of the one that wraps.

`Layout.Sound` collects what a layout owes its drive: output fields that are
wide and pairwise apart. Reading one of them after writing another is then
reading the image from before (`get_put_of_apart`).
-/
import Servo.Layout

namespace Servo

-- ============================================== runs inside a string

namespace Bytes

variable {bytes new : Bytes} {start len : Nat}

/-- A replaced run and what was there around it, byte by byte. -/
theorem getElem?_splice (h : start + new.length ≤ bytes.length) (i : Nat) :
    (splice bytes start new)[i]?
      = if start ≤ i ∧ i < start + new.length then new[i - start]? else bytes[i]? := by
  have hlen : (bytes.take start).length = start := by
    rw [List.length_take]
    omega
  unfold splice
  rcases Nat.lt_or_ge i start with hi | hi
  · rw [if_neg (by omega), List.append_assoc, List.getElem?_append_left (by omega),
      List.getElem?_take_of_lt hi]
  · rw [List.append_assoc, List.getElem?_append_right (by omega), hlen]
    rcases Nat.lt_or_ge i (start + new.length) with hn | hn
    · rw [if_pos ⟨hi, hn⟩, List.getElem?_append_left (by omega)]
    · rw [if_neg (by omega), List.getElem?_append_right (by omega), List.getElem?_drop]
      congr 1
      omega

/-- Writing a run that begins another one is writing it alone. -/
theorem splice_splice_window (hlen : start + len ≤ bytes.length) (hnew : new.length ≤ len) :
    splice bytes start (splice (window bytes start len) 0 new) = splice bytes start new := by
  have hin : splice (window bytes start len) 0 new
      = new ++ (window bytes start len).drop new.length := by
    unfold splice
    rw [List.take_zero, List.nil_append, Nat.zero_add]
  have hw : (new ++ (window bytes start len).drop new.length).length = len := by
    rw [List.length_append, List.length_drop, length_window hlen]
    omega
  have htail : (window bytes start len).drop new.length ++ bytes.drop (start + len)
      = bytes.drop (start + new.length) := by
    have hd : bytes.drop (start + len)
        = (bytes.drop (start + new.length)).drop (len - new.length) := by
      rw [List.drop_drop]
      congr 1
      omega
    unfold window
    rw [List.drop_take, List.drop_drop, hd, List.take_append_drop]
  rw [hin]
  unfold splice
  rw [hw, ← htail, List.append_assoc, List.append_assoc, List.append_assoc]

/-- Runs that agree byte by byte are the same. -/
theorem window_congr {bytes' : Bytes}
    (h : ∀ i, start ≤ i → i < start + len → bytes[i]? = bytes'[i]?) :
    window bytes start len = window bytes' start len := by
  apply List.ext_getElem?
  intro i
  unfold window
  rcases Nat.lt_or_ge i len with hi | hi
  · rw [List.getElem?_take_of_lt hi, List.getElem?_take_of_lt hi, List.getElem?_drop,
      List.getElem?_drop]
    exact h (start + i) (Nat.le_add_right ..) (by omega)
  · rw [List.getElem?_take_eq_none hi, List.getElem?_take_eq_none hi]

/-- A run that shares no byte with the replaced one reads as before. -/
theorem window_splice_of_apart {start' len' : Nat} (h : start + new.length ≤ bytes.length)
    (hd : start + new.length ≤ start' ∨ start' + len' ≤ start) :
    window (splice bytes start new) start' len' = window bytes start' len' := by
  apply window_congr
  intro i hfrom hto
  rw [getElem?_splice h, if_neg (by omega)]

end Bytes

/-- A value is read back from its bytes. -/
theorem Packed.ofWord_bytes {α : Type} [Packed α] [LawfulPacked α] (v : α) :
    Packed.ofWord (Bytes.toNat (Packed.bytes v)) = .ok v := by
  unfold Packed.bytes
  rw [Bytes.toNat_ofNat (LawfulPacked.word_lt v)]
  exact LawfulPacked.ofWord_word v

-- ============================================================== fields

namespace Field

variable {α β : Type} [Packed α] [Packed β] {f : Field α} {g : Field β} {image written : Bytes}

/-- The field is long enough for the values of its type. -/
def Wide (f : Field α) : Prop := Packed.size α ≤ f.len.toNat

instance (f : Field α) : Decidable f.Wide := inferInstanceAs (Decidable (_ ≤ _))

omit [Packed α] in
/-- A field that fits an image lies there without wrapping around. -/
theorem Fits.le {length : Nat} (h : f.Fits length) :
    f.byte.toNat + f.len.toNat ≤ length := by
  obtain ⟨hle, hfit⟩ := h
  unfold stop at hle hfit
  rw [UInt64.le_iff_toNat_le, UInt64.toNat_add] at hle
  rw [UInt64.toNat_add] at hfit
  have hb : f.byte.toNat < 2 ^ 64 := f.byte.toNat_lt
  have hl : f.len.toNat < 2 ^ 64 := f.len.toNat_lt
  omega

omit [Packed α] in
/-- The offsets of a field wrap around, or its stop is where it ends. -/
theorem le_stop_iff : f.byte ≤ f.stop ↔ f.byte.toNat + f.len.toNat < UInt64.size := by
  constructor
  · intro h
    exact Nat.lt_of_le_of_lt (Fits.le ⟨h, Nat.le_refl _⟩) f.stop.toNat_lt
  · intro h
    unfold stop
    rw [UInt64.le_iff_toNat_le, UInt64.toNat_add, Nat.mod_eq_of_lt h]
    exact Nat.le_add_right ..

omit [Packed α] in
theorem toNat_stop (h : f.byte.toNat + f.len.toNat < UInt64.size) :
    f.stop.toNat = f.byte.toNat + f.len.toNat := by
  unfold stop
  rw [UInt64.toNat_add, Nat.mod_eq_of_lt h]

/-- When a value can be written, and the image with it. -/
theorem set_eq_ok_iff {v : α} :
    f.set image v = .ok written
      ↔ f.Fits image.length ∧ f.Wide
        ∧ written = Bytes.splice image f.byte.toNat (Packed.bytes v) := by
  unfold set
  by_cases hfit : f.Fits image.length
  · rw [if_pos hfit]
    have hlen := Bytes.length_window hfit.le
    unfold Packed.pack
    rw [hlen]
    by_cases hw : Packed.size α ≤ f.len.toNat
    · rw [if_neg (Nat.not_lt.2 hw)]
      have hs := Bytes.splice_splice_window hfit.le
        (show (Packed.bytes v).length ≤ f.len.toNat by rw [Packed.length_bytes]; exact hw)
      constructor
      · intro h
        cases h
        exact ⟨hfit, hw, hs⟩
      · intro h
        obtain ⟨-, -, rfl⟩ := h
        exact congrArg Except.ok hs
    · rw [if_pos (Nat.not_le.1 hw)]
      constructor
      · intro h
        cases h
      · intro h
        obtain ⟨-, hwide, -⟩ := h
        exact absurd hwide hw
  · rw [if_neg hfit]
    constructor
    · intro h
      cases h
    · intro h
      obtain ⟨h, -, -⟩ := h
      exact absurd h hfit

/-- The image has room for any value of the field. -/
def HasRoom (f : Field α) (image : Bytes) : Prop := f.Fits image.length ∧ f.Wide

instance (f : Field α) (image : Bytes) : Decidable (f.HasRoom image) :=
  inferInstanceAs (Decidable (_ ∧ _))

theorem hasRoom_of_set {v : α} (h : f.set image v = .ok written) : f.HasRoom image :=
  ⟨(set_eq_ok_iff.1 h).1, (set_eq_ok_iff.1 h).2.1⟩

theorem not_hasRoom_of_set_error {v : α} {e : PackingError} (h : f.set image v = .error e) :
    ¬ f.HasRoom image := by
  intro hroom
  rw [set_eq_ok_iff.2 ⟨hroom.1, hroom.2, rfl⟩] at h
  cases h

/-- Writing where it fits does what writing does when it succeeds. -/
theorem put_eq_of_set {v : α} (h : f.set image v = .ok written) : f.put image v = written := by
  unfold put
  rw [h]

theorem set_eq_put (hfit : f.Fits image.length) (hwide : f.Wide) (v : α) :
    f.set image v = .ok (f.put image v) := by
  have hset := (set_eq_ok_iff (v := v)).2 ⟨hfit, hwide, rfl⟩
  rw [put_eq_of_set hset, hset]

/-- What cannot be written leaves the image as it is. -/
theorem put_eq_of_set_error {v : α} {e : PackingError} (h : f.set image v = .error e) :
    f.put image v = image := by
  unfold put
  rw [h]

theorem put_eq_of_not_fits {v : α} (h : ¬ f.Fits image.length) : f.put image v = image := by
  unfold put set
  rw [if_neg h]

/-- Writing where it fits keeps the length of the image. -/
@[simp] theorem length_put (f : Field α) (image : Bytes) (v : α) :
    (f.put image v).length = image.length := by
  cases h : f.set image v with
  | error e => rw [put_eq_of_set_error h]
  | ok written =>
    obtain ⟨hfit, hwide, hw⟩ := set_eq_ok_iff.1 h
    have hle := hfit.le
    unfold Wide at hwide
    rw [put_eq_of_set h, hw, Bytes.length_splice]
    rw [Packed.length_bytes]
    omega

/-- Writing keeps the room there is for this field and for others. -/
@[simp] theorem hasRoom_put {v : β} : f.HasRoom (g.put image v) ↔ f.HasRoom image := by
  unfold HasRoom
  rw [length_put]

/-- The bytes of an image after writing a value where it fits. -/
theorem getElem?_put (hwide : f.Wide) (v : α) (i : Nat) :
    (f.put image v)[i]?
      = if f.Fits image.length ∧ f.byte.toNat ≤ i ∧ i < f.byte.toNat + Packed.size α then
          (Packed.bytes v)[i - f.byte.toNat]?
        else image[i]? := by
  by_cases hfit : f.Fits image.length
  · have hset := (set_eq_ok_iff (v := v)).2 ⟨hfit, hwide, rfl⟩
    have hle := hfit.le
    unfold Wide at hwide
    have hnew : f.byte.toNat + (Packed.bytes v).length ≤ image.length := by
      rw [Packed.length_bytes]
      omega
    rw [put_eq_of_set hset, Bytes.getElem?_splice hnew, Packed.length_bytes]
    simp only [hfit, true_and]
  · rw [if_neg fun h => hfit h.1, put_eq_of_not_fits hfit]

/-- The bytes that a value of the field takes. The rest of a longer field is never
touched. -/
def Takes (f : Field α) (i : Nat) : Prop :=
  f.byte.toNat ≤ i ∧ i < f.byte.toNat + Packed.size α

theorem getElem?_put_of_not_takes {i : Nat} (hi : ¬ f.Takes i) (v : α) :
    (f.put image v)[i]? = image[i]? := by
  cases hset : f.set image v with
  | error e => rw [put_eq_of_set_error hset]
  | ok written =>
    rw [getElem?_put (hasRoom_of_set hset).2]
    exact if_neg fun hin => hi hin.2

/-- A written value is read back. -/
theorem get_put_self [LawfulPacked α] {v : α} (hfit : f.Fits image.length) (hwide : f.Wide) :
    f.get (f.put image v) = .ok v := by
  have hset := (set_eq_ok_iff (v := v)).2 ⟨hfit, hwide, rfl⟩
  have hle := hfit.le
  unfold get
  rw [length_put, if_pos hfit, put_eq_of_set hset]
  -- the field may be longer than its type: the value is at the head of the window
  have hsplit : Bytes.window (Bytes.splice image f.byte.toNat (Packed.bytes v)) f.byte.toNat
      f.len.toNat
      = Packed.bytes v ++ (image.drop (f.byte.toNat + Packed.size α)).take
          (f.len.toNat - Packed.size α) := by
    have htake : (image.take f.byte.toNat).length = f.byte.toNat := by
      rw [List.length_take]
      omega
    unfold Bytes.window Bytes.splice
    rw [List.append_assoc, List.drop_append, htake, Nat.sub_self,
      List.drop_of_length_le (Nat.le_of_eq htake), List.nil_append, List.drop_zero,
      List.take_append, Packed.length_bytes]
    congr 1
    exact List.take_of_length_le (by rw [Packed.length_bytes]; exact hwide)
  rw [hsplit]
  exact Packed.unpack_bytes v _

theorem wide_of_get {v : α}
    (h : f.get image = .ok v) : f.Wide := by
  unfold get at h
  split at h
  next hfit =>
    unfold Packed.unpack at h
    split at h
    next => cases h
    next hlong =>
      rw [Bytes.length_window hfit.le] at hlong
      exact Nat.not_lt.1 hlong
  next => cases h

/-- A field reads the first bytes of its window, as many as its type takes. -/
theorem get_eq_ofWord (hfit : f.Fits image.length) (hwide : f.Wide) :
    f.get image
      = Packed.ofWord (Bytes.toNat (Bytes.window image f.byte.toNat (Packed.size α))) := by
  have hlength := Bytes.length_window hfit.le
  have hhead : (Bytes.window image f.byte.toNat f.len.toNat).take (Packed.size α)
      = Bytes.window image f.byte.toNat (Packed.size α) := by
    unfold Bytes.window
    rw [List.take_take, Nat.min_eq_left hwide]
  unfold get Packed.unpack
  rw [if_pos hfit, hlength, if_neg (Nat.not_lt.2 hwide), hhead]

/-- The two fields share no byte. -/
def Apart (f : Field α) (g : Field β) : Prop :=
  f.byte.toNat + f.len.toNat ≤ g.byte.toNat ∨ g.byte.toNat + g.len.toNat ≤ f.byte.toNat

instance (f : Field α) (g : Field β) : Decidable (f.Apart g) :=
  inferInstanceAs (Decidable (_ ∨ _))

/-- Writing one field leaves what another one reads. -/
theorem get_put_of_apart (h : f.Apart g) (v : α) : g.get (f.put image v) = g.get image := by
  cases hs : f.set image v with
  | error e => rw [put_eq_of_set_error hs]
  | ok written =>
    obtain ⟨hfit, hwide, rfl⟩ := set_eq_ok_iff.1 hs
    have hle := hfit.le
    unfold Wide at hwide
    unfold get
    rw [length_put, put_eq_of_set hs, Bytes.window_splice_of_apart]
    · rw [Packed.length_bytes]
      omega
    · unfold Apart at h
      rw [Packed.length_bytes]
      omega

-- =================================================== outside a field

/-- Two images differ in the bytes of a field at most. -/
structure AgreeOutside (f : Field α) (image image' : Bytes) : Prop where
  length : image'.length = image.length
  bytes : ∀ i, i < f.byte.toNat ∨ f.byte.toNat + f.len.toNat ≤ i → image'[i]? = image[i]?

omit [Packed α] in
theorem AgreeOutside.refl (f : Field α) (image : Bytes) : f.AgreeOutside image image :=
  ⟨rfl, fun _ _ => rfl⟩

theorem put_eq_of_not_wide {v : α} (h : ¬ f.Wide) : f.put image v = image := by
  cases hset : f.set image v with
  | error e => exact put_eq_of_set_error hset
  | ok written => exact absurd (set_eq_ok_iff.1 hset).2.1 h

variable {image' : Bytes}

omit [Packed α] in
/-- What is written to both of them, they agree on, wherever it lies. -/
theorem AgreeOutside.put (h : f.AgreeOutside image image') (g : Field β) (v : β) :
    f.AgreeOutside (g.put image v) (g.put image' v) := by
  by_cases hwide : g.Wide
  · refine ⟨by rw [length_put, length_put, h.length], fun i hi => ?_⟩
    rw [getElem?_put hwide, getElem?_put hwide, h.length, h.bytes i hi]
  · rw [put_eq_of_not_wide hwide, put_eq_of_not_wide hwide]
    exact h

/-- What is written to the field itself need not be the same. -/
theorem AgreeOutside.put_self (h : f.AgreeOutside image image') (v v' : α) :
    f.AgreeOutside (f.put image v) (f.put image' v') := by
  by_cases hwide : f.Wide
  · refine ⟨by rw [length_put, length_put, h.length], fun i hi => ?_⟩
    have hout : ¬ (f.byte.toNat ≤ i ∧ i < f.byte.toNat + Packed.size α) := by
      unfold Wide at hwide
      omega
    rw [getElem?_put hwide, getElem?_put hwide, if_neg fun hin => hout hin.2,
      if_neg fun hin => hout hin.2]
    exact h.bytes i hi
  · rw [put_eq_of_not_wide hwide, put_eq_of_not_wide hwide]
    exact h

omit [Packed α] in
/-- A field apart from it reads the same. -/
theorem AgreeOutside.get (h : f.AgreeOutside image image') (hapart : g.Apart f) :
    g.get image' = g.get image := by
  have hwindow : Bytes.window image' g.byte.toNat g.len.toNat
      = Bytes.window image g.byte.toNat g.len.toNat := by
    refine Bytes.window_congr fun i hfrom hto => h.bytes i ?_
    unfold Apart at hapart
    omega
  unfold Field.get
  rw [h.length, hwindow]

end Field

-- ============================================================= layouts

/-- The output fields of a layout can be written one without the other: each is
long enough for its type, and no two share a byte. -/
structure Layout.Sound (l : Layout) : Prop where
  wide : l.controlword.Wide ∧ l.mode.Wide ∧ l.targetTorque.Wide ∧ l.targetPosition.Wide
  controlword_apart : l.controlword.Apart l.mode ∧ l.controlword.Apart l.targetTorque
    ∧ l.controlword.Apart l.targetPosition
  mode_apart : l.mode.Apart l.targetTorque ∧ l.mode.Apart l.targetPosition
  torque_apart : l.targetTorque.Apart l.targetPosition

/-- The layout of the default mappings is sound. -/
theorem Layout.standard_sound : Layout.standard.Sound := by
  constructor <;> decide

end Servo
