/-
Fields as lenses: what is written is read back, writing back what was read changes
nothing, and writes to different bytes can be made in either order.

A field refuses an image for one of two reasons, and both lie in the bounds: it does
not lie inside the image, or it is shorter than its type (`refusal?`). Writing fails
for these reasons and no other, whatever is written (`set_eq_error_iff`), so a second
write does not decide over the first. Reading fails for them too, and beside them only
where the bytes are no value of the type (`get_eq_badSize_iff`).

The bounds are those of the true sum of offset and length. The machine's sum wraps
around, but a field for which it does ends before it begins, and is refused as well
(`fits_iff`).

# Which types

The laws hold of any lawful type whose words are never refused for a size
(`isLens`). The types whose values are exchanged are listed once (`Packed.OfEach`), and
all of them are of that kind (`Packed.ofEach`).
-/
import Servo.Proofs.Field
import Servo.Pdo

namespace Servo

-- ===================================================== exchanged types

namespace Packed

/-- A property of each type whose values are exchanged. -/
def OfEach (P : (α : Type) → [Packed α] → Prop) : Prop :=
  P UInt8 ∧ P UInt16 ∧ P UInt32 ∧ P Int8 ∧ P Int16 ∧ P Int32
    ∧ P StatusWord ∧ P ControlWord ∧ P Pdo.Entry ∧ P OperationMode

/-- A word may be no value of the type, but its size is not what is wrong with it. -/
def WordsFit (α : Type) [Packed α] : Prop :=
  ∀ (n size : Nat) (text : String), (ofWord n : Except PackingError α) ≠ .error (.badSize size text)

theorem wordsFit_of_total {α : Type} [Packed α]
    (h : ∀ n, ∃ v : α, (ofWord n : Except PackingError α) = .ok v) : WordsFit α := by
  intro n size text hbad
  obtain ⟨v, hv⟩ := h n
  cases hv.symm.trans hbad

/-- Only a mode can be missing for a word. -/
theorem wordsFit_operationMode : WordsFit OperationMode := by
  intro n size text hbad
  simp only [ofWord] at hbad
  split at hbad
  next => cases hbad
  next => cases hbad

theorem ofEach {P : (α : Type) → [Packed α] → Prop}
    (h : ∀ (α : Type) [Packed α] [LawfulPacked α], WordsFit α → P α) : OfEach P := by
  refine ⟨h _ ?_, h _ ?_, h _ ?_, h _ ?_, h _ ?_, h _ ?_, h _ ?_, h _ ?_, h _ ?_,
    h _ wordsFit_operationMode⟩
  all_goals exact wordsFit_of_total fun _ => ⟨_, rfl⟩

end Packed

-- =============================================================== splices

/-- A run that is replaced by itself. -/
theorem Bytes.splice_window_self {bytes : Bytes} {start len : Nat}
    (h : start + len ≤ bytes.length) :
    splice bytes start (window bytes start len) = bytes := by
  have hlength := length_window h
  apply List.ext_getElem?
  intro i
  rw [getElem?_splice (by rw [hlength]; exact h), hlength]
  split
  next hin =>
    unfold window
    rw [List.getElem?_take_of_lt (by omega), List.getElem?_drop]
    congr 1
    omega
  next => rfl

namespace Field

variable {α β : Type} [Packed α] [Packed β] {f : Field α} {g : Field β}
  {image image' written : Bytes} {v : α} {w : β} {e : PackingError}

-- ================================================================ bounds

omit [Packed α] in
/-- In an image that a machine can hold, fitting is a matter of the true sum. -/
theorem fits_iff {length : Nat} (h : length < UInt64.size) :
    f.Fits length ↔ f.byte.toNat + f.len.toNat ≤ length := by
  refine ⟨Fits.le, fun hle => ?_⟩
  have hends := Nat.lt_of_le_of_lt hle h
  refine ⟨le_stop_iff.2 hends, ?_⟩
  rw [toNat_stop hends]
  exact hle

theorem exists_set_iff : (∃ written, f.set image v = .ok written) ↔ f.HasRoom image := by
  constructor
  · intro h
    obtain ⟨written, hset⟩ := h
    exact hasRoom_of_set hset
  · intro h
    exact ⟨_, set_eq_put h.1 h.2 v⟩

/-- What is wrong with the bounds of the field in an image of this length, if anything. -/
def refusal? (f : Field α) (length : Nat) : Option PackingError :=
  if f.Fits length then
    if f.Wide then none else some (.tooShort f.len.toNat)
  else some (.outOfBounds length)

/-- Writing fails for what is wrong with the bounds, and for nothing else. -/
theorem set_eq_error_iff : f.set image v = .error e ↔ f.refusal? image.length = some e := by
  unfold refusal?
  by_cases hfit : f.Fits image.length
  · rw [if_pos hfit]
    by_cases hwide : f.Wide
    · rw [if_pos hwide, set_eq_put hfit hwide v]
      exact ⟨nofun, nofun⟩
    · have hshort : f.len.toNat < Packed.size α := Nat.not_le.1 hwide
      unfold set Packed.pack
      rw [if_neg hwide, if_pos hfit, Bytes.length_window hfit.le, if_pos hshort]
      exact ⟨fun h => congrArg some (Except.error.inj h),
        fun h => congrArg Except.error (Option.some.inj h)⟩
  · unfold set
    rw [if_neg hfit, if_neg hfit]
    exact ⟨fun h => congrArg some (Except.error.inj h),
      fun h => congrArg Except.error (Option.some.inj h)⟩

/-- Reading fails for it too, and for no other size. -/
theorem get_eq_badSize_iff (hwords : Packed.WordsFit α) :
    (∃ size text, e = .badSize size text) ∧ f.get image = .error e
      ↔ f.refusal? image.length = some e := by
  unfold refusal? get
  by_cases hfit : f.Fits image.length
  · unfold Packed.unpack
    rw [if_pos hfit, if_pos hfit, Bytes.length_window hfit.le]
    by_cases hwide : f.Wide
    · rw [if_pos hwide, if_neg (Nat.not_lt.2 hwide)]
      refine ⟨fun h => ?_, nofun⟩
      obtain ⟨⟨size, text, rfl⟩, hget⟩ := h
      exact absurd hget (hwords _ size text)
    · rw [if_neg hwide, if_pos (Nat.not_le.1 hwide)]
      constructor
      · intro h
        exact congrArg some (Except.error.inj h.2)
      · intro h
        cases h
        exact ⟨⟨_, _, rfl⟩, rfl⟩
  · rw [if_neg hfit, if_neg hfit]
    constructor
    · intro h
      exact congrArg some (Except.error.inj h.2)
    · intro h
      cases h
      exact ⟨⟨_, _, rfl⟩, rfl⟩

-- ================================================================ writes

/-- The bytes from which a value was read are those of the value. -/
theorem window_of_get [LawfulPacked α] (h : f.get image = .ok v) :
    f.HasRoom image ∧ Bytes.window image f.byte.toNat (Packed.size α) = Packed.bytes v := by
  have hwide := wide_of_get h
  have hfit : f.Fits image.length := by
    by_cases hfit : f.Fits image.length
    · exact hfit
    · unfold get at h
      rw [if_neg hfit] at h
      cases h
  refine ⟨⟨hfit, hwide⟩, ?_⟩
  have hle := hfit.le
  unfold Wide at hwide
  have hlength : (Bytes.window image f.byte.toNat (Packed.size α)).length = Packed.size α :=
    Bytes.length_window (by omega)
  have hlt := Bytes.toNat_lt (Bytes.window image f.byte.toNat (Packed.size α))
  have hencoded := Bytes.ofNat_toNat (Bytes.window image f.byte.toNat (Packed.size α))
  rw [hlength] at hlt hencoded
  rw [get_eq_ofWord hfit hwide] at h
  unfold Packed.bytes
  rw [LawfulPacked.word_of_ofWord hlt h, hencoded]

theorem set_of_get [LawfulPacked α] (h : f.get image = .ok v) : f.set image v = .ok image := by
  obtain ⟨⟨hfit, hwide⟩, hbytes⟩ := window_of_get h
  have hle := hfit.le
  refine set_eq_ok_iff.2 ⟨hfit, hwide, ?_⟩
  unfold Wide at hwide
  rw [← hbytes, Bytes.splice_window_self (by omega)]

/-- Values that take different bytes can be written in either order. -/
theorem put_put_comm (hapart : ∀ i, f.Takes i → ¬ g.Takes i) :
    g.put (f.put image v) w = f.put (g.put image w) v := by
  by_cases hf : f.Wide
  · by_cases hg : g.Wide
    · apply List.ext_getElem?
      intro i
      rw [getElem?_put hg, getElem?_put hf, getElem?_put hf, getElem?_put hg, length_put,
        length_put]
      by_cases hin : f.Fits image.length ∧ f.Takes i
      · have hout : ¬ (g.Fits image.length ∧ g.Takes i) := fun h => hapart i hin.2 h.2
        unfold Takes at hin hout
        rw [if_neg hout, if_pos hin, if_pos hin]
      · unfold Takes at hin
        rw [if_neg hin, if_neg hin]
    · rw [put_eq_of_not_wide hg, put_eq_of_not_wide hg]
  · rw [put_eq_of_not_wide hf, put_eq_of_not_wide hf]

-- ================================================================== laws

/-- The laws of a field. `put` is what becomes of an image by writing to it, whether or
not that succeeds. -/
structure IsLens (f : Field α) : Prop where
  /-- A value can be written exactly where there is room for it. No image has as many
  bytes as there are offsets. -/
  settable (image : Bytes) (v : α) : image.length < UInt64.size →
    ((∃ written, f.set image v = .ok written)
      ↔ f.byte.toNat + f.len.toNat ≤ image.length ∧ Packed.size α ≤ f.len.toNat)
  /-- It is then read back, -/
  get_set {image written : Bytes} {v : α} : f.set image v = .ok written → f.get written = .ok v
  /-- and it is all that has changed. -/
  kept {image written : Bytes} {v : α} : f.set image v = .ok written →
    written = f.put image v ∧ written.length = image.length
      ∧ ∀ i, i < f.byte.toNat ∨ f.byte.toNat + Packed.size α ≤ i → written[i]? = image[i]?
  /-- A value that cannot be written changes nothing. -/
  put_of_error {image : Bytes} {v : α} {e : PackingError} :
    f.set image v = .error e → f.put image v = image
  /-- Writing fails for a size, and where it does reading fails for the same. -/
  refused {image : Bytes} {v : α} {e : PackingError} :
    f.set image v = .error e ↔ (∃ size text, e = .badSize size text) ∧ f.get image = .error e
  /-- Writing back what was read changes nothing. -/
  set_get {image : Bytes} {v : α} : f.get image = .ok v → f.set image v = .ok image
  /-- Of two writes that share no byte neither undoes the other, whichever is first, -/
  comm {β : Type} [Packed β] (g : Field β) (image : Bytes) (v : α) (w : β) :
    f.byte.toNat + Packed.size α ≤ g.byte.toNat ∨ g.byte.toNat + Packed.size β ≤ f.byte.toNat →
      g.put (f.put image v) w = f.put (g.put image w) v
  /-- and neither decides whether the other succeeds. -/
  comm_error {β : Type} [Packed β] (g : Field β) (image : Bytes) (v : α) (w : β)
    (e : PackingError) : f.set (g.put image w) v = .error e ↔ f.set image v = .error e

/-- Fields of lawful types are lenses. -/
theorem isLens [LawfulPacked α] (hwords : Packed.WordsFit α) (f : Field α) : f.IsLens where
  settable image v himage := by
    rw [exists_set_iff, ← fits_iff himage]
    exact Iff.rfl
  get_set {image _ v} hset := by
    obtain ⟨hfit, hwide⟩ := hasRoom_of_set hset
    rw [← put_eq_of_set hset]
    exact get_put_self hfit hwide
  kept {image _ v} hset := by
    rw [← put_eq_of_set hset]
    refine ⟨rfl, length_put .., fun i hi => getElem?_put_of_not_takes ?_ v⟩
    unfold Takes
    omega
  put_of_error := put_eq_of_set_error
  refused {_ _ _} := by rw [set_eq_error_iff, get_eq_badSize_iff hwords]
  set_get := set_of_get
  comm g image v w hapart := by
    refine put_put_comm fun i hf hg => ?_
    unfold Takes at hf hg
    omega
  comm_error g image v w e := by rw [set_eq_error_iff, set_eq_error_iff, length_put]

/-- Whatever is exchanged, its fields are lenses. -/
theorem ofEach_isLens : Packed.OfEach fun α _ => ∀ f : Field α, f.IsLens :=
  Packed.ofEach fun _ => isLens

/-- A field that wraps around is in no image, although it would end at its second byte. -/
example : (⟨0xffffffffffffffff, 3⟩ : Field Int16).set [0, 0, 0, 0] 7
    = .error (.outOfBounds 4) := rfl

end Field

end Servo
