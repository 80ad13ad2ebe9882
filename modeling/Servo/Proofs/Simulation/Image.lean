/-
Where a simulated drive and a layout agree on the process image.

The drive walks along its mappings and finds each entry behind the one before it,
whereas the master looks for its fields at fixed offsets. The two meet where an
object is mapped once, at the offset of its field (`MapsOnce`): the drive then
takes from its outputs what the master wrote to the field (`word?_of_get`), and the
master reads from the inputs what the drive put there (`get_statusword`).
-/
import Servo.Proofs.Field
import Servo.Proofs.Simulation.Torque

namespace Servo

namespace Simulation.Slave

variable {mapping before after : List Pdo.Entry} {e e' : Pdo.Entry} {offset there length : Nat}
  {image : Bytes} {s : Slave}

-- ============================================================ mappings

/-- How many bytes the entries take, one behind the other. -/
def span : List Pdo.Entry → Nat
  | [] => 0
  | e :: rest => entryBytes e + span rest

/-- An object is mapped once, by an entry at this offset. -/
def MapsOnce (mapping : List Pdo.Entry) (e : Pdo.Entry) (offset : Nat) : Prop :=
  ∃ before after, mapping = before ++ e :: after ∧ span before = offset
    ∧ ∀ other ∈ before ++ after, other.index ≠ e.index

theorem place_append : place offset (before ++ after)
    = place offset before ++ place (offset + span before) after := by
  induction before generalizing offset with
  | nil => rfl
  | cons e rest ih =>
    rw [List.cons_append, place, ih, Nat.add_assoc]
    rfl

theorem mem_of_mem_place (h : (e, there) ∈ place offset mapping) : e ∈ mapping := by
  induction mapping generalizing offset with
  | nil => exact absurd h List.not_mem_nil
  | cons e' rest ih =>
    rcases List.mem_cons.1 h with heq | hrest
    · cases heq
      exact List.mem_cons_self
    · exact List.mem_cons_of_mem _ (ih hrest)

theorem MapsOnce.placed (h : MapsOnce mapping e offset) : (e, offset) ∈ place 0 mapping := by
  obtain ⟨before, after, rfl, rfl, -⟩ := h
  rw [place_append, Nat.zero_add]
  exact List.mem_append_right _ List.mem_cons_self

/-- There is no other place of the object. -/
theorem MapsOnce.offset_eq (h : MapsOnce mapping e offset) (hplaced : (e', there) ∈ place 0 mapping)
    (hindex : e'.index = e.index) : there = offset := by
  obtain ⟨before, after, rfl, rfl, hother⟩ := h
  rw [place_append, Nat.zero_add] at hplaced
  rcases List.mem_append.1 hplaced with hbefore | hplaced
  · exact absurd hindex (hother _ (List.mem_append_left _ (mem_of_mem_place hbefore)))
  · rcases List.mem_cons.1 hplaced with heq | hafter
    · cases heq
      rfl
    · exact absurd hindex (hother _ (List.mem_append_right _ (mem_of_mem_place hafter)))

-- ============================================================= outputs

/-- The drive finds a word that is mapped once at its place. -/
theorem MapsOnce.wordOffset? (h : MapsOnce mapping e offset) (hword : entryBytes e = 2)
    (hroom : offset + 2 ≤ length) : Slave.wordOffset? mapping e.index length = some offset := by
  cases hfound : Slave.wordOffset? mapping e.index length with
  | none =>
    unfold Slave.wordOffset? at hfound
    rw [List.getLast?_eq_none_iff, List.filterMap_eq_nil_iff] at hfound
    have hnone := hfound _ h.placed
    dsimp only at hnone
    rw [if_pos ⟨rfl, hword, hroom⟩] at hnone
    cases hnone
  | some there =>
    obtain ⟨-, e', hplaced, hindex⟩ := wordOffset?_mem hfound
    rw [h.offset_eq hplaced hindex]

/-- The drive takes what was written to the field at the place of its object. -/
theorem word?_of_get {f : Field UInt16} {v : UInt16} (hfit : f.Fits image.length)
    (hwide : f.Wide) (h : MapsOnce mapping e f.byte.toNat) (hword : entryBytes e = 2)
    (hget : f.get image = .ok v) : word? mapping e.index image = some v := by
  have hle := hfit.le
  have hsize : 2 ≤ f.len.toNat := hwide
  rw [Field.get_eq_ofWord hfit hwide] at hget
  rw [word?_eq, h.wordOffset? hword (by omega)]
  exact congrArg some (Except.ok.inj hget)

/-- Where the torque is mapped at its field, the drive takes the one written there, or
finds none at all. -/
theorem torque_of_get {f : Field Int16} (hfit : f.Fits image.length) (hwide : f.Wide)
    (h : ∀ e ∈ mapping, e.index = 0x6071 → MapsOnce mapping e f.byte.toNat)
    (hget : f.get image = .ok 0) :
    ((word? mapping 0x6071 image).map UInt16.toInt16).getD 0 = 0 := by
  rw [word?_eq]
  cases hfound : Slave.wordOffset? mapping 0x6071 image.length with
  | none => rfl
  | some there =>
    obtain ⟨-, e, hplaced, hindex⟩ := wordOffset?_mem hfound
    obtain rfl := (h e (mem_of_mem_place hplaced) hindex).offset_eq hplaced rfl
    rw [Field.get_eq_ofWord hfit hwide] at hget
    exact Except.ok.inj hget

/-- By default the control word is mapped where the layout has it. -/
theorem mapsOnce_controlword :
    MapsOnce Pdo.defaultReceive (.ofObject DataObject.Standard.controlword) 0 :=
  ⟨[], _, rfl, rfl, by decide⟩

/-- And so is the torque. -/
theorem mapsOnce_targetTorque (he : e ∈ Pdo.defaultReceive) (hindex : e.index = 0x6071) :
    MapsOnce Pdo.defaultReceive e 3 := by
  have honly : ∀ e ∈ Pdo.defaultReceive, e.index = 0x6071 →
      e = .ofObject DataObject.Standard.targetTorque := by
    decide
  rw [honly e he hindex]
  exact ⟨[_, _], [_], rfl, rfl, by decide⟩

-- ============================================================== inputs

@[simp] theorem length_writeEntry (placed : Pdo.Entry × Nat) :
    (s.writeEntry image placed).length = image.length := by
  unfold writeEntry
  dsimp only
  split
  next hroom =>
    apply Bytes.length_splice
    rw [List.length_take]
    omega
  next => rfl

theorem getElem?_writeEntry_of_lt {placed : Pdo.Entry × Nat} {i : Nat} (h : i < placed.2) :
    (s.writeEntry image placed)[i]? = image[i]? := by
  unfold writeEntry
  dsimp only
  split
  next hroom =>
    rw [Bytes.getElem?_splice (by rw [List.length_take]; omega), if_neg (by omega)]
  next => rfl

@[simp] theorem length_foldl_writeEntry (placed : List (Pdo.Entry × Nat)) :
    (placed.foldl s.writeEntry image).length = image.length := by
  induction placed generalizing image with
  | nil => rfl
  | cons first rest ih => rw [List.foldl_cons, ih, length_writeEntry]

/-- What is written of entries from some offset on leaves the bytes before it. -/
theorem getElem?_foldl_writeEntry {i : Nat} (h : i < offset) :
    ((place offset mapping).foldl s.writeEntry image)[i]? = image[i]? := by
  induction mapping generalizing offset image with
  | nil => rfl
  | cons e rest ih =>
    rw [place, List.foldl_cons, ih (Nat.lt_add_right _ h)]
    exact getElem?_writeEntry_of_lt h

theorem window_writeEntry_statusword (hindex : e.index = 0x6041) (hword : entryBytes e = 2)
    (hroom : offset + 2 ≤ image.length) :
    Bytes.window (s.writeEntry image (e, offset)) offset 2 = Packed.bytes s.statusword := by
  have hvalue : (s.valueBytes e).take 2 = Packed.bytes s.statusword := by
    unfold valueBytes
    rw [if_pos hindex]
    rfl
  unfold writeEntry
  dsimp only
  rw [hword, if_pos hroom, hvalue]
  exact Bytes.window_splice (by omega)

@[simp] theorem length_writeInputs (s : Slave) : s.writeInputs.inputs.length = s.inputs.length :=
  length_foldl_writeEntry _

/-- The drive leaves its status word where it is mapped once: no entry behind it reaches
back. -/
theorem MapsOnce.window_writeInputs
    (h : MapsOnce (s.dictionary.assigned Pdo.transmit.assign) e offset) (hindex : e.index = 0x6041)
    (hword : entryBytes e = 2) (hroom : offset + 2 ≤ s.inputs.length) :
    Bytes.window s.writeInputs.inputs offset 2 = Packed.bytes s.statusword := by
  obtain ⟨before, after, hmapping, rfl, -⟩ := h
  unfold writeInputs
  dsimp only
  rw [hmapping, place_append, List.foldl_append, Nat.zero_add, place, List.foldl_cons]
  rw [hword]
  refine (Bytes.window_congr fun i _ hi => getElem?_foldl_writeEntry hi).trans ?_
  exact window_writeEntry_statusword hindex hword (by rw [length_foldl_writeEntry]; exact hroom)

/-- The master reads the status word that the drive shows. -/
theorem get_statusword {f : Field UInt16} (hfit : f.Fits s.inputs.length) (hwide : f.Wide)
    (h : MapsOnce (s.dictionary.assigned Pdo.transmit.assign) e f.byte.toNat)
    (hindex : e.index = 0x6041) (hword : entryBytes e = 2) :
    f.get s.writeInputs.inputs = .ok s.statusword := by
  have hle := hfit.le
  have hsize : 2 ≤ f.len.toNat := hwide
  have hwindow := h.window_writeInputs hindex hword (by omega)
  rw [← length_writeInputs] at hfit
  rw [Field.get_eq_ofWord hfit hwide]
  show Packed.ofWord (Bytes.toNat (Bytes.window s.writeInputs.inputs f.byte.toNat 2)) = _
  rw [hwindow]
  exact Packed.ofWord_bytes _

end Simulation.Slave

end Servo
