/-
How a mapping packs the process image.

In a mapping the entries lie one behind the other, bit by bit: each begins where those
before it end (`Pdo.totalBits`), and the image is as long as all of them need
(`Sized`). The drive walks along its mapping in whole bytes instead, and what an entry has
beyond those it leaves out (`span`). So it never comes too far, and what it reads and
writes is inside the image; but it finds an entry where the mapping has it only if all
entries before are whole bytes (`Located`). No two entries take a byte from each other
either way (`Apart`).

# What an exchange does

The drive takes the last word that is mapped for its control word, and the last one for its
torque, from where the walk finds them, and leaves the values of the other mapping where
the walk finds those (`exchange_packed`). Two entries of half a byte in front are enough for
it to miss its control word by one byte (`not_packed`).
-/
import Servo.Proofs.Simulation.Sequence

namespace Servo

-- ================================================================ bits

namespace Pdo

variable {before after : List Entry} {e : Entry}

theorem totalBits_append (before after : List Entry) :
    totalBits (before ++ after) = totalBits before + totalBits after := by
  induction before with
  | nil => exact (Nat.zero_add _).symm
  | cons e rest ih =>
    rw [List.cons_append, totalBits, totalBits, ih, Nat.add_assoc]

/-- A byte of the image is all an entry's, with these before it. -/
def Owns (before : List Entry) (e : Entry) (i : Nat) : Prop :=
  totalBits before ≤ 8 * i ∧ 8 * i + 8 ≤ totalBits before + e.bits.toNat

/-- An entry of whole bytes that begins with a byte. -/
def Whole (before : List Entry) (e : Entry) : Prop :=
  8 ∣ totalBits before ∧ 8 ∣ e.bits.toNat

end Pdo

namespace Simulation.Slave

open Pdo (Owns Whole)

variable {mapping before between after : List Pdo.Entry} {e e' : Pdo.Entry} {index : UInt16}
  {offset length : Nat} {image : Bytes} {s : Slave}

-- ============================================================= the walk

theorem span_append (before after : List Pdo.Entry) :
    span (before ++ after) = span before + span after := by
  induction before with
  | nil => exact (Nat.zero_add _).symm
  | cons e rest ih => rw [List.cons_append, span, span, ih, Nat.add_assoc]

/-- The walk never comes too far. -/
theorem span_le (mapping : List Pdo.Entry) : 8 * span mapping ≤ Pdo.totalBits mapping := by
  induction mapping with
  | nil => exact Nat.le_refl 0
  | cons e rest ih =>
    rw [span, Pdo.totalBits]
    unfold entryBytes
    omega

/-- It comes as far as the bits do over whole bytes alone. -/
theorem span_eq_iff (mapping : List Pdo.Entry) :
    8 * span mapping = Pdo.totalBits mapping ↔ ∀ e ∈ mapping, 8 ∣ e.bits.toNat := by
  induction mapping with
  | nil => exact iff_of_true rfl fun e he => absurd he List.not_mem_nil
  | cons e rest ih =>
    have hrest := span_le rest
    rw [List.forall_mem_cons, ← ih, span, Pdo.totalBits]
    unfold entryBytes
    omega

/-- Where the walk finds an entry, and where the mapping has it, in an image. -/
structure Located (before : List Pdo.Entry) (e : Pdo.Entry) (length : Nat) : Prop where
  inside : Pdo.totalBits before / 8 + entryBytes e ≤ length
  early : span before ≤ Pdo.totalBits before / 8
  straight : span before = Pdo.totalBits before / 8 ↔ ∀ e' ∈ before, 8 ∣ e'.bits.toNat

theorem located (hwhole : Whole before e) :
    Located before e (imageBytes (before ++ e :: after)) := by
  obtain ⟨hbefore, hbits⟩ := hwhole
  have hspan := span_le before
  constructor
  case inside =>
    unfold imageBytes entryBytes
    rw [Pdo.totalBits_append, Pdo.totalBits]
    omega
  case early => omega
  case straight =>
    rw [← span_eq_iff]
    omega

/-- Two entries of a mapping take no byte from each other: not by their bits, and not where
the walk finds them. -/
def Apart (mapping : List Pdo.Entry) : Prop :=
  ∀ before e between e' after, mapping = before ++ e :: (between ++ e' :: after) →
    (∀ i, ¬ (Owns before e i ∧ Owns (before ++ e :: between) e' i))
      ∧ span before + entryBytes e ≤ span (before ++ e :: between)

theorem apart (mapping : List Pdo.Entry) : Apart mapping := by
  intro before e between e' after _
  constructor
  · intro i howns
    obtain ⟨⟨-, hend⟩, hbegin, -⟩ := howns
    rw [Pdo.totalBits_append, Pdo.totalBits] at hbegin
    omega
  · rw [span_append, span]
    omega

-- =============================================================== sizes

/-- The image is as long as the mappings need. -/
structure Sized (s : Slave) : Prop where
  outputs : s.outputs.length = imageBytes (s.dictionary.assigned Pdo.receive.assign)
  inputs : s.inputs.length = imageBytes (s.dictionary.assigned Pdo.transmit.assign)

/-- So it is laid out, unless its size was set from outside. -/
theorem sized_mapImage (h : s.imageOverride = none) : s.mapImage.Sized := by
  have himage : s.image = ⟨imageBytes (s.dictionary.assigned Pdo.receive.assign),
      imageBytes (s.dictionary.assigned Pdo.transmit.assign)⟩ := by
    unfold Slave.image
    rw [h]
    rfl
  constructor
  case outputs =>
    show (List.replicate s.image.outputBytes 0).length = _
    rw [himage, List.length_replicate]
    rfl
  case inputs =>
    show (List.replicate s.image.inputBytes 0).length = _
    rw [himage, List.length_replicate]
    rfl

/-- And so it stays when outputs are set. -/
theorem Sized.handed (h : s.Sized) (bytes : Bytes) :
    Sized { s with outputs := Bytes.overwrite s.outputs bytes } where
  outputs := (Bytes.length_overwrite s.outputs bytes).trans h.outputs
  inputs := h.inputs

-- ============================================================= outputs

/-- The word that lies somewhere in an image. -/
def wordAt (image : Bytes) (offset : Nat) : UInt16 :=
  UInt16.ofNat (Bytes.toNat (Bytes.window image offset 2))

/-- What lies behind does not matter if there is no word for the index. -/
theorem wordOffset?_append (hafter : ∀ e ∈ after, e.index = index → entryBytes e ≠ 2) :
    wordOffset? (mapping ++ after) index length = wordOffset? mapping index length := by
  induction after using List.reverseRecOn with
  | nil => rw [List.append_nil]
  | append_singleton after e ih =>
    obtain ⟨hafter, hlast⟩ := List.forall_mem_append.1 hafter
    rw [← List.append_assoc, wordOffset?_concat, if_neg, ih hafter]
    exact fun h => hlast e List.mem_cons_self h.1 h.2.1

/-- The drive finds a word with none for its index behind it. -/
theorem word?_of_last (hword : entryBytes e = 2)
    (hafter : ∀ e' ∈ after, e'.index = e.index → entryBytes e' ≠ 2)
    (hroom : span before + 2 ≤ image.length) :
    word? (before ++ e :: after) e.index image = some (wordAt image (span before)) := by
  rw [word?_eq, List.append_cons, wordOffset?_append hafter, wordOffset?_concat,
    if_pos ⟨rfl, hword, hroom⟩]
  rfl

/-- And none at all where there is no word for the index. -/
theorem word?_of_none (hnone : ∀ e ∈ mapping, e.index = index → entryBytes e ≠ 2) :
    word? mapping index image = none := by
  rw [word?_eq, ← List.nil_append mapping, wordOffset?_append hnone]
  rfl

/-- The torque applied at an exchange in operational. -/
theorem exchange_appliedTorque (hal : s.al = .operational) :
    s.exchange.1.appliedTorque = if s.exchange.1.drive = .operationEnabled then
      ((word? (s.dictionary.assigned Pdo.receive.assign) 0x6071 s.outputs).map
        UInt16.toInt16).getD 0
    else 0 := by
  rw [exchange_of_operational hal, writeInputs_drive, writeInputs_applied]
  unfold readOutputs
  dsimp only
  split
  next => split <;> rfl
  next => rfl

-- ============================================================== inputs

theorem getElem?_writeEntry_of_ge {placed : Pdo.Entry × Nat} {i : Nat}
    (h : placed.2 + entryBytes placed.1 ≤ i) : (s.writeEntry image placed)[i]? = image[i]? := by
  unfold writeEntry
  dsimp only
  split
  next hroom =>
    rw [Bytes.getElem?_splice (by rw [List.length_take]; omega), if_neg]
    rw [List.length_take]
    omega
  next => rfl

/-- What is written of entries up to some offset leaves the bytes behind it. -/
theorem getElem?_foldl_writeEntry_of_ge {i : Nat} (h : offset + span mapping ≤ i) :
    ((place offset mapping).foldl s.writeEntry image)[i]? = image[i]? := by
  induction mapping generalizing offset image with
  | nil => rfl
  | cons e rest ih =>
    rw [span] at h
    rw [place, List.foldl_cons, ih (by omega)]
    exact getElem?_writeEntry_of_ge (show offset + entryBytes e ≤ i by omega)

/-- An entry takes as much of its value as it has room for; the rest of it stays. -/
theorem window_writeEntry (hroom : offset + entryBytes e ≤ image.length) :
    Bytes.window (s.writeEntry image (e, offset)) offset (entryBytes e)
      = Bytes.overwrite (Bytes.window image offset (entryBytes e)) (s.valueBytes e) := by
  have hwidth := Bytes.length_window hroom
  unfold writeEntry
  dsimp only
  rw [if_pos hroom]
  apply List.ext_getElem?
  intro i
  rw [Bytes.getElem?_overwrite, hwidth]
  unfold Bytes.window
  rcases Nat.lt_or_ge i (entryBytes e) with hi | hi
  · rw [List.getElem?_take_of_lt hi, List.getElem?_take_of_lt hi, List.getElem?_drop,
      List.getElem?_drop, Bytes.getElem?_splice (by rw [List.length_take]; omega),
      List.length_take, Nat.add_sub_cancel_left, List.getElem?_take_of_lt hi]
    exact if_congr (by omega) rfl rfl
  · rw [List.getElem?_take_eq_none hi, List.getElem?_take_eq_none hi, if_neg (by omega)]

/-- Writing the inputs does not change what they tell. -/
theorem writeInputs_valueBytes (s : Slave) : s.writeInputs.valueBytes e = s.valueBytes e := rfl

/-- The drive leaves the value of each entry where its walk finds it. -/
theorem window_writeInputs
    (hmapping : s.dictionary.assigned Pdo.transmit.assign = before ++ e :: after)
    (hroom : span before + entryBytes e ≤ s.inputs.length) :
    Bytes.window s.writeInputs.inputs (span before) (entryBytes e)
      = Bytes.overwrite (Bytes.window s.inputs (span before) (entryBytes e)) (s.valueBytes e) := by
  unfold writeInputs
  dsimp only
  rw [hmapping, place_append, List.foldl_append, Nat.zero_add, place, List.foldl_cons]
  -- the entries behind write behind, and those before write before
  rw [Bytes.window_congr fun i _ hi => getElem?_foldl_writeEntry hi,
    window_writeEntry (by rw [length_foldl_writeEntry]; exact hroom)]
  congr 1
  exact Bytes.window_congr fun i hi _ => getElem?_foldl_writeEntry_of_ge (by omega)

-- =========================================================== exchanges

/-- What an exchange takes from the word of an entry, which lies there in the outputs. -/
structure TakenFrom (s : Slave) (e : Pdo.Entry) (there : Nat) : Prop where
  controlword : e.index = 0x6040 →
    s.exchange.1.controlwords = s.controlwords ++ [wordAt s.outputs there]
  torque : e.index = 0x6071 → s.exchange.1.appliedTorque =
    if s.exchange.1.drive = .operationEnabled then (wordAt s.outputs there).toInt16 else 0

theorem takenFrom_span (hal : s.al = .operational)
    (hmapping : s.dictionary.assigned Pdo.receive.assign = before ++ e :: after)
    (hword : entryBytes e = 2)
    (hafter : ∀ e' ∈ after, e'.index = e.index → entryBytes e' ≠ 2)
    (hroom : span before + 2 ≤ s.outputs.length) : s.TakenFrom e (span before) := by
  have hfound := word?_of_last hword hafter hroom
  rw [← hmapping] at hfound
  constructor
  case controlword =>
    intro hindex
    rw [hindex] at hfound
    rw [s.exchange_received.1]
    unfold received?
    rw [if_pos hal, hfound]
    rfl
  case torque =>
    intro hindex
    rw [hindex] at hfound
    rw [exchange_appliedTorque hal, hfound]
    rfl

/-- An exchange in operational with an image as long as the mappings need takes the last
word of the control word and of the torque, if there is one, from where the walk finds it,
and leaves the value of each entry of the other mapping where the walk finds that. For
entries of whole bytes that begin with a byte, this is inside the image, never behind the
place that the mapping gives them, and there exactly if all entries before are whole bytes.
Two entries have no byte in common. -/
theorem exchange_packed (hsized : s.Sized) (hal : s.al = .operational) :
    (∀ before e after, s.dictionary.assigned Pdo.receive.assign = before ++ e :: after →
        Whole before e → Located before e s.outputs.length
          ∧ (entryBytes e = 2 → (∀ e' ∈ after, e'.index = e.index → entryBytes e' ≠ 2) →
            s.TakenFrom e (span before)))
      ∧ ((∀ e ∈ s.dictionary.assigned Pdo.receive.assign, e.index = 0x6040 → entryBytes e ≠ 2) →
        s.exchange.1.controlwords = s.controlwords)
      ∧ ((∀ e ∈ s.dictionary.assigned Pdo.receive.assign, e.index = 0x6071 → entryBytes e ≠ 2) →
        s.exchange.1.appliedTorque = 0)
      ∧ (∀ before e after, s.dictionary.assigned Pdo.transmit.assign = before ++ e :: after →
        Whole before e → Located before e s.inputs.length
          ∧ Bytes.window s.exchange.1.inputs (span before) (entryBytes e)
            = Bytes.overwrite (Bytes.window s.inputs (span before) (entryBytes e))
              (s.exchange.1.valueBytes e))
      ∧ Apart (s.dictionary.assigned Pdo.receive.assign)
      ∧ Apart (s.dictionary.assigned Pdo.transmit.assign) := by
  refine ⟨?_, fun hnone => ?_, fun hnone => ?_, ?_, apart _, apart _⟩
  · intro before e after hmapping hwhole
    have hlocated : Located before e s.outputs.length := by
      rw [hsized.outputs, hmapping]
      exact located hwhole
    refine ⟨hlocated, fun hword hafter => takenFrom_span hal hmapping hword hafter ?_⟩
    exact hword ▸ Nat.le_trans (Nat.add_le_add_right hlocated.early _) hlocated.inside
  · rw [s.exchange_received.1]
    unfold received?
    rw [if_pos hal, word?_of_none hnone]
    exact List.append_nil _
  · rw [exchange_appliedTorque hal, word?_of_none hnone]
    exact ite_self _
  · intro before e after hmapping hwhole
    have hlocated : Located before e s.inputs.length := by
      rw [hsized.inputs, hmapping]
      exact located hwhole
    refine ⟨hlocated, ?_⟩
    have hroom : span before + entryBytes e ≤ s.readOutputs.inputs.length := by
      rw [readOutputs_inputs]
      exact Nat.le_trans (Nat.add_le_add_right hlocated.early _) hlocated.inside
    rw [← readOutputs_dictionary] at hmapping
    rw [exchange_of_operational hal, window_writeInputs hmapping hroom, readOutputs_inputs,
      writeInputs_valueBytes]

/-- A drive in operational with two entries of half a byte before its control word, and the
command to shut down where its mapping has that. -/
def halved : Slave :=
  let dictionary := Dictionary.initial.setMapping Pdo.receive.index
    [.make 0x2000 0 4, .make 0x2001 0 4, .ofObject DataObject.Standard.controlword]
  { ({ dictionary, al := .operational } : Slave).mapImage with outputs := [0, 6, 0] }

theorem sized_halved : halved.Sized := (sized_mapImage rfl).handed [0, 6, 0]

theorem exchange_packed_halved :
    Located [.make 0x2000 0 4, .make 0x2001 0 4] (.ofObject DataObject.Standard.controlword) 3
      ∧ halved.TakenFrom (.ofObject DataObject.Standard.controlword) 0 := by
  obtain ⟨houtputs, -⟩ := exchange_packed sized_halved rfl
  have hmapping : halved.dictionary.assigned Pdo.receive.assign
      = [.make 0x2000 0 4, .make 0x2001 0 4]
        ++ .ofObject DataObject.Standard.controlword :: [] := by
    decide
  obtain ⟨hlocated, htaken⟩ := houtputs _ _ _ hmapping ⟨by decide, by decide⟩
  exact ⟨hlocated, htaken rfl fun _ h => absurd h List.not_mem_nil⟩

/-- That drive takes the first two bytes of its outputs for the command. -/
theorem not_packed : ¬ ∀ s : Slave, s.Sized → s.al = .operational → ∀ before e after,
    s.dictionary.assigned Pdo.receive.assign = before ++ e :: after → Whole before e →
      entryBytes e = 2 → (∀ e' ∈ after, e'.index = e.index → entryBytes e' ≠ 2) →
        s.TakenFrom e (Pdo.totalBits before / 8) := by
  intro hall
  have htaken := hall halved sized_halved rfl [.make 0x2000 0 4, .make 0x2001 0 4]
    (.ofObject DataObject.Standard.controlword) [] (by decide) ⟨by decide, by decide⟩ rfl
    fun _ h => absurd h List.not_mem_nil
  have hword : halved.exchange.1.controlwords
      ≠ halved.controlwords ++ [wordAt halved.outputs 1] := by
    decide
  exact hword (htaken.controlword rfl)

end Simulation.Slave

end Servo
