/-
Typed values in the dictionaries of a simulated segment.

A write that is taken puts the bytes of its value in place of the item, and no other item
changes (`of_sdoWrite_ok`). So the value is read back, by its own type; and by another one
its bytes are read, as many as that type takes, with zeros where there are none left. For
unsigned numbers all words are values, so such a read does not fail (`ReadsBack`).

What a read of another item is answered is the same as before, down to the fault where
there is one: that fault tells whether the index is known, which a write does not change,
since it adds no item (`hasIndex_put`). One index is not answered from its own item: what
the operation mode is shown as follows the item of the requested mode.

# Buffers

A transaction reads into a buffer, of which a segment sees the length. Whatever the length
is, the head of the buffer takes as much of the item as there is room for, and the rest
stays as it was (`Fills`).
-/
import Servo.Proofs.Field.Lens
import Servo.Proofs.Idle
import Servo.Proofs.Simulation.Protected
import Servo.Proofs.Simulation.Rewriting

namespace Servo

-- =============================================================== bytes

namespace Bytes

theorem fit_of_length {n : Nat} {bytes : Bytes} (h : bytes.length = n) : fit n bytes = bytes := by
  subst h
  unfold fit
  rw [List.take_length, Nat.sub_self, List.replicate_zero, List.append_nil]

/-- What is cut off does not count. -/
theorem fit_take (n : Nat) (bytes : Bytes) : fit n (bytes.take n) = fit n bytes := by
  have hmissing : n - min n bytes.length = n - bytes.length := by omega
  unfold fit
  rw [List.take_take, Nat.min_self, List.length_take, hmissing]

end Bytes

namespace Packed

variable {α : Type} [Packed α] [LawfulPacked α]

/-- A property of each type of unsigned numbers. -/
def OfUnsigned (P : (α : Type) → [Packed α] → Prop) : Prop := P UInt8 ∧ P UInt16 ∧ P UInt32

theorem ofUnsigned {P : (α : Type) → [Packed α] → Prop}
    (h : ∀ (α : Type) [Packed α] [LawfulPacked α], (∀ n, ∃ v : α, ofWord n = .ok v) → P α) :
    OfUnsigned P :=
  ⟨h _ fun _ => ⟨_, rfl⟩, h _ fun _ => ⟨_, rfl⟩, h _ fun _ => ⟨_, rfl⟩⟩

theorem unpack_fit_bytes (v : α) :
    unpack (Bytes.fit (size α) ((bytes v).take (size α))) = .ok v := by
  rw [Bytes.fit_take]
  exact unpack_fit_iff.2 (Bytes.fit_of_length (length_bytes v))

/-- Where all words are values, any bytes are those of one. -/
theorem exists_unpack_fit (htotal : ∀ n, ∃ v : α, ofWord n = .ok v) (data : Bytes) :
    ∃ v : α, unpack (Bytes.fit (size α) (data.take (size α))) = .ok v
      ∧ bytes v = Bytes.fit (size α) data := by
  rw [Bytes.fit_take]
  obtain ⟨v, hv⟩ := htotal (Bytes.toNat ((Bytes.fit (size α) data).take (size α)))
  have hunpack : unpack (Bytes.fit (size α) data) = .ok v := by
    unfold unpack
    rw [if_neg (by simp), hv]
  exact ⟨v, hunpack, (unpack_fit_iff.1 hunpack).symm⟩

end Packed

namespace Simulation

-- ======================================================== dictionaries

namespace Dictionary

variable {d : Dictionary} {a b : Address}

theorem any_putItem {items : List (Address × Bytes)} (h : (items.lookup a).isSome) (data : Bytes)
    (index : UInt16) :
    (putItem a data items).any (·.1.index == index) = items.any (·.1.index == index) := by
  induction items with
  | nil => cases h
  | cons item rest ih =>
    obtain ⟨c, old⟩ := item
    unfold putItem
    by_cases hac : a = c
    · rw [if_pos hac]
      rfl
    · rw [List.lookup_cons, beq_false_of_ne hac] at h
      rw [if_neg hac, List.any_cons, List.any_cons, ih h]

/-- Writing an item that is there makes no index known. -/
theorem hasIndex_put (h : (d.get? a).isSome) (data : Bytes) (index : UInt16) :
    (d.put a data).hasIndex index = d.hasIndex index :=
  any_putItem h data index

end Dictionary

-- =============================================================== slaves

namespace Slave

variable {s s' : Slave} {k : UInt16} {a b : Address}

/-- What a read comes to hangs on the item and on whether its index is known. -/
theorem readItem_congr (hal : s'.al = s.al)
    (hshown : s'.dictionary.shown? a = s.dictionary.shown? a)
    (hknown : s'.dictionary.hasIndex a.index = s.dictionary.hasIndex a.index) :
    s'.readItem k a = s.readItem k a := by
  by_cases hinit : s.al = .init
  · unfold readItem
    rw [if_pos hinit, if_pos (hal.trans hinit)]
  · have hinit' : s'.al ≠ .init := fun h => hinit (hal.symm.trans h)
    cases hdata : s.dictionary.shown? a with
    | some data =>
      rw [readItem_of_shown hinit hdata, readItem_of_shown hinit' (hshown.trans hdata)]
    | none =>
      have hnone : s.dictionary.get? a = none := Option.map_eq_none_iff.1 hdata
      have hnone' : s'.dictionary.get? a = none := Option.map_eq_none_iff.1 (hshown.trans hdata)
      unfold readItem
      rw [if_neg hinit, if_neg hinit', hnone, hnone', hknown]

/-- Writing an item does not show in another one, but where the operation mode is shown. -/
theorem readItem_put_of_ne (hpresent : (s.dictionary.get? a).isSome) (hne : b ≠ a)
    (hindex : b.index ≠ 0x6061) (data : Bytes) :
    { s with dictionary := s.dictionary.put a data }.readItem k b = s.readItem k b := by
  refine readItem_congr rfl ?_ (Dictionary.hasIndex_put hpresent data _)
  rw [Dictionary.shown?_of_ne hindex, Dictionary.shown?_of_ne hindex,
    Dictionary.get?_put_of_ne hne]

/-- When an item is read. -/
theorem exists_readItem_iff :
    (∃ data, s.readItem k a = .ok data) ↔ s.al ≠ .init ∧ (s.dictionary.get? a).isSome := by
  constructor
  · intro h
    obtain ⟨data, hdata⟩ := h
    unfold readItem at hdata
    split at hdata
    next => cases hdata
    next hstarted =>
      split at hdata
      next hitem => exact ⟨hstarted, by rw [hitem]; rfl⟩
      next => cases hdata
  · intro h
    obtain ⟨stored, hstored⟩ := Option.isSome_iff_exists.1 h.2
    exact ⟨_, readItem_of_shown h.1 (Option.map_eq_some_iff.2 ⟨stored, hstored, rfl⟩)⟩

end Slave

-- ============================================================= segments

namespace Segment

variable {g g' : Segment} {j k : UInt16} {a b : Address} {s : Slave} {data : Bytes}

theorem sdoRead_answer (g : Segment) (j : UInt16) (b : Address) (capacity : Nat) :
    (g.sdoRead j b capacity).1
      = ((g.find j).bind (·.readItem j b)).map fun data => data.take capacity := by
  unfold sdoRead
  cases (g.find j).bind (·.readItem j b) <;> rfl

theorem find_setSlave_of_ne (hfind : g.find k = .ok s) (hjk : j ≠ k) (s' : Slave) :
    (g.setSlave k s').find j = g.find j := by
  have hslave := slave?_setSlave_of_ne (find_eq_ok hfind) hjk s'
  unfold find
  rw [hslave]
  rfl

/-- A write that is taken puts its bytes in place of an item, and is logged. -/
theorem of_sdoWrite_ok (h : g.sdoWrite k a data = (.ok (), g')) :
    ∃ s, g.find k = .ok s ∧ s.al ≠ .init ∧ (s.dictionary.get? a).isSome
      ∧ g' = (g.logged ⟨k, a, data, true⟩).setSlave k
        { s with dictionary := s.dictionary.put a data } := by
  unfold sdoWrite at h
  dsimp only at h
  split at h
  next => cases h
  next =>
    split at h
    next => cases h
    next s hfind =>
      obtain ⟨hok, rfl⟩ := Prod.mk.inj h
      obtain ⟨hstarted, hpresent, -⟩ := Slave.writeItem_eq_ok_iff.1 hok
      refine ⟨s, hfind, hstarted, hpresent, ?_⟩
      rw [s.writeItem_eq, hok]
      simp only [Dictionary.next, if_true]
      rfl

-- ================================================================ reads

variable {β : Type} [Packed β]

/-- What reading an object from a slave comes to. -/
def reads (g : Segment) (k : UInt16) (object : DataObject β) : Except Bus.Fault β :=
  ((object.read k).run answer g : Except Bus.Fault β × Segment).1

theorem reads_eq (g : Segment) (k : UInt16) (object : DataObject β) :
    g.reads k object = (g.sdoRead k object.address (Packed.size β)).1.bind fun received =>
      (Packed.unpack (Bytes.fit (Packed.size β) received)).mapError Bus.Fault.ofPacking := by
  unfold reads
  rw [DataObject.read_eq_bind]
  rfl

/-- The item is read as far as the type of the object takes it. -/
theorem reads_of_shown (object : DataObject β) (hfind : g.find k = .ok s) (hstarted : s.al ≠ .init)
    (hdata : s.dictionary.shown? object.address = some data) :
    g.reads k object
      = (Packed.unpack (Bytes.fit (Packed.size β) (data.take (Packed.size β)))).mapError
        Bus.Fault.ofPacking := by
  rw [reads_eq, sdoRead_eq hfind hstarted hdata]
  rfl

/-- A read fills a buffer with what there is to read: it answers how many bytes there was
room for, and these are at the head of the buffer, the rest of which is as it was. -/
def Fills (g : Segment) (k : UInt16) (a : Address) (data buffer : Bytes) : Prop :=
  ∃ received, (g.sdoRead k a buffer.length).1 = .ok received
    ∧ received.length = min data.length buffer.length
    ∧ ∀ i, (Bytes.overwrite buffer received)[i]? =
      if i < data.length ∧ i < buffer.length then data[i]? else buffer[i]?

theorem fills_of_shown (hfind : g.find k = .ok s) (hstarted : s.al ≠ .init)
    (hdata : s.dictionary.shown? a = some data) (buffer : Bytes) : g.Fills k a data buffer := by
  refine ⟨data.take buffer.length, by rw [sdoRead_eq hfind hstarted hdata], ?_, fun i => ?_⟩
  · rw [List.length_take, Nat.min_comm]
  · rw [Bytes.getElem?_overwrite, List.length_take]
    by_cases hi : i < data.length ∧ i < buffer.length
    · rw [if_pos (by omega), if_pos hi, List.getElem?_take_of_lt hi.2]
    · rw [if_neg (by omega), if_neg hi]

/-- How a segment answers transactions that read. -/
structure Serves (g : Segment) : Prop where
  /-- A slave that was found answers for every item that it has, once it has a mailbox. -/
  answers (k : UInt16) (a : Address) (capacity : Nat) :
    (∃ received, (g.sdoRead k a capacity).1 = .ok received)
      ↔ ∃ s, g.find k = .ok s ∧ s.al ≠ .init ∧ (s.dictionary.get? a).isSome
  /-- It answers with what is stored, -/
  stored {k : UInt16} {s : Slave} {a : Address} {data : Bytes} : g.find k = .ok s →
    s.al ≠ .init → s.dictionary.get? a = some data → a.index ≠ 0x6061 →
      ∀ buffer, g.Fills k a data buffer
  /-- but where the operation mode is shown, with the first byte of the requested one. -/
  display {k : UInt16} {s : Slave} {sub : UInt8} : g.find k = .ok s →
    s.al ≠ .init → (s.dictionary.get? ⟨0x6061, sub⟩).isSome →
      ∀ buffer, g.Fills k ⟨0x6061, sub⟩ [s.dictionary.byte ⟨0x6060, 0⟩] buffer

theorem serves (g : Segment) : g.Serves where
  answers k a capacity := by
    rw [sdoRead_answer]
    constructor
    · intro h
      obtain ⟨received, hreceived⟩ := h
      cases hfind : g.find k with
      | error fault =>
        rw [hfind] at hreceived
        cases hreceived
      | ok s =>
        rw [hfind] at hreceived
        change (s.readItem k a).map _ = .ok received at hreceived
        cases hread : s.readItem k a with
        | error fault =>
          rw [hread] at hreceived
          cases hreceived
        | ok data => exact ⟨s, rfl, Slave.exists_readItem_iff.1 ⟨data, hread⟩⟩
    · intro h
      obtain ⟨s, hfind, hserved⟩ := h
      obtain ⟨data, hread⟩ := Slave.exists_readItem_iff.2 hserved
      rw [hfind]
      show ∃ received, (s.readItem k a).map _ = .ok received
      rw [hread]
      exact ⟨_, rfl⟩
  stored hfind hstarted hstored hindex :=
    fills_of_shown hfind hstarted ((Dictionary.shown?_of_ne hindex).trans hstored)
  display hfind hstarted hpresent := by
    obtain ⟨stored, hstored⟩ := Option.isSome_iff_exists.1 hpresent
    exact fills_of_shown hfind hstarted (Option.map_eq_some_iff.2 ⟨stored, hstored, rfl⟩)

-- =============================================================== writes

/-- A value was written to an object of a slave. -/
structure ReadsBack {α : Type} [Packed α] (g g' : Segment) (k : UInt16) (object : DataObject α)
    (v : α) : Prop where
  /-- It is read back, -/
  same : g'.reads k object = .ok v
  /-- as an unsigned number its bytes are, cut off or filled up with zeros. -/
  unsigned : Packed.OfUnsigned fun β _ => ∃ u : β,
    g'.reads k (⟨object.address⟩ : DataObject β) = .ok u
      ∧ Packed.bytes u = Bytes.fit (Packed.size β) (Packed.bytes v)
  /-- Any other item of any slave is answered as it was, -/
  others {j : UInt16} {b : Address} (capacity : Nat) : j ≠ k ∨ b ≠ object.address →
    b.index ≠ 0x6061 → (g'.sdoRead j b capacity).1 = (g.sdoRead j b capacity).1
  /-- whatever it is read as. -/
  otherObjects {β : Type} [Packed β] {j : UInt16} {other : DataObject β} :
    j ≠ k ∨ other.address ≠ object.address → other.address.index ≠ 0x6061 →
      g'.reads j other = g.reads j other

variable {α : Type} [Packed α] {object : DataObject α} {v : α}

/-- Only the item that is written is answered differently, and what the mode is shown as. -/
theorem sdoRead_of_write (h : g.sdoWrite k a data = (.ok (), g')) (hother : j ≠ k ∨ b ≠ a)
    (hindex : b.index ≠ 0x6061) (capacity : Nat) :
    (g'.sdoRead j b capacity).1 = (g.sdoRead j b capacity).1 := by
  obtain ⟨s, hfind, -, hpresent, rfl⟩ := of_sdoWrite_ok h
  have hlogged : (g.logged ⟨k, a, data, true⟩).find k = .ok s := hfind
  rw [sdoRead_answer, sdoRead_answer]
  by_cases hjk : j = k
  · subst hjk
    have hne : b ≠ a := hother.resolve_left fun hj => hj rfl
    rw [find_setSlave_self hlogged, hfind]
    show ((Slave.readItem _ j b).map _) = (s.readItem j b).map _
    rw [Slave.readItem_put_of_ne hpresent hne hindex]
  · rw [find_setSlave_of_ne hlogged hjk]
    rfl

theorem readsBack_of_write [LawfulPacked α] (hindex : object.address.index ≠ 0x6061)
    (h : g.Ends (object.write k v) (.ok ()) g') : g.ReadsBack g' k object v := by
  have hwrite : g.sdoWrite k object.address (Packed.bytes v) = (.ok (), g') := h
  obtain ⟨s, hfind, hstarted, -, hg'⟩ := of_sdoWrite_ok hwrite
  have hfind' := find_setSlave_self (g := g.logged ⟨k, object.address, Packed.bytes v, true⟩) hfind
    { s with dictionary := s.dictionary.put object.address (Packed.bytes v) }
  rw [← hg'] at hfind'
  have hshown : (s.dictionary.put object.address (Packed.bytes v)).shown? object.address
      = some (Packed.bytes v) :=
    (Dictionary.shown?_of_ne hindex).trans (Dictionary.get?_put_self _)
  constructor
  case same =>
    rw [reads_of_shown object hfind' hstarted hshown, Packed.unpack_fit_bytes]
    rfl
  case unsigned =>
    refine Packed.ofUnsigned fun β _ _ htotal => ?_
    obtain ⟨u, hunpack, hbytes⟩ := Packed.exists_unpack_fit htotal (Packed.bytes v)
    refine ⟨u, ?_, hbytes⟩
    rw [reads_of_shown (⟨object.address⟩ : DataObject β) hfind' hstarted hshown, hunpack]
    rfl
  case others =>
    intro j b capacity hother hb
    exact sdoRead_of_write hwrite hother hb capacity
  case otherObjects =>
    intro β _ j other hother hb
    rw [reads_eq, reads_eq, sdoRead_of_write hwrite hother hb]

/-- Whatever is exchanged, it is read back where it was written. -/
theorem ofEach_readsBack :
    (Packed.OfEach fun α _ => ∀ (g g' : Segment) (k : UInt16) (object : DataObject α) (v : α),
        object.address.index ≠ 0x6061 → g.Ends (object.write k v) (.ok ()) g' →
          g.ReadsBack g' k object v)
      ∧ ∀ g : Segment, g.Serves :=
  ⟨Packed.ofEach fun _ _ _ _ _ _ _ _ _ => readsBack_of_write, serves⟩

/-- A drive that answers transactions. -/
def ready : Segment where
  slaves := [{ al := .preOperational }]
  isOpen := true
  discovered := true

/-- The mode that is requested of it is taken, and shown in the first of three bytes. -/
theorem ofEach_readsBack_ready :
    ∃ g', ready.Ends (DataObject.Standard.modeOfOperation.write 1 .torqueProfile) (.ok ()) g'
      ∧ ready.ReadsBack g' 1 DataObject.Standard.modeOfOperation .torqueProfile
      ∧ g'.Fills 1 ⟨0x6061, 0⟩ [4] [0xaa, 0xaa, 0xaa] := by
  have hwrite := sdoWrite_eq (g := ready) (k := 1) (a := ⟨0x6060, 0⟩)
    (s := { al := .preOperational }) (by decide) rfl (by decide) ⟨rfl, rfl⟩
    (Packed.bytes OperationMode.torqueProfile)
  have hends : ready.Ends (DataObject.Standard.modeOfOperation.write 1 .torqueProfile) (.ok ()) _ :=
    hwrite
  obtain ⟨⟨-, -, -, -, -, -, -, -, -, hmode⟩, hserves⟩ := ofEach_readsBack
  exact ⟨_, hends, hmode _ _ _ _ _ (by decide) hends,
    (hserves _).display (find_setSlave_self rfl _) (by decide) rfl _⟩

end Segment

end Simulation

end Servo
