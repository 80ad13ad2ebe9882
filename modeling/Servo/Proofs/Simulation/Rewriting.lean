/-
What a negotiation comes to on a slave that takes its writes.

A simulated slave refuses writes to a mapping that is assigned or enabled. The plan of a
negotiation is made for just that: each of its writes is taken with what the writes before
it left (`taken_plan`), if the items are there at all (`Dictionary.Room`). So a negotiation
succeeds on every slave in its pre-operational state; and it writes nothing if the
mapping is there already (`leads_negotiate_current`), or else the whole plan
(`leads_negotiate_other`).

All of this hangs on the dictionary of the slave alone, so it is said of any mailbox, and
of lines by way of theirs.
-/
import Servo.Proofs.Negotiation.Courses
import Servo.Proofs.Simulation.Mailbox

namespace Servo

open Simulation (Dictionary Line Mailbox Segment Slave)

variable {α : Type} {k : UInt16} {al : AlState} {l : Line} {d : Dictionary}

-- ============================================================== reading

section

variable [Packed α] {object : DataObject α} {data : Bytes}

/-- Reading an object answers the item that the dictionary shows for it, decoded. -/
theorem Simulation.Mailbox.leads_read (m : Mailbox k al)
    (hdata : d.shown? object.address = some data) :
    m.Leads d (object.read k)
      ((Packed.ofWord (α := α) (Bytes.toNat (data.take (Packed.size α)))).mapError
        Bus.Fault.ofPacking) d := by
  rw [← Packed.unpack_fit_take]
  exact (m.read hdata _).bind (Segment.leads_pure _)

/-- So it does on a line, where the slave is past the initial state. -/
theorem DataObject.leads_read (hk : l.Has k) (hstarted : l.al k ≠ .init)
    (hdata : (l.dictionary k).shown? object.address = some data) :
    l.Leads (object.read k)
      ((Packed.ofWord (α := α) (Bytes.toNat (data.take (Packed.size α)))).mapError
        Bus.Fault.ofPacking) l :=
  Line.leads_of_mailbox_self ((l.mailbox hk rfl hstarted).leads_read hdata)

end

namespace Simulation.Dictionary

variable {a b : Address} {data : Bytes}

/-- All items but the shown operation mode are read as they are. -/
theorem shown?_of_ne (ha : a.index ≠ 0x6061) : d.shown? a = d.get? a := by
  unfold shown?
  simp only [if_neg ha, Option.map_id']

/-- Writes remove no item. -/
theorem isSome_put (h : (d.get? b).isSome) : ((d.put a data).get? b).isSome := by
  rw [get?_put]
  split
  next => rfl
  next => exact h

/-- The items are there that a mapping of some entries and its assignment take. -/
structure Room (d : Dictionary) (pdo : Pdo) (entries : Nat) : Prop where
  assign : (d.get? ⟨pdo.assign, 0⟩).isSome
  map : ∀ i, i ≤ entries → (d.get? ⟨pdo.index, .ofNat i⟩).isSome

end Simulation.Dictionary

section

open Negotiation Simulation.Dictionary

variable {index map : UInt16} {sub : UInt8}

/-- The number of entries is the first byte of its item. -/
theorem Simulation.Mailbox.leads_count (m : Mailbox k al) (hindex : index ≠ 0x6061)
    (hpresent : (d.get? ⟨index, 0⟩).isSome) :
    m.Leads d ((count index).read k) (.ok (d.byte ⟨index, 0⟩)) d := by
  obtain ⟨data, hdata⟩ := Option.isSome_iff_exists.1 hpresent
  have hshown : d.shown? (count index).address = some data := (shown?_of_ne hindex).trans hdata
  rw [← ofNat_take_one hdata]
  exact m.leads_read hshown

theorem Negotiation.leads_count (hk : l.Has k) (hstarted : l.al k ≠ .init)
    (hindex : index ≠ 0x6061) (hpresent : ((l.dictionary k).get? ⟨index, 0⟩).isSome) :
    l.Leads ((count index).read k) (.ok ((l.dictionary k).byte ⟨index, 0⟩)) l :=
  Line.leads_of_mailbox_self ((l.mailbox hk rfl hstarted).leads_count hindex hpresent)

/-- An entry of a mapping is what its item holds. -/
theorem Simulation.Mailbox.leads_entry (m : Mailbox k al) (hmap : map ≠ 0x6061)
    (hpresent : (d.get? ⟨map, sub⟩).isSome) :
    m.Leads d ((entry map sub).read k) (.ok (d.entryAt ⟨map, sub⟩)) d := by
  obtain ⟨data, hdata⟩ := Option.isSome_iff_exists.1 hpresent
  have hentry : d.entryAt ⟨map, sub⟩ = ⟨.ofNat (Bytes.toNat (data.take 4))⟩ := by
    unfold entryAt
    rw [hdata]
    rfl
  have hshown : d.shown? (entry map sub).address = some data := (shown?_of_ne hmap).trans hdata
  rw [hentry]
  exact m.leads_read hshown

end

namespace Negotiation

open Simulation.Dictionary

variable {map : UInt16} {pdo : Pdo} {target : List Pdo.Entry} {capacity : Option Nat}
  {assignment : UInt8} {P Q : Segment → Prop}

/-- A comparison goes on only if the value is the wanted one. -/
theorem leads_ifWanted [DecidableEq α] {read : BusProgram (Except Bus.Fault α)}
    {found wanted : α} {p : BusProgram Bool} {b : Bool}
    (hread : Segment.Leads P read (.ok found) P) (hp : Segment.Leads P p b P) :
    Segment.Leads P (ifWanted read wanted p) (decide (found = wanted) && b) P := by
  refine hread.bind ?_
  dsimp only
  split
  next hfound =>
    rw [decide_eq_true hfound]
    exact hp
  next hfound =>
    rw [decide_eq_false hfound]
    exact Segment.leads_pure false

/-- The items of a mapping from a subindex on hold entries. -/
def agrees (d : Dictionary) (map : UInt16) : UInt8 → List Pdo.Entry → Bool
  | _, [] => true
  | sub, wanted :: rest => decide (d.entryAt ⟨map, sub⟩ = wanted) && agrees d map (sub + 1) rest

/-- A mapping agrees with a target from some entry on just if each entry there does. -/
theorem agrees_iff {n : Nat} :
    agrees d map (.ofNat n) target = true
      ↔ ∀ i (hi : i < target.length), d.entryAt ⟨map, .ofNat (n + i)⟩ = target[i] := by
  induction target generalizing n with
  | nil => exact ⟨fun _ i hi => absurd hi (Nat.not_lt_zero i), fun _ => rfl⟩
  | cons wanted rest ih =>
    have hsub : UInt8.ofNat n + 1 = .ofNat (n + 1) := (UInt8.ofNat_add n 1).symm
    unfold agrees
    rw [hsub, Bool.and_eq_true, decide_eq_true_iff, ih]
    constructor
    · intro h i hi
      obtain ⟨hfirst, hrest⟩ := h
      cases i with
      | zero => exact hfirst
      | succ i =>
        rw [show n + (i + 1) = n + 1 + i by omega]
        exact hrest i (Nat.lt_of_succ_lt_succ hi)
    · intro h
      refine ⟨h 0 (Nat.zero_lt_succ _), fun i hi => ?_⟩
      rw [show n + 1 + i = n + (i + 1) by omega]
      exact h (i + 1) (Nat.succ_lt_succ hi)

/-- Comparing the entries one by one finds out whether they agree. -/
theorem leads_holds {n : Nat} (m : Mailbox k al) (hmap : map ≠ 0x6061)
    (hpresent : ∀ i, n ≤ i → i < n + target.length → (d.get? ⟨map, .ofNat i⟩).isSome) :
    m.Leads d (holds k map (.ofNat n) target) (agrees d map (.ofNat n) target) d := by
  induction target generalizing n with
  | nil => exact Segment.leads_pure true
  | cons wanted rest ih =>
    have hsub : UInt8.ofNat n + 1 = .ofNat (n + 1) := (UInt8.ofNat_add n 1).symm
    rw [List.length_cons] at hpresent
    rw [holds_cons]
    unfold agrees
    rw [hsub]
    refine leads_ifWanted (m.leads_entry hmap (hpresent n (Nat.le_refl n) (by omega))) ?_
    exact ih fun i hle hlt => hpresent i (by omega) (by omega)

/-- A mapping is the wanted one, and says so. -/
def Current (d : Dictionary) (map : UInt16) (target : List Pdo.Entry) : Prop :=
  d.byte ⟨map, 0⟩ = .ofNat target.length ∧ d.mapping map = target

instance (d : Dictionary) (map : UInt16) (target : List Pdo.Entry) :
    Decidable (Current d map target) :=
  inferInstanceAs (Decidable (_ ∧ _))

/-- A mapping is current just if its count and all its entries are those of the target. -/
theorem current_iff (hfew : target.length ≤ Pdo.maxEntries) :
    Current d map target
      ↔ d.byte ⟨map, 0⟩ = .ofNat target.length ∧ agrees d map 1 target = true := by
  refine and_congr_right fun hcount => ?_
  have hagrees : agrees d map 1 target = true ↔ _ := agrees_iff (n := 1)
  rw [hagrees]
  constructor
  · rintro rfl i hi
    rw [Nat.add_comm]
    exact (getElem_mapping i hi).symm
  · intro h
    refine mapping_eq hcount hfew fun i hi => ?_
    rw [Nat.add_comm]
    exact h i hi

/-- Looking for the target tells whether it is current, and changes nothing. -/
theorem leads_isCurrent (m : Mailbox k al) (hindex : pdo.index ≠ 0x6061)
    (hroom : d.Room pdo target.length) (hfew : target.length ≤ Pdo.maxEntries) :
    m.Leads d (isCurrent k pdo.index target) (decide (Current d pdo.index target)) d := by
  have hvalue : decide (Current d pdo.index target)
      = (decide (d.byte ⟨pdo.index, 0⟩ = .ofNat target.length)
        && agrees d pdo.index 1 target) := by
    rw [Bool.eq_iff_iff, decide_eq_true_iff, current_iff hfew, Bool.and_eq_true,
      decide_eq_true_iff]
  rw [isCurrent_eq, hvalue]
  refine leads_ifWanted (m.leads_count hindex (hroom.map 0 (Nat.zero_le _))) ?_
  exact leads_holds (n := 1) m hindex fun i _ hi => hroom.map i (by omega)

-- ============================================================== writing

/-- Writes are taken one after the other, each with what those before it left. -/
def Taken (d : Dictionary) : List Write → Prop
  | [] => True
  | w :: ws => d.Takes .preOperational w.address ∧ Taken (d.put w.address w.data) ws

/-- Writes are taken one after the other, in the dictionary that is left by then. -/
theorem taken_append {ws ws' : List Write} :
    Taken d (ws ++ ws') ↔ Taken d ws ∧ Taken (written d ws) ws' := by
  induction ws generalizing d with
  | nil => simp [Taken, written]
  | cons w ws ih => simp only [List.cons_append, Taken, ih, written_cons, and_assoc]

/-- No write takes an item away. -/
theorem isSome_written {ws : List Write} {a : Address} (h : (d.get? a).isSome) :
    ((written d ws).get? a).isSome := by
  induction ws generalizing d with
  | nil => exact h
  | cons w ws ih => exact ih (isSome_put h)

/-- In pre-operational an assignment can always be written. -/
theorem takes_assign {sub : UInt8} (hpdo : pdo = .receive ∨ pdo = .transmit)
    (hpresent : (d.get? ⟨pdo.assign, sub⟩).isSome) :
    d.Takes .preOperational ⟨pdo.assign, sub⟩ where
  present := hpresent
  writable := by
    rcases hpdo with rfl | rfl <;> rfl

/-- A mapping can be written while it is not assigned, and its entries while it is
disabled. -/
theorem takes_map {sub : UInt8} (hpdo : pdo = .receive ∨ pdo = .transmit)
    (hpresent : (d.get? ⟨pdo.index, sub⟩).isSome) (hassign : d.byte ⟨pdo.assign, 0⟩ = 0)
    (hmap : sub = 0 ∨ d.byte ⟨pdo.index, 0⟩ = 0) :
    d.Takes .preOperational ⟨pdo.index, sub⟩ where
  present := hpresent
  writable := by
    have hguard : Slave.assignmentOf? pdo.index = some pdo.assign := by
      rcases hpdo with rfl | rfl <;> rfl
    unfold Slave.isWritable
    dsimp only
    rw [hguard]
    simpa [hassign] using hmap

/-- A mapping is not its own assignment. -/
theorem index_ne_assign (hpdo : pdo = .receive ∨ pdo = .transmit) : pdo.index ≠ pdo.assign := by
  rcases hpdo with rfl | rfl <;> decide

/-- The entries are taken while the mapping is disabled and not assigned. -/
theorem taken_entryWrites {n : Nat} (hpdo : pdo = .receive ∨ pdo = .transmit) (hpos : 0 < n)
    (hfew : n + target.length ≤ 256)
    (hpresent : ∀ i, n ≤ i → i < n + target.length → (d.get? ⟨pdo.index, .ofNat i⟩).isSome)
    (hassign : d.byte ⟨pdo.assign, 0⟩ = 0) (hmap : d.byte ⟨pdo.index, 0⟩ = 0) :
    Taken d (entryWrites pdo.index (.ofNat n) target) := by
  induction target generalizing d n with
  | nil => trivial
  | cons value rest ih =>
    have hsub : UInt8.ofNat n + 1 = .ofNat (n + 1) := (UInt8.ofNat_add n 1).symm
    rw [List.length_cons] at hfew hpresent
    have hcount : (⟨pdo.index, 0⟩ : Address) ≠ ⟨pdo.index, .ofNat n⟩ :=
      (subindex_ne (n := 0) hpos (by omega)).symm
    have hother : (⟨pdo.assign, 0⟩ : Address) ≠ ⟨pdo.index, .ofNat n⟩ := fun h =>
      index_ne_assign hpdo (congrArg Address.index h).symm
    unfold entryWrites
    rw [hsub]
    refine ⟨takes_map hpdo (hpresent n (Nat.le_refl n) (by omega)) hassign (.inr hmap), ?_⟩
    refine ih (Nat.succ_pos n) (by omega) ?_ ?_ ?_
    · exact fun i hle hlt => isSome_put (hpresent i (by omega) (by omega))
    · exact (byte_congr (get?_put_of_ne hother _)).trans hassign
    · exact (byte_congr (get?_put_of_ne hcount _)).trans hmap

/-- Writes to a mapping leave the assignment alone. -/
theorem byte_assign_written {ws : List Write} (hne : pdo.index ≠ pdo.assign)
    (hws : ∀ w ∈ ws, w.address.index = pdo.index) :
    (written d ws).byte ⟨pdo.assign, 0⟩ = d.byte ⟨pdo.assign, 0⟩ := by
  refine byte_congr (get?_written fun w hw haddress => hne ?_)
  rw [← hws w hw, haddress]

/-- A mapping that nothing assigns can be disabled, written and enabled again. -/
theorem taken_mappingWrites (hpdo : pdo = .receive ∨ pdo = .transmit)
    (hroom : d.Room pdo target.length) (hfew : target.length ≤ Pdo.maxEntries)
    (hassign : d.byte ⟨pdo.assign, 0⟩ = 0) : Taken d (mappingWrites pdo.index target) := by
  have hne := index_ne_assign hpdo
  have hlength : 1 + target.length ≤ 256 := by
    unfold Pdo.maxEntries at hfew
    omega
  have hcount (ws : List Write) : ((written d ws).get? ⟨pdo.index, 0⟩).isSome :=
    isSome_written (hroom.map 0 (Nat.zero_le _))
  unfold mappingWrites
  rw [taken_append]
  refine ⟨⟨takes_map hpdo (hcount []) hassign (.inl rfl), ?_⟩, ?_, trivial⟩
  · refine taken_entryWrites (n := 1) hpdo Nat.one_pos hlength ?_ ?_ (byte_put 0)
    · exact fun i _ hi => isSome_put (hroom.map i (by omega))
    · refine (byte_congr (get?_put_of_ne (fun h => hne ?_) _)).trans hassign
      exact (congrArg Address.index h).symm
  · refine takes_map hpdo (hcount _) ?_ (.inl rfl)
    refine (byte_assign_written hne fun w hw => ?_).trans hassign
    exact mappingWrites_index (List.mem_append_left _ hw)

/-- All writes of a plan are taken. -/
theorem taken_plan (hpdo : pdo = .receive ∨ pdo = .transmit) (hroom : d.Room pdo target.length)
    (hfew : target.length ≤ Pdo.maxEntries) : Taken d (plan pdo target assignment) := by
  have hdisabled : (d.put ⟨pdo.assign, 0⟩ (Packed.bytes (0 : UInt8))).Room pdo target.length :=
    ⟨isSome_put hroom.assign, fun i hi => isSome_put (hroom.map i hi)⟩
  unfold plan
  rw [taken_append]
  refine ⟨⟨takes_assign hpdo hroom.assign, ?_⟩, takes_assign hpdo ?_, trivial⟩
  · exact taken_mappingWrites hpdo hdisabled hfew (byte_put 0)
  · exact isSome_written hroom.assign

/-- The items that a mapping of some entries and its assignment take. -/
def Involved (pdo : Pdo) (entries : Nat) (a : Address) : Prop :=
  a = ⟨pdo.assign, 0⟩ ∨ ∃ i, i ≤ entries ∧ a = ⟨pdo.index, .ofNat i⟩

/-- A negotiation writes to the items of its own mapping and assignment only. -/
theorem plan_involved {w : Write} (hw : w ∈ plan pdo target assignment) :
    Involved pdo target.length w.address := by
  unfold plan mappingWrites at hw
  simp only [List.mem_append, List.mem_cons, List.not_mem_nil, or_false] at hw
  rcases hw with (rfl | (rfl | hentry) | rfl) | rfl
  · exact .inl rfl
  · exact .inr ⟨0, Nat.zero_le _, rfl⟩
  · obtain ⟨i, -, hlt, haddress⟩ := entryWrites_address (n := 1) hentry
    exact .inr ⟨i, by omega, haddress⟩
  · exact .inr ⟨0, Nat.zero_le _, rfl⟩
  · exact .inl rfl

/-- A fault carries the step at which it happened. -/
theorem leads_attempt {step : Step} {p : BusProgram (Except Bus.Fault α)}
    {r : Except Bus.Fault α} (hp : Segment.Leads P p r Q) :
    Segment.Leads P (attempt map step p).run (r.mapError (.failed map step)) Q :=
  hp.bind (Segment.leads_pure _)

/-- Writes that are taken leave what they write. -/
theorem leads_carryOut {ws : List Write} (m : Mailbox k .preOperational)
    (hgranted : ∀ w ∈ ws, m.Grants w.address) (htaken : Taken d ws) :
    m.Leads d (carryOut k map ws).run (.ok ()) (written d ws) := by
  induction ws generalizing d with
  | nil => exact Segment.leads_pure _
  | cons w ws ih =>
    obtain ⟨hw, hrest⟩ := htaken
    obtain ⟨hfirst, hothers⟩ := List.forall_mem_cons.1 hgranted
    exact (leads_attempt (m.write hfirst hw w.data)).bindOk (ih hothers hrest)

-- ============================================================== the whole

/-- What a negotiation that rewrites leaves of a dictionary. -/
def rewritten (d : Dictionary) (pdo : Pdo) (target : List Pdo.Entry) : Dictionary :=
  written d (plan pdo target (restored (.ok (d.byte ⟨pdo.assign, 0⟩))))

/-- How a negotiation succeeds. -/
def outcomeOn (d : Dictionary) (pdo : Pdo) (target : List Pdo.Entry) : Outcome :=
  if Current d pdo.index target then .unchanged else .applied

/-- The dictionary after a negotiation that succeeds. -/
def settled (d : Dictionary) (pdo : Pdo) (target : List Pdo.Entry) : Dictionary :=
  if Current d pdo.index target then d else rewritten d pdo target

theorem not_shownMode (hpdo : pdo = .receive ∨ pdo = .transmit) :
    pdo.index ≠ 0x6061 ∧ pdo.assign ≠ 0x6061 := by
  rcases hpdo with rfl | rfl <;> decide

/-- A target that fits its limits is not refused for its size. -/
theorem not_tooLarge (hfew : target.length ≤ Pdo.maxEntries)
    (hcapacity : ∀ room, capacity = some room → Pdo.totalBits target ≤ room) :
    ¬ TooLarge target capacity := by
  rintro (hmany | ⟨room, hroom, hlarge⟩)
  · exact Nat.not_lt.2 hfew hmany
  · exact Nat.not_lt.2 (hcapacity room hroom) hlarge

/-- The assignment to restore is the one that is there. -/
theorem leads_assignmentToRestore (m : Mailbox k al) (hassign : pdo.assign ≠ 0x6061)
    (hpresent : (d.get? ⟨pdo.assign, 0⟩).isSome) :
    m.Leads d (assignmentToRestore k pdo.assign)
      (restored (.ok (d.byte ⟨pdo.assign, 0⟩))) d := by
  unfold assignmentToRestore
  exact (m.leads_count hassign hpresent).bind (Segment.leads_pure _)

/-- With all its writes taken, a replacement succeeds and leaves the plan carried out. -/
theorem leads_replace (m : Mailbox k .preOperational) (hpdo : pdo = .receive ∨ pdo = .transmit)
    (hgranted : ∀ a, Involved pdo target.length a → m.Grants a)
    (hroom : d.Room pdo target.length) (hfew : target.length ≤ Pdo.maxEntries) :
    m.Leads d (replace k pdo target).run (.ok ()) (rewritten d pdo target) := by
  obtain ⟨hindex, hassign⟩ := not_shownMode hpdo
  have hcarried : m.Leads d (carryOut k pdo.index (plan pdo target
      (restored (.ok (d.byte ⟨pdo.assign, 0⟩))))).run (.ok ()) (rewritten d pdo target) :=
    leads_carryOut m (fun _ hw => hgranted _ (plan_involved hw)) (taken_plan hpdo hroom hfew)
  have hlength : (rewritten d pdo target).byte ⟨pdo.index, 0⟩ = .ofNat target.length :=
    byte_map_plan _ (index_ne_assign hpdo)
  have hread : m.Leads (rewritten d pdo target) ((count pdo.index).read k)
      (.ok (.ofNat target.length)) (rewritten d pdo target) := by
    rw [← hlength]
    exact m.leads_count hindex (isSome_written (hroom.map 0 (Nat.zero_le _)))
  rw [replace_eq]
  refine (leads_assignmentToRestore m hassign hroom.assign).lift.bindOk ?_
  refine hcarried.bindOk ((leads_attempt hread).bindOk ?_)
  rw [if_neg (not_not_intro rfl)]
  exact Segment.leads_pure _

section

variable (m : Mailbox k .preOperational) (hpdo : pdo = .receive ∨ pdo = .transmit)
  (hroom : d.Room pdo target.length) (hfits : ¬ TooLarge target capacity)
include hpdo hroom hfits

/-- A mapping that is there already is left as it is. -/
theorem leads_negotiate_current (hcurrent : Current d pdo.index target) :
    m.Leads d (negotiate k pdo target capacity) (.ok .unchanged) d := by
  have hfew : target.length ≤ Pdo.maxEntries := Nat.not_lt.1 fun hmany => hfits (.inl hmany)
  have hlook := leads_isCurrent m (not_shownMode hpdo).1 hroom hfew
  rw [decide_eq_true hcurrent] at hlook
  unfold negotiate
  dsimp only
  rw [if_neg fun hlarge => hfits (tooLarge_iff.2 hlarge)]
  exact hlook.bind (Segment.leads_pure _)

/-- Any other one is rewritten. -/
theorem leads_negotiate_other (hgranted : ∀ a, Involved pdo target.length a → m.Grants a)
    (hother : ¬ Current d pdo.index target) :
    m.Leads d (negotiate k pdo target capacity) (.ok .applied) (rewritten d pdo target) := by
  have hfew : target.length ≤ Pdo.maxEntries := Nat.not_lt.1 fun hmany => hfits (.inl hmany)
  have hlook := leads_isCurrent m (not_shownMode hpdo).1 hroom hfew
  rw [decide_eq_false hother] at hlook
  unfold negotiate
  dsimp only
  rw [if_neg fun hlarge => hfits (tooLarge_iff.2 hlarge)]
  refine hlook.bind ?_
  exact (leads_replace m hpdo hgranted hroom hfew).bind (Segment.leads_pure _)

/-- A negotiation succeeds, and writes nothing where the mapping is there already. -/
theorem leads_negotiate_settled (hgranted : ∀ a, Involved pdo target.length a → m.Grants a) :
    m.Leads d (negotiate k pdo target capacity) (.ok (outcomeOn d pdo target))
      (settled d pdo target) := by
  unfold outcomeOn settled
  by_cases hcurrent : Current d pdo.index target
  · rw [if_pos hcurrent, if_pos hcurrent]
    exact leads_negotiate_current m hpdo hroom hfits hcurrent
  · rw [if_neg hcurrent, if_neg hcurrent]
    exact leads_negotiate_other m hpdo hroom hfits hgranted hcurrent

end

/-- On a line in pre-operational a negotiation succeeds, and leaves the dictionary settled.
-/
theorem leads_negotiate (hk : l.Has k) (hstate : l.al k = .preOperational)
    (hpdo : pdo = .receive ∨ pdo = .transmit) (hroom : (l.dictionary k).Room pdo target.length)
    (hfew : target.length ≤ Pdo.maxEntries) :
    l.Leads (negotiate k pdo target none) (.ok (outcomeOn (l.dictionary k) pdo target))
      (l.store k (settled (l.dictionary k) pdo target)) := by
  have hfits : ¬ TooLarge target none := not_tooLarge hfew nofun
  have hmailbox := leads_negotiate_settled (l.mailbox hk hstate (by decide)) hpdo hroom hfits
    fun _ _ => trivial
  exact Line.leads_of_mailbox hmailbox

-- ======================================================== what is left

/-- Once settled, the mapping is current. -/
theorem settled_current (hne : pdo.index ≠ pdo.assign) (hfew : target.length ≤ Pdo.maxEntries) :
    Current (settled d pdo target) pdo.index target := by
  unfold settled
  split
  next hcurrent => exact hcurrent
  next => exact ⟨byte_map_plan d hne, mapping_plan d hne hfew⟩

/-- Once settled, the mapping is the target entry by entry. -/
theorem settled_mapping (hne : pdo.index ≠ pdo.assign) (hfew : target.length ≤ Pdo.maxEntries) :
    (settled d pdo target).mapping pdo.index = target :=
  (settled_current hne hfew).2

/-- An item that the mapping does not take is not changed. -/
theorem get?_settled_of_not_involved {a : Address} (h : ¬ Involved pdo target.length a) :
    (settled d pdo target).get? a = d.get? a := by
  unfold settled
  split
  next => rfl
  next => exact get?_written fun w hw haddress => h (haddress ▸ plan_involved hw)

/-- Only the mapping and its assignment are written. -/
theorem get?_settled {a : Address} (hindex : a.index ≠ pdo.index) (hassign : a.index ≠ pdo.assign) :
    (settled d pdo target).get? a = d.get? a := by
  apply get?_settled_of_not_involved
  rintro (rfl | ⟨i, -, rfl⟩)
  · exact hassign rfl
  · exact hindex rfl

/-- The mapping is exchanged afterwards, if its assignment was made for it. -/
theorem settled_exchanges (hne : pdo.index ≠ pdo.assign) (hfew : target.length ≤ Pdo.maxEntries)
    (hlists : d.Lists pdo) (hone : d.byte ⟨pdo.assign, 0⟩ = 1) :
    (settled d pdo target).Exchanges pdo target := by
  unfold settled
  split
  next hcurrent => exact ⟨hlists, .inl ⟨hone, hcurrent.2⟩⟩
  next =>
    unfold rewritten
    rw [hone]
    exact exchanges_plan hne hfew hlists

end Negotiation

end Servo
