/-
Negotiating a mapping with a simulated slave, and negotiating it again.

Whatever the items of a mapping held before, a slave in its pre-operational state has the
wanted one afterwards, and has it for good: reading it back gives the wanted entries, and
negotiating it again writes nothing (`negotiate_settles`). It does not matter how long the
items are, or what the number of entries says. A mapping is taken for the wanted one only
if it says so and each of its entries does, and any other one is written item by item.

Nothing else is changed. The segment is as before but for the dictionary of the slave
(`Segment.Rewritten`), and the dictionary is as before but for the items of the plan
(`Involved`); the assignment ends with the number it had, unless that was 0.
-/
import Servo.Proofs.Simulation.Rewriting

namespace Servo.Negotiation

open Simulation (Dictionary Mailbox Segment Slave)
open Simulation.Dictionary

variable {k : UInt16} {al : AlState} {d : Dictionary} {map : UInt16} {pdo : Pdo}
  {target : List Pdo.Entry} {capacity : Option Nat} {a : Address}

-- ========================================================= reading back

theorem mapping_eq_range' (d : Dictionary) (map : UInt16) :
    d.mapping map = (List.range' 1 (min (d.byte ⟨map, 0⟩).toNat Pdo.maxEntries)).map
      fun i => d.entryAt ⟨map, .ofNat i⟩ := by
  rw [List.range'_eq_map_range, List.map_map]
  refine List.map_congr_left fun i _ => ?_
  rw [Function.comp_apply, Nat.add_comm]
  rfl

theorem leads_entries {n count : Nat} (m : Mailbox k al) (hmap : map ≠ 0x6061)
    (hpresent : ∀ i, n ≤ i → i < n + count → (d.get? ⟨map, .ofNat i⟩).isSome) :
    m.Leads d (entries k map (.ofNat n) count).run
      (.ok ((List.range' n count).map fun i => d.entryAt ⟨map, .ofNat i⟩)) d := by
  induction count generalizing n with
  | zero => exact Segment.leads_pure _
  | succ count ih =>
    have hsub : UInt8.ofNat n + 1 = .ofNat (n + 1) := (UInt8.ofNat_add n 1).symm
    have hentry := m.leads_entry hmap (hpresent n (Nat.le_refl n) (by omega))
    have hrest := ih (n := n + 1) fun i hle hlt => hpresent i (by omega) (by omega)
    unfold entries
    rw [hsub, List.range'_succ, List.map_cons]
    exact (leads_attempt hentry).bindOk (hrest.bindOk (Segment.leads_pure _))

/-- A mapping is described as the slave has it. -/
theorem leads_describe (m : Mailbox k al) (hmap : map ≠ 0x6061)
    (hpresent : ∀ i, i ≤ (d.mapping map).length → (d.get? ⟨map, .ofNat i⟩).isSome) :
    m.Leads d (describe k map) (.ok (d.mapping map)) d := by
  have hlength : (d.mapping map).length = min (d.byte ⟨map, 0⟩).toNat Pdo.maxEntries := by
    simp [Dictionary.mapping]
  rw [hlength] at hpresent
  have hcount := m.leads_count hmap (hpresent 0 (Nat.zero_le _))
  rw [mapping_eq_range']
  refine (leads_attempt hcount).bindOk (leads_entries (n := 1) m hmap fun i _ hi => ?_)
  exact hpresent i (by omega)

-- ============================================================= keeping

/-- No item is removed. -/
theorem isSome_settled (h : (d.get? a).isSome) : ((settled d pdo target).get? a).isSome := by
  unfold settled
  split
  next => exact h
  next => exact isSome_written h

theorem room_settled {entries : Nat} (h : d.Room pdo entries) :
    (settled d pdo target).Room pdo entries :=
  ⟨isSome_settled h.assign, fun i hi => isSome_settled (h.map i hi)⟩

/-- An assignment that was not disabled is restored. -/
theorem byte_assign_settled (h : d.byte ⟨pdo.assign, 0⟩ ≠ 0) :
    (settled d pdo target).byte ⟨pdo.assign, 0⟩ = d.byte ⟨pdo.assign, 0⟩ := by
  unfold settled
  split
  next => rfl
  next =>
    have hrestored : restored (.ok (d.byte ⟨pdo.assign, 0⟩)) = d.byte ⟨pdo.assign, 0⟩ := if_neg h
    exact (byte_assign_plan d).trans hrestored

/-- An assignment that is one byte long is the same item then. -/
theorem get?_assign_settled {b : UInt8} (hitem : d.get? ⟨pdo.assign, 0⟩ = some [b]) (hb : b ≠ 0) :
    (settled d pdo target).get? ⟨pdo.assign, 0⟩ = some [b] := by
  have hbyte : d.byte ⟨pdo.assign, 0⟩ = b := by
    unfold Dictionary.byte
    rw [hitem]
    rfl
  have hrestored : restored (.ok (d.byte ⟨pdo.assign, 0⟩)) = b := by
    rw [hbyte]
    exact if_neg hb
  unfold settled
  split
  next => exact hitem
  next =>
    unfold rewritten
    rw [hrestored, written_plan, get?_put_self]
    exact congrArg (fun b => some [b]) UInt8.ofNat_toNat

-- ============================================================== settling

/-- What a negotiation leaves of a segment and of the slave. -/
structure Settles (g : Segment) (k : UInt16) (s : Slave) (pdo : Pdo) (target : List Pdo.Entry)
    (capacity : Option Nat) (g' : Segment) (s' : Slave) : Prop where
  slave : g'.slave? k = some s'
  mapping : s'.dictionary.mapping pdo.index = target
  described : ∃ g'', g'.Ends (describe k pdo.index) (.ok target) g'' ∧ g''.writes = g'.writes
  /-- Negotiating again finds the mapping there, and writes nothing. -/
  again : ∃ g'', g'.Ends (negotiate k pdo target capacity) (.ok .unchanged) g''
    ∧ g''.writes = g'.writes ∧ g''.slaves = g'.slaves
  /-- The rest of the segment is as it was, and only the items were written to. -/
  only : g.Rewritten k s (Involved pdo target.length) s'.dictionary g'
  bystander {j : UInt16} : j ≠ k → g'.slave? j = g.slave? j
  rest : s' = { s with dictionary := s'.dictionary }
  others {a : Address} :
    ¬ Involved pdo target.length a → s'.dictionary.get? a = s.dictionary.get? a
  assignment : s.dictionary.byte ⟨pdo.assign, 0⟩ ≠ 0 →
    s'.dictionary.byte ⟨pdo.assign, 0⟩ = s.dictionary.byte ⟨pdo.assign, 0⟩
  assignmentItem {b : UInt8} : s.dictionary.get? ⟨pdo.assign, 0⟩ = some [b] → b ≠ 0 →
    s'.dictionary.get? ⟨pdo.assign, 0⟩ = some [b]

/-- A negotiation with a slave in its pre-operational state that has the items, and whose
writes to them are not made to fail, succeeds and settles the mapping. -/
theorem negotiate_settles {g : Segment} {s : Slave} (hpdo : pdo = .receive ∨ pdo = .transmit)
    (hfind : g.find k = .ok s) (hstate : s.al = .preOperational)
    (hroom : s.dictionary.Room pdo target.length) (hfew : target.length ≤ Pdo.maxEntries)
    (hcapacity : ∀ room, capacity = some room → Pdo.totalBits target ≤ room)
    (htakes : ∀ a, Involved pdo target.length a → a ∉ g.failingWrites) :
    ∃ outcome g' s', g.Ends (negotiate k pdo target capacity) (.ok outcome) g'
      ∧ Settles g k s pdo target capacity g' s' := by
  have hfits : ¬ TooLarge target capacity := not_tooLarge hfew hcapacity
  have hne := index_ne_assign hpdo
  have hindex := (not_shownMode hpdo).1
  -- with the writes to the items granted
  let writer := g.mailbox (Involved pdo target.length) hfind hstate (by decide) htakes
  have hnegotiated := leads_negotiate_settled writer hpdo hroom hfits fun _ ha => ha
  obtain ⟨g', hends, hsettled⟩ := Segment.ends_of_mailbox hnegotiated
  -- and then with none
  let s' : Slave := { s with dictionary := settled s.dictionary pdo target }
  have hfind' : g'.find k = .ok s' := hsettled.find hfind
  have hroom' : s'.dictionary.Room pdo target.length := room_settled hroom
  have hcurrent : Current s'.dictionary pdo.index target := settled_current hne hfew
  let reader := g'.reader hfind' hstate (by decide)
  have hagain := leads_negotiate_current reader hpdo hroom' hfits hcurrent
  have hdescribed := leads_describe reader hindex fun i hi =>
    hroom'.map i (by rwa [hcurrent.2] at hi)
  rw [hcurrent.2] at hdescribed
  obtain ⟨g₂, hends₂, hwrites, -⟩ := Segment.ends_of_reader hdescribed
  refine ⟨_, g', s', hends, ?_⟩
  constructor
  case slave => exact Segment.find_eq_ok hfind'
  case mapping => exact hcurrent.2
  case described => exact ⟨g₂, hends₂, hwrites⟩
  case again => exact Segment.ends_of_reader hagain
  case only => exact hsettled
  case bystander => exact hsettled.slave?_of_ne (Segment.find_eq_ok hfind)
  case rest => rfl
  case others => exact get?_settled_of_not_involved
  case assignment => exact byte_assign_settled
  case assignmentItem => exact get?_assign_settled

/-- A receive mapping that nobody keeps in order: the number of its entries is stale and more
than there can be, one entry is empty and one too long, and the assignment counts other
objects as well. -/
def staleDictionary : Dictionary :=
  ((((Dictionary.initial.put ⟨Pdo.receive.index, 0⟩ [200, 7]).put ⟨Pdo.receive.index, 1⟩ []).put
    ⟨Pdo.receive.index, 2⟩ [1, 2, 3, 4, 5, 6]).put ⟨Pdo.receive.assign, 0⟩ [3, 9])

/-- It is that of the second drive of a segment, where a write to another item fails. -/
def staleSegment : Segment :=
  { slaves := [{}, { al := .preOperational, dictionary := staleDictionary }]
    discovered := true
    failingWrites := [⟨0x6060, 0⟩] }

def staleTarget : List Pdo.Entry := [⟨0x60400010⟩, ⟨0x60710010⟩]

theorem stale_room : staleDictionary.Room .receive staleTarget.length where
  assign := by decide
  map i hi := by
    have hitems : ∀ i, i < 3 → (staleDictionary.get? ⟨Pdo.receive.index, .ofNat i⟩).isSome := by
      decide
    exact hitems i (Nat.lt_succ_of_le hi)

theorem stale_takes (a : Address) (ha : Involved .receive staleTarget.length a) :
    a ∉ staleSegment.failingWrites := by
  intro hfails
  obtain rfl := List.mem_singleton.1 hfails
  rcases ha with ha | ⟨i, -, ha⟩
  · exact absurd (congrArg Address.index ha) (by decide)
  · have hindex : (0x6060 : UInt16) = Pdo.receive.index := congrArg Address.index ha
    exact absurd hindex (by decide)

theorem negotiate_settles_stale : ∃ s, staleSegment.find 2 = .ok s
    ∧ s.dictionary = staleDictionary ∧ ∃ outcome g' s',
      staleSegment.Ends (negotiate 2 .receive staleTarget (some 32)) (.ok outcome) g'
        ∧ Settles staleSegment 2 s .receive staleTarget (some 32) g' s' := by
  refine ⟨_, rfl, rfl, negotiate_settles (.inl rfl) rfl rfl stale_room (by decide) ?_ stale_takes⟩
  rintro room hroom
  obtain rfl := Option.some.inj hroom
  decide

end Servo.Negotiation
