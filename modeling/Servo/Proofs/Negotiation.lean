/-
What a negotiation makes of a dictionary.

Replacing a mapping is carrying out a plan of writes, up to the first that fails
(`replace_eq`, `runs_carryOut`). All of them but the first and the last are made
while the assignment is disabled. So a drive that lists no other mapping has its own
before the first write, none until the last, and the wanted one after that
(`negotiate_exchanges`), whichever write fails.
-/
import Servo.Proofs.Requests
import Servo.Proofs.Simulation.Dictionary

namespace Servo.Negotiation

open Program
open Simulation (Dictionary)
open Simulation.Dictionary (Writes Told)

variable {α : Type} {k map : UInt16} {pdo : Pdo} {target : List Pdo.Entry} {step : Step}
  {assignment : UInt8} {d : Dictionary} {t : Bus.interface.Trace}

-- ============================================================== the plan

/-- A write, and the step that it is. -/
structure Write where
  step : Step
  address : Address
  data : Bytes

def entryWrites (map : UInt16) : UInt8 → List Pdo.Entry → List Write
  | _, [] => []
  | sub, value :: rest =>
    ⟨.writeEntry sub, ⟨map, sub⟩, Packed.bytes value⟩ :: entryWrites map (sub + 1) rest

/-- The writes between disabling the assignment and restoring it. -/
def mappingWrites (map : UInt16) (target : List Pdo.Entry) : List Write :=
  ⟨.disableMapping, ⟨map, 0⟩, Packed.bytes (0 : UInt8)⟩ :: entryWrites map 1 target
    ++ [⟨.enableMapping, ⟨map, 0⟩, Packed.bytes (UInt8.ofNat target.length)⟩]

/-- The writes that replace a mapping, with the assignment to restore. -/
def plan (pdo : Pdo) (target : List Pdo.Entry) (assignment : UInt8) : List Write :=
  ⟨.disableAssignment, ⟨pdo.assign, 0⟩, Packed.bytes (0 : UInt8)⟩ :: mappingWrites pdo.index target
    ++ [⟨.restoreAssignment, ⟨pdo.assign, 0⟩, Packed.bytes assignment⟩]

def carryOut (slave map : UInt16) : List Write → ExceptT Error BusProgram Unit
  | [] => return
  | w :: rest => do
    attempt map w.step (Bus.sdoWrite slave w.address w.data)
    carryOut slave map rest

/-- A plan in two parts is carried out one part after the other. -/
theorem carryOut_append (ws ws' : List Write) :
    carryOut k map (ws ++ ws') = carryOut k map ws >>= fun _ => carryOut k map ws' := by
  induction ws with
  | nil => rfl
  | cons w ws ih =>
    rw [List.cons_append]
    simp only [carryOut, LawfulMonad.bind_assoc, ih]

/-- Writing the entries of a target is carrying out the writes of them. -/
theorem writeEntries_eq (sub : UInt8) :
    writeEntries k map sub target = carryOut k map (entryWrites map sub target) := by
  induction target generalizing sub with
  | nil => rfl
  | cons value rest ih =>
    unfold writeEntries
    rw [ih]
    rfl

/-- A mapping is replaced by carrying out the plan, and verified. -/
theorem replace_eq : replace k pdo target = (do
    let assignment ← assignmentToRestore k pdo.assign
    carryOut k pdo.index (plan pdo target assignment)
    let found ← attempt pdo.index .verify ((count pdo.index).read k)
    if found ≠ .ofNat target.length then
      throw (.unverified pdo.index (.ofNat target.length) found)) := by
  unfold replace plan mappingWrites
  simp only [List.cons_append, carryOut, carryOut_append, writeEntries_eq,
    LawfulMonad.bind_assoc, LawfulMonad.pure_bind]
  rfl

-- ======================================================== carrying it out

/-- The event of a write that was taken. -/
def Write.taken (slave : UInt16) (w : Write) : Bus.interface.Event :=
  ⟨.sdoWrite slave w.address w.data, .ok ()⟩

def Write.refused (slave : UInt16) (w : Write) (fault : Bus.Fault) : Bus.interface.Event :=
  ⟨.sdoWrite slave w.address w.data, .error fault⟩

theorem runs_attempt_iff {p : BusProgram (Except Bus.Fault α)} {r : Except Error α} :
    Runs (attempt map step p).run t r
      ↔ ∃ r', r = r'.mapError (.failed map step) ∧ Runs p t r' :=
  runs_bind_pure_iff

/-- Either all writes are taken, or the first one that is not fails the step. -/
theorem runs_carryOut {ws : List Write} {r : Except Error Unit}
    (h : Runs (carryOut k map ws).run t r) :
    r = .ok () ∧ t = ws.map (Write.taken k)
      ∨ ∃ done w rest fault, ws = done ++ w :: rest ∧ r = .error (.failed map w.step fault)
        ∧ t = done.map (Write.taken k) ++ [w.refused k fault] := by
  induction ws generalizing t r with
  | nil =>
    obtain ⟨rfl, rfl⟩ := runs_pure_iff.1 h
    exact .inl ⟨rfl, rfl⟩
  | cons w ws ih =>
    unfold carryOut at h
    rw [ExceptT.run_bind] at h
    obtain ⟨u, r', v, rfl, hattempt, hrest⟩ := runs_bind_iff.1 h
    obtain ⟨answer, rfl, hwrite⟩ := runs_attempt_iff.1 hattempt
    obtain rfl := runs_request_done_iff.1 hwrite
    cases answer with
    | error fault =>
      obtain ⟨rfl, rfl⟩ := runs_pure_iff.1 hrest
      exact .inr ⟨[], w, ws, fault, rfl, rfl, rfl⟩
    | ok =>
      rcases ih hrest with ⟨rfl, rfl⟩ | ⟨done, w', rest, fault, rfl, rfl, rfl⟩
      · exact .inl ⟨rfl, rfl⟩
      · exact .inr ⟨w :: done, w', rest, fault, rfl, rfl, rfl⟩

-- ================================================================ reading

/-- An object that was read is in the dictionary. -/
theorem read_told [Packed α] {object : DataObject α} {v : α} (h : Runs (object.read k) t (.ok v))
    (htold : Told k d t) (ha : object.address.index ≠ 0x6061) :
    ∃ item, d.get? object.address = some item
      ∧ Packed.ofWord (Bytes.toNat (item.take (Packed.size α))) = .ok v := by
  obtain ⟨answer, rfl, hv⟩ := DataObject.runs_read_iff.1 h
  cases answer with
  | error fault => cases hv
  | ok received =>
    obtain ⟨item, hitem, rfl⟩ := htold.1 rfl ha
    refine ⟨item, hitem, ?_⟩
    dsimp only [Except.bind] at hv
    rw [Packed.unpack_fit_take] at hv
    cases hofWord : Packed.ofWord (α := α) (Bytes.toNat (item.take (Packed.size α))) with
    | error e =>
      rw [hofWord] at hv
      cases hv
    | ok w =>
      rw [hofWord] at hv
      cases hv
      rfl

/-- A count that was read is the first byte of its item. -/
theorem read_count {index : UInt16} {found : UInt8} (h : Runs ((count index).read k) t (.ok found))
    (htold : Told k d t) (hindex : index ≠ 0x6061) : found = d.byte ⟨index, 0⟩ := by
  obtain ⟨item, hitem, hword⟩ := read_told h htold hindex
  have hitem : d.get? ⟨index, 0⟩ = some item := hitem
  cases hword
  exact Dictionary.ofNat_take_one hitem

/-- An entry that was read is the one that its item holds. -/
theorem read_entry {index : UInt16} {sub : UInt8} {found : Pdo.Entry}
    (h : Runs ((entry index sub).read k) t (.ok found)) (htold : Told k d t)
    (hindex : index ≠ 0x6061) : found = d.entryAt ⟨index, sub⟩ := by
  obtain ⟨item, hitem, hword⟩ := read_told h htold hindex
  have hitem : d.get? ⟨index, sub⟩ = some item := hitem
  cases hword
  unfold Dictionary.entryAt
  rw [hitem]
  rfl

/-- A program that only reads leaves the dictionary as it is. -/
theorem after_of_reads {p : BusProgram α} {v : α}
    (hp : p.Only (Writes fun _ => False)) (h : Runs p t v) : d.after k t = d :=
  Dictionary.after_eq_self (hp.of_runs h)

/-- Something is read, and nothing else is done unless it is as wanted. -/
def ifWanted [DecidableEq α] (read : BusProgram (Except Bus.Fault α)) (wanted : α)
    (p : BusProgram Bool) : BusProgram Bool := do
  match ← read with
  | .ok found => if found = wanted then p else return false
  | .error _ => return false

/-- A target holds if its first entry is there and the rest holds. -/
theorem holds_cons {sub : UInt8} {wanted : Pdo.Entry} {rest : List Pdo.Entry} :
    holds k map sub (wanted :: rest)
      = ifWanted ((entry map sub).read k) wanted (holds k map (sub + 1) rest) := by
  conv => lhs; unfold holds
  unfold ifWanted
  congr 1
  funext r
  cases r <;> rfl

/-- A mapping is current if its count is right and its entries hold. -/
theorem isCurrent_eq :
    isCurrent k map target
      = ifWanted ((count map).read k) (.ofNat target.length) (holds k map 1 target) := by
  unfold isCurrent ifWanted
  congr 1
  funext r
  cases r <;> rfl

/-- Behind a comparison that fails nothing is requested any more. -/
theorem runs_ifWanted_iff [DecidableEq α] {read : BusProgram (Except Bus.Fault α)} {wanted : α}
    {p : BusProgram Bool} {b : Bool} :
    Runs (ifWanted read wanted p) t b
      ↔ ∃ u r v, t = u ++ v ∧ Runs read u r
        ∧ (r = .ok wanted ∧ Runs p v b ∨ r ≠ .ok wanted ∧ v = [] ∧ b = false) := by
  unfold ifWanted
  rw [runs_bind_iff]
  refine exists_congr fun u => exists_congr fun r => exists_congr fun v =>
    and_congr_right fun _ => and_congr_right fun _ => ?_
  cases r with
  | error fault => simp
  | ok found =>
    dsimp only
    split
    next hfound => simp [hfound]
    next hfound => simp [hfound]

/-- Entries that were found to hold are in the dictionary. -/
theorem holds_told {sub : UInt8} (h : Runs (holds k map sub target) t true) (htold : Told k d t)
    (hmap : map ≠ 0x6061) :
    ∀ i (hi : i < target.length), d.entryAt ⟨map, sub + .ofNat i⟩ = target[i] := by
  induction target generalizing sub t with
  | nil => exact fun i hi => absurd hi (Nat.not_lt_zero i)
  | cons wanted rest ih =>
    rw [holds_cons] at h
    obtain ⟨u, answer, v, rfl, hread, ⟨rfl, hrest⟩ | ⟨-, -, hr⟩⟩ := runs_ifWanted_iff.1 h
    · obtain ⟨htoldRead, htoldRest⟩ := Dictionary.told_append.1 htold
      rw [after_of_reads (DataObject.only_read fun _ _ => trivial) hread] at htoldRest
      have hfound := read_entry hread htoldRead hmap
      intro i hi
      cases i with
      | zero =>
        show d.entryAt ⟨map, sub + 0⟩ = wanted
        rw [UInt8.add_zero, ← hfound]
      | succ i =>
        have hentry := ih hrest htoldRest i (Nat.lt_of_succ_lt_succ hi)
        rw [UInt8.add_assoc, UInt8.add_comm 1] at hentry
        simpa using hentry
    · cases hr

/-- A mapping that is found to be the wanted one is. -/
theorem isCurrent_told (h : Runs (isCurrent k map target) t true) (htold : Told k d t)
    (hmap : map ≠ 0x6061) (hfew : target.length ≤ Pdo.maxEntries) : d.mapping map = target := by
  rw [isCurrent_eq] at h
  obtain ⟨u, answer, v, rfl, hread, ⟨rfl, hrest⟩ | ⟨-, -, hr⟩⟩ := runs_ifWanted_iff.1 h
  · obtain ⟨htoldRead, htoldRest⟩ := Dictionary.told_append.1 htold
    rw [after_of_reads (DataObject.only_read fun _ _ => trivial) hread] at htoldRest
    have hcount := read_count hread htoldRead hmap
    refine Dictionary.mapping_eq hcount.symm hfew fun i hi => ?_
    rw [← holds_told hrest htoldRest hmap i hi, UInt8.ofNat_add, UInt8.add_comm]
    rfl
  · cases hr

/-- An assignment of one object is restored as one. -/
theorem assignmentToRestore_told {assign : UInt16}
    (h : Runs (assignmentToRestore k assign) t assignment) (htold : Told k d t)
    (hassign : assign ≠ 0x6061) (hone : d.byte ⟨assign, 0⟩ = 1) : assignment = 1 := by
  unfold assignmentToRestore at h
  obtain ⟨u, answer, v, rfl, hread, hrest⟩ := runs_bind_iff.1 h
  cases answer with
  | error fault => exact (runs_pure_iff.1 hrest).2
  | ok current =>
    have hcurrent := read_count hread (Dictionary.told_append.1 htold).1 hassign
    obtain ⟨-, rfl⟩ := runs_pure_iff.1 hrest
    rw [hcurrent, hone]
    rfl

-- ================================================================ writing

/-- The dictionary after writes that were all taken. -/
def written (d : Dictionary) (ws : List Write) : Dictionary :=
  ws.foldl (fun d w => d.put w.address w.data) d

@[simp] theorem written_cons (w : Write) (ws : List Write) :
    written d (w :: ws) = written (d.put w.address w.data) ws := rfl

@[simp] theorem written_append (ws ws' : List Write) :
    written d (ws ++ ws') = written (written d ws) ws' := List.foldl_append

/-- Writes that are taken are in the dictionary afterwards. -/
theorem after_taken (ws : List Write) : d.after k (ws.map (Write.taken k)) = written d ws := by
  induction ws generalizing d with
  | nil => rfl
  | cons w ws ih =>
    have hnext : d.next k (w.taken k) = d.put w.address w.data := if_pos rfl
    rw [List.map_cons, Dictionary.after_cons, hnext, ih]
    rfl

/-- Nothing else is written. -/
theorem get?_written {ws : List Write} {a : Address} (h : ∀ w ∈ ws, w.address ≠ a) :
    (written d ws).get? a = d.get? a := by
  induction ws generalizing d with
  | nil => rfl
  | cons w ws ih =>
    obtain ⟨hw, hrest⟩ := List.forall_mem_cons.1 h
    rw [written_cons, ih hrest, Dictionary.get?_put, if_neg (Ne.symm hw)]

/-- The entries go to consecutive items of the mapping. -/
theorem entryWrites_address {n : Nat} {w : Write} (h : w ∈ entryWrites map (.ofNat n) target) :
    ∃ i, n ≤ i ∧ i < n + target.length ∧ w.address = ⟨map, .ofNat i⟩ := by
  induction target generalizing n with
  | nil => cases h
  | cons value rest ih =>
    rcases List.mem_cons.1 h with rfl | h
    · exact ⟨n, Nat.le_refl n, by simp, rfl⟩
    · have hsub : UInt8.ofNat n + 1 = .ofNat (n + 1) := (UInt8.ofNat_add n 1).symm
      rw [hsub] at h
      obtain ⟨i, hle, hlt, hi⟩ := ih h
      exact ⟨i, by omega, by rw [List.length_cons]; omega, hi⟩

/-- All writes between the two to the assignment are to the mapping. -/
theorem mappingWrites_index {w : Write} (h : w ∈ mappingWrites map target) :
    w.address.index = map := by
  rcases List.mem_append.1 h with h | h
  · rcases List.mem_cons.1 h with rfl | h
    · rfl
    · obtain ⟨i, -, -, hi⟩ := entryWrites_address (n := 1) h
      rw [hi]
  · obtain rfl := List.mem_singleton.1 h
    rfl

/-- Items of one object are apart as long as their numbers are bytes. -/
theorem subindex_ne {i n : Nat} (hlt : n < i) (hi : i < 256) :
    (⟨map, .ofNat i⟩ : Address) ≠ ⟨map, .ofNat n⟩ := by
  intro h
  have hsub : UInt8.ofNat i = UInt8.ofNat n := congrArg Address.sub h
  have hnat := congrArg UInt8.toNat hsub
  rw [UInt8.toNat_ofNat_of_lt' hi, UInt8.toNat_ofNat_of_lt' (Nat.lt_trans hlt hi)] at hnat
  omega

/-- Each entry is in its item once all are written: no write goes over an earlier one. -/
theorem entryAt_entryWrites (d : Dictionary) (map : UInt16) {n : Nat}
    (hroom : n + target.length ≤ 256) :
    ∀ i (hi : i < target.length),
      (written d (entryWrites map (.ofNat n) target)).entryAt ⟨map, .ofNat (n + i)⟩ = target[i] := by
  induction target generalizing d n with
  | nil => exact fun i hi => absurd hi (Nat.not_lt_zero i)
  | cons value rest ih =>
    rw [List.length_cons] at hroom
    have hsub : UInt8.ofNat n + 1 = .ofNat (n + 1) := (UInt8.ofNat_add n 1).symm
    intro i hi
    unfold entryWrites
    rw [written_cons, hsub]
    cases i with
    | zero =>
      -- the entries after it are written elsewhere
      have hkept : ∀ w ∈ entryWrites map (.ofNat (n + 1)) rest, w.address ≠ ⟨map, .ofNat n⟩ := by
        intro w hw
        obtain ⟨i, hle, hlt, haddress⟩ := entryWrites_address hw
        rw [haddress]
        exact subindex_ne hle (by omega)
      have hget := get?_written (d := d.put ⟨map, .ofNat n⟩ (Packed.bytes value)) hkept
      exact (Dictionary.entryAt_congr hget).trans (Dictionary.entryAt_put value)
    | succ i =>
      have hrest := ih (d.put ⟨map, .ofNat n⟩ (Packed.bytes value)) (n := n + 1) (by omega) i
        (Nat.lt_of_succ_lt_succ hi)
      rw [show n + (i + 1) = n + 1 + i by omega]
      exact hrest

/-- A mapping that was written is the wanted one. -/
theorem mapping_mappingWrites (d : Dictionary) (map : UInt16)
    (hfew : target.length ≤ Pdo.maxEntries) :
    (written d (mappingWrites map target)).mapping map = target := by
  have hroom : 1 + target.length ≤ 256 := by
    unfold Pdo.maxEntries at hfew
    omega
  unfold mappingWrites
  rw [written_append, written_cons]
  refine Dictionary.mapping_eq (Dictionary.byte_put _) hfew fun i hi => ?_
  have hne : (⟨map, .ofNat (i + 1)⟩ : Address) ≠ ⟨map, 0⟩ := subindex_ne i.succ_pos (by omega)
  have hentry := entryAt_entryWrites (d.put ⟨map, 0⟩ (Packed.bytes (0 : UInt8))) map hroom i hi
  rw [Nat.add_comm] at hentry
  exact (Dictionary.entryAt_congr (Dictionary.get?_put_of_ne hne _)).trans hentry

-- ============================================================ the mapping

/-- A plan writes to the mapping and to the count of the assignment only. -/
theorem plan_address {w : Write} (hw : w ∈ plan pdo target assignment) :
    w.address.index = pdo.index ∨ w.address = ⟨pdo.assign, 0⟩ := by
  rcases List.mem_append.1 hw with hw | hw
  · rcases List.mem_cons.1 hw with rfl | hw
    · exact .inr rfl
    · exact .inl (mappingWrites_index hw)
  · obtain rfl := List.mem_singleton.1 hw
    exact .inr rfl

/-- What a plan does not touch. -/
theorem get?_written_of_plan {ws : List Write} {a : Address}
    (hws : ∀ w ∈ ws, w ∈ plan pdo target assignment) (hindex : a.index ≠ pdo.index)
    (hassign : a ≠ ⟨pdo.assign, 0⟩) : (written d ws).get? a = d.get? a := by
  refine get?_written fun w hw haddress => ?_
  subst haddress
  rcases plan_address (hws w hw) with hmap | hcount
  · exact hindex hmap
  · exact hassign hcount

/-- The assignment goes on listing the mapping. -/
theorem lists_written {ws : List Write} (hne : pdo.index ≠ pdo.assign) (hlists : d.Lists pdo)
    (hws : ∀ w ∈ ws, w ∈ plan pdo target assignment) : (written d ws).Lists pdo :=
  hlists.congr (get?_written_of_plan hws hne.symm (by simp))

/-- From the first write of a plan up to the last, the assignment is disabled. -/
theorem byte_assign_of_refused {done rest : List Write} {w : Write} (hne : pdo.index ≠ pdo.assign)
    (hplan : plan pdo target assignment = done ++ w :: rest) (hsome : done ≠ []) :
    (written d done).byte ⟨pdo.assign, 0⟩ = 0 := by
  cases done with
  | nil => exact absurd rfl hsome
  | cons first done =>
    obtain ⟨rfl, hrest⟩ := List.cons.inj hplan
    replace hrest : mappingWrites pdo.index target ++ _ = done ++ w :: rest := hrest
    have hmiddle : mappingWrites pdo.index target = done ++ (w :: rest).dropLast := by
      have hlast := congrArg List.dropLast hrest
      rwa [List.dropLast_append_of_ne_nil (List.cons_ne_nil w rest), List.dropLast_concat] at hlast
    have hkept : ∀ w ∈ done, w.address ≠ ⟨pdo.assign, 0⟩ := by
      intro w hw hassign
      have hindex := mappingWrites_index (hmiddle ▸ List.mem_append_left _ hw)
      rw [hassign] at hindex
      exact hne hindex.symm
    rw [written_cons, Dictionary.byte_congr (get?_written hkept)]
    exact Dictionary.byte_put 0

/-- Up to the last write of a plan, the drive has its own mapping or none. -/
theorem exchanges_of_refused {done rest : List Write} {w : Write} (hne : pdo.index ≠ pdo.assign)
    (hlists : d.Lists pdo) (hplan : plan pdo target assignment = done ++ w :: rest) :
    done = [] ∨ (written d done).Exchanges pdo [] := by
  by_cases hnone : done = []
  · exact .inl hnone
  · have hdone : ∀ w ∈ done, w ∈ plan pdo target assignment := by
      intro w hw
      rw [hplan]
      exact List.mem_append_left _ hw
    exact .inr ⟨lists_written hne hlists hdone, .inr ⟨byte_assign_of_refused hne hplan hnone, rfl⟩⟩

/-- The plan, as what it leaves: the mapping written between two writes of the
assignment. -/
theorem written_plan (d : Dictionary) : written d (plan pdo target assignment)
    = (written (d.put ⟨pdo.assign, 0⟩ (Packed.bytes (0 : UInt8)))
        (mappingWrites pdo.index target)).put ⟨pdo.assign, 0⟩ (Packed.bytes assignment) := by
  unfold plan
  rw [List.cons_append, written_cons, written_append]
  rfl

/-- The last write of a plan restores the assignment. -/
theorem byte_assign_plan (d : Dictionary) :
    (written d (plan pdo target assignment)).byte ⟨pdo.assign, 0⟩ = assignment := by
  rw [written_plan]
  exact Dictionary.byte_put assignment

/-- The last write to the mapping gives it the count of the target. -/
theorem byte_map_plan (d : Dictionary) (hne : pdo.index ≠ pdo.assign) :
    (written d (plan pdo target assignment)).byte ⟨pdo.index, 0⟩ = .ofNat target.length := by
  have haddress : (⟨pdo.index, 0⟩ : Address) ≠ ⟨pdo.assign, 0⟩ := fun h =>
    hne (congrArg Address.index h)
  rw [written_plan, Dictionary.byte_congr (Dictionary.get?_put_of_ne haddress _)]
  unfold mappingWrites
  rw [written_append]
  exact Dictionary.byte_put (UInt8.ofNat target.length)

/-- Carried out in full, a plan leaves the target as the mapping. -/
theorem mapping_plan (d : Dictionary) (hne : pdo.index ≠ pdo.assign)
    (hfew : target.length ≤ Pdo.maxEntries) :
    (written d (plan pdo target assignment)).mapping pdo.index = target := by
  refine Eq.trans ?_ (mapping_mappingWrites (d.put ⟨pdo.assign, 0⟩ (Packed.bytes (0 : UInt8)))
    pdo.index hfew)
  rw [written_plan]
  refine Dictionary.mapping_congr fun a ha => Dictionary.get?_put_of_ne ?_ _
  rintro rfl
  exact hne ha.symm

/-- After the last one it has the wanted mapping. -/
theorem exchanges_plan (hne : pdo.index ≠ pdo.assign) (hfew : target.length ≤ Pdo.maxEntries)
    (hlists : d.Lists pdo) : (written d (plan pdo target 1)).Exchanges pdo target :=
  ⟨lists_written hne hlists fun _ hw => hw, .inl ⟨byte_assign_plan d, mapping_plan d hne hfew⟩⟩

/-- A drive that lists one mapping ends with the wanted one, or the change fails and
leaves it its own or none. -/
theorem replace_exchanges {r : Except Error Unit} (hne : pdo.index ≠ pdo.assign)
    (hassign : pdo.assign ≠ 0x6061) (hfew : target.length ≤ Pdo.maxEntries)
    (hlists : d.Lists pdo) (hone : d.byte ⟨pdo.assign, 0⟩ = 1) (htold : Told k d t)
    (h : Runs (replace k pdo target).run t r) :
    (d.after k t).Exchanges pdo target
      ∨ (∃ e, r = .error e) ∧ ((d.after k t).Exchanges pdo (d.mapping pdo.index)
        ∨ (d.after k t).Exchanges pdo []) := by
  rw [replace_eq, ExceptT.run_bind] at h
  obtain ⟨u, _, v, rfl, hlift, hrest⟩ := runs_bind_iff.1 h
  obtain ⟨assignment, rfl, hrestore⟩ := runs_lift_iff.1 hlift
  have hread : d.after k u = d :=
    after_of_reads (only_assignmentToRestore fun _ _ => trivial) hrestore
  obtain rfl := assignmentToRestore_told hrestore (Dictionary.told_append.1 htold).1 hassign hone
  dsimp only at hrest
  rw [ExceptT.run_bind] at hrest
  obtain ⟨v, carried, w, rfl, hcarry, hverify⟩ := runs_bind_iff.1 hrest
  rw [Dictionary.after_append, Dictionary.after_append, hread]
  rcases runs_carryOut hcarry with ⟨rfl, rfl⟩ | ⟨done, x, rest, fault, hplan, rfl, rfl⟩
  · -- all is written, and what is read now changes nothing
    left
    have hquiet : (do
        let found ← attempt pdo.index .verify ((count pdo.index).read k)
        if found ≠ .ofNat target.length then
          throw (.unverified pdo.index (.ofNat target.length) found)
        : ExceptT Error BusProgram Unit).run.Only (Writes fun _ => False) := by
      refine (only_attempt (DataObject.only_read fun _ _ => trivial)).bindExcept fun found => ?_
      split <;> exact only_pure _
    rw [after_of_reads hquiet hverify, after_taken]
    exact exchanges_plan hne hfew hlists
  · right
    obtain ⟨rfl, rfl⟩ := runs_pure_iff.1 hverify
    refine ⟨⟨_, rfl⟩, ?_⟩
    rw [Dictionary.after_nil, Dictionary.after_append, after_taken]
    rcases exchanges_of_refused hne hlists hplan with rfl | hnone
    · exact .inl ⟨hlists, .inl ⟨hone, rfl⟩⟩
    · exact .inr hnone

/-- The same of a negotiation, which changes nothing where the mapping is there. -/
theorem negotiate_exchanges {capacity : Option Nat} {r : Except Error Outcome}
    (hne : pdo.index ≠ pdo.assign) (hindex : pdo.index ≠ 0x6061) (hassign : pdo.assign ≠ 0x6061)
    (hlists : d.Lists pdo) (hone : d.byte ⟨pdo.assign, 0⟩ = 1) (htold : Told k d t)
    (h : Runs (negotiate k pdo target capacity) t r) :
    (d.after k t).Exchanges pdo target
      ∨ (∃ e, r = .error e) ∧ ((d.after k t).Exchanges pdo (d.mapping pdo.index)
        ∨ (d.after k t).Exchanges pdo []) := by
  unfold negotiate at h
  dsimp only at h
  split at h
  next =>
    obtain ⟨rfl, rfl⟩ := runs_pure_iff.1 h
    exact .inr ⟨⟨_, rfl⟩, .inl ⟨hlists, .inl ⟨hone, rfl⟩⟩⟩
  next hroom =>
    have hfew : target.length ≤ Pdo.maxEntries := Nat.not_lt.1 fun hmany => hroom (.inl hmany)
    obtain ⟨u, current, v, rfl, hcurrent, hrest⟩ := runs_bind_iff.1 h
    obtain ⟨htoldCurrent, htoldRest⟩ := Dictionary.told_append.1 htold
    have hread : d.after k u = d :=
      after_of_reads (only_isCurrent fun _ _ => trivial) hcurrent
    rw [hread] at htoldRest
    rw [Dictionary.after_append, hread]
    cases current with
    | true =>
      obtain ⟨rfl, rfl⟩ := runs_pure_iff.1 hrest
      exact .inl ⟨hlists, .inl ⟨hone, isCurrent_told hcurrent htoldCurrent hindex hfew⟩⟩
    | false =>
      obtain ⟨r', rfl, hreplace⟩ := runs_bind_pure_iff.1 hrest
      rcases replace_exchanges hne hassign hfew hlists hone htoldRest hreplace with
        hdone | ⟨⟨e, rfl⟩, hkept⟩
      · exact .inl hdone
      · exact .inr ⟨⟨e, rfl⟩, hkept⟩

end Servo.Negotiation
