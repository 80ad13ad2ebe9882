/-
The dictionary of a slave along a trace.

A write that was taken puts its bytes in the dictionary, and no other request
changes it. So a trace says by itself what becomes of the dictionary of a slave
(`Dictionary.after`), whoever answered; and it is told truly by a trace whose reads
are answered from it, as the writes before them left it (`Dictionary.Told`). What
holds of such traces holds of every bus that keeps its word, and of a simulated
segment in particular.

The assignment objects of a drive are read here for one mapping alone, as drives
have them (`Dictionary.Lists`).
-/
import Servo.Proofs.Trace
import Servo.Simulation.Dictionary
import Servo.Bus

namespace Servo.Simulation.Dictionary

open Program

variable {k : UInt16} {d d' : Dictionary} {a : Address} {t u : Bus.interface.Trace}

-- =============================================================== writes

/-- The dictionary of a slave after an event. -/
def next (k : UInt16) (d : Dictionary) : Bus.interface.Event → Dictionary
  | ⟨.sdoWrite slave a data, .ok _⟩ => if slave = k then d.put a data else d
  | _ => d

/-- The dictionary of a slave after a trace. -/
def after (k : UInt16) (d : Dictionary) (t : Bus.interface.Trace) : Dictionary :=
  t.foldl (next k) d

@[simp] theorem after_nil : after k d [] = d := rfl

@[simp] theorem after_cons (e : Bus.interface.Event) :
    after k d (e :: t) = after k (next k d e) t := rfl

@[simp] theorem after_append : after k d (t ++ u) = after k (after k d t) u := List.foldl_append

/-- A request writes no other items than some. -/
def Writes (P : Address → Prop) : Bus.Request → Prop
  | .sdoWrite _ a _ => P a
  | _ => True

/-- An item that is not written stays as it is. -/
theorem get?_after {P : Address → Prop} (h : ∀ e ∈ t, Writes P e.1) (ha : ¬ P a) :
    (after k d t).get? a = d.get? a := by
  induction t generalizing d with
  | nil => rfl
  | cons e t ih =>
    obtain ⟨he, hrest⟩ := List.forall_mem_cons.1 h
    rw [after_cons, ih hrest]
    obtain ⟨r, answer⟩ := e
    cases r with
    | sdoWrite slave b data =>
      have hne : a ≠ b := by
        rintro rfl
        exact ha he
      cases answer with
      | error fault => rfl
      | ok =>
        dsimp only [next]
        split
        next => rw [get?_put, if_neg hne]
        next => rfl
    | _ => rfl

/-- A trace without writes leaves the dictionary as it is. -/
theorem after_eq_self (h : ∀ e ∈ t, Writes (fun _ => False) e.1) : after k d t = d := by
  induction t with
  | nil => rfl
  | cons e t ih =>
    obtain ⟨he, hrest⟩ := List.forall_mem_cons.1 h
    rw [after_cons]
    obtain ⟨r, answer⟩ := e
    cases r with
    | sdoWrite => exact he.elim
    | _ => exact ih hrest

-- ================================================================ reads

/-- A read that succeeds is answered from the dictionary. What the operation mode is
shown as is not found there. -/
def TellsTruly (k : UInt16) (d : Dictionary) : Bus.interface.Event → Prop
  | ⟨.sdoRead slave a capacity, .ok data⟩ =>
    slave = k → a.index ≠ 0x6061 → ∃ item, d.get? a = some item ∧ data = item.take capacity
  | _ => True

/-- The reads of a trace tell the dictionary as its writes left it. -/
def Told (k : UInt16) : Dictionary → Bus.interface.Trace → Prop
  | _, [] => True
  | d, e :: t => TellsTruly k d e ∧ Told k (next k d e) t

@[simp] theorem told_append : Told k d (t ++ u) ↔ Told k d t ∧ Told k (after k d t) u := by
  induction t generalizing d with
  | nil => simp [Told]
  | cons e t ih => simp only [List.cons_append, Told, ih, and_assoc, after_cons]

-- ============================================================= mappings

/-- The entry that an item holds. -/
def entryAt (d : Dictionary) (a : Address) : Pdo.Entry :=
  ⟨.ofNat (Bytes.toNat (((d.get? a).getD []).take 4))⟩

theorem entryAt_congr (h : d'.get? a = d.get? a) : d'.entryAt a = d.entryAt a := by
  unfold entryAt
  rw [h]

theorem byte_congr (h : d'.get? a = d.get? a) : d'.byte a = d.byte a := by
  unfold Dictionary.byte
  rw [h]

/-- The number that one byte of an item spells is that byte. -/
theorem ofNat_take_one {item : Bytes} (h : d.get? a = some item) :
    UInt8.ofNat (Bytes.toNat (item.take 1)) = d.byte a := by
  unfold Dictionary.byte
  rw [h]
  cases item with
  | nil => rfl
  | cons b rest =>
    show UInt8.ofNat (b.toNat + 256 * 0) = b
    simp

/-- A mapping is what the items of its object hold. -/
theorem mapping_congr {index : UInt16} (h : ∀ a, a.index = index → d'.get? a = d.get? a) :
    d'.mapping index = d.mapping index := by
  unfold Dictionary.mapping
  rw [byte_congr (h _ rfl)]
  refine List.map_congr_left fun i _ => ?_
  dsimp only
  rw [h _ rfl]

/-- An item that was put is there. -/
theorem get?_put_self (data : Bytes) : (d.put a data).get? a = some data := by
  rw [get?_put, if_pos rfl]

/-- Putting an item leaves the other ones. -/
theorem get?_put_of_ne {b : Address} (hne : b ≠ a) (data : Bytes) :
    (d.put a data).get? b = d.get? b := by
  rw [get?_put, if_neg hne]

theorem byte_put (value : UInt8) : (d.put a (Packed.bytes value)).byte a = value := by
  unfold Dictionary.byte
  rw [get?_put_self]
  exact UInt8.ofNat_toNat

theorem entryAt_put (value : Pdo.Entry) : (d.put a (Packed.bytes value)).entryAt a = value := by
  have hlength : (Packed.bytes value).length = 4 := Packed.length_bytes value
  unfold entryAt
  rw [get?_put_self, Option.getD_some, List.take_of_length_le (by omega)]
  unfold Packed.bytes
  rw [Bytes.toNat_ofNat (LawfulPacked.word_lt value)]
  exact congrArg Pdo.Entry.mk (UInt32.ofNat_toNat (x := value.raw))

/-- The entries of a mapping are what its items hold. -/
theorem getElem_mapping {index : UInt16} (i : Nat) (hi : i < (d.mapping index).length) :
    (d.mapping index)[i] = d.entryAt ⟨index, .ofNat (i + 1)⟩ := by
  simp [Dictionary.mapping, entryAt]

/-- A mapping object that says how many entries it has, and holds them. -/
theorem mapping_eq {index : UInt16} {mapping : List Pdo.Entry}
    (hcount : d.byte ⟨index, 0⟩ = .ofNat mapping.length) (hfew : mapping.length ≤ Pdo.maxEntries)
    (hentries : ∀ i (hi : i < mapping.length), d.entryAt ⟨index, .ofNat (i + 1)⟩ = mapping[i]) :
    d.mapping index = mapping := by
  have hlength : min (d.byte ⟨index, 0⟩).toNat Pdo.maxEntries = mapping.length := by
    rw [hcount, UInt8.toNat_ofNat_of_lt' (Nat.lt_of_le_of_lt hfew (by decide))]
    exact Nat.min_eq_left hfew
  refine List.ext_getElem ?_ fun i hi hi' => ?_
  · simp [Dictionary.mapping, hlength]
  · rw [getElem_mapping, hentries i hi']

/-- An assignment object has one object in its first place, its own. -/
def Lists (d : Dictionary) (pdo : Pdo) : Prop :=
  ∃ data, d.get? ⟨pdo.assign, 1⟩ = some data ∧ .ofNat (Bytes.toNat (data.take 2)) = pdo.index

variable {pdo : Pdo}

theorem Lists.congr (hlists : d.Lists pdo) (h : d'.get? ⟨pdo.assign, 1⟩ = d.get? ⟨pdo.assign, 1⟩) :
    d'.Lists pdo := by
  obtain ⟨data, hdata, hindex⟩ := hlists
  exact ⟨data, h.trans hdata, hindex⟩

/-- It has no object in another place, as far as its places count. -/
structure ListsOnly (d : Dictionary) (pdo : Pdo) : Prop where
  first : d.Lists pdo
  others : ∀ i, 2 ≤ i → i ≤ (d.byte ⟨pdo.assign, 0⟩).toNat → d.get? ⟨pdo.assign, .ofNat i⟩ = none

/-- An assignment that lists one mapping at most lists no other one. -/
theorem Lists.only_of_le_one (h : d.Lists pdo) (hle : (d.byte ⟨pdo.assign, 0⟩).toNat ≤ 1) :
    d.ListsOnly pdo where
  first := h
  others i htwo hi := absurd (Nat.le_trans htwo (Nat.le_trans hi hle)) (by decide)

/-- The only mapping that is listed is the one assigned, unless none is enabled. -/
theorem ListsOnly.assigned (h : d.ListsOnly pdo) (hsome : d.byte ⟨pdo.assign, 0⟩ ≠ 0) :
    d.assigned pdo.assign = d.mapping pdo.index := by
  obtain ⟨data, hdata, hindex⟩ := h.first
  have hfirst : d.get? ⟨pdo.assign, UInt8.ofNat (0 + 1)⟩ = some data := hdata
  have hothers := h.others
  obtain ⟨n, hn⟩ : ∃ n, (d.byte ⟨pdo.assign, 0⟩).toNat = n + 1 :=
    Nat.exists_eq_succ_of_ne_zero fun hzero => hsome (UInt8.toNat_inj.1 hzero)
  have hrest : ∀ i ∈ (List.range n).map Nat.succ, d.get? ⟨pdo.assign, .ofNat (i + 1)⟩ = none := by
    intro i hi
    obtain ⟨j, hj, rfl⟩ := List.mem_map.1 hi
    have hlt := List.mem_range.1 hj
    exact hothers (j.succ + 1) (by omega) (by omega)
  unfold Dictionary.assigned
  rw [hn, List.range_succ_eq_map, List.flatMap_cons, hfirst,
    List.flatMap_eq_nil_iff.2 fun i hi => by rw [hrest i hi], List.append_nil]
  exact congrArg d.mapping hindex

theorem Lists.assigned_of_one (h : d.Lists pdo) (hone : d.byte ⟨pdo.assign, 0⟩ = 1) :
    d.assigned pdo.assign = d.mapping pdo.index := by
  refine (h.only_of_le_one ?_).assigned ?_
  · rw [hone]
    decide
  · rw [hone]
    decide

/-- An assignment that is disabled assigns nothing. -/
theorem assigned_of_zero {assign : UInt16} (hzero : d.byte ⟨assign, 0⟩ = 0) :
    d.assigned assign = [] := by
  unfold assigned
  rw [hzero]
  rfl

/-- A drive exchanges one mapping or, while it is disabled, none. -/
def Exchanges (d : Dictionary) (pdo : Pdo) (mapping : List Pdo.Entry) : Prop :=
  d.Lists pdo ∧ (d.byte ⟨pdo.assign, 0⟩ = 1 ∧ d.mapping pdo.index = mapping
    ∨ d.byte ⟨pdo.assign, 0⟩ = 0 ∧ mapping = [])

theorem Exchanges.assigned {mapping : List Pdo.Entry} (h : d.Exchanges pdo mapping) :
    d.assigned pdo.assign = mapping := by
  obtain ⟨hlists, ⟨hone, hmapping⟩ | ⟨hzero, rfl⟩⟩ := h
  · rw [hlists.assigned_of_one hone, hmapping]
  · exact assigned_of_zero hzero

/-- What is exchanged hangs on the items of two objects. -/
theorem Exchanges.congr {mapping : List Pdo.Entry} (h : d.Exchanges pdo mapping)
    (hkept : ∀ a, a.index = pdo.index ∨ a.index = pdo.assign → d'.get? a = d.get? a) :
    d'.Exchanges pdo mapping := by
  obtain ⟨hlists, hstate⟩ := h
  refine ⟨hlists.congr (hkept _ (.inr rfl)), ?_⟩
  rwa [byte_congr (hkept _ (.inr rfl)), mapping_congr fun a ha => hkept a (.inl ha)]

/-- A request writes neither a mapping nor its assignment. -/
abbrev Elsewhere (pdo : Pdo) : Bus.Request → Prop :=
  Writes fun a => a.index ≠ pdo.index ∧ a.index ≠ pdo.assign

/-- Requests elsewhere leave the items of a mapping and of its assignment. -/
theorem get?_after_elsewhere (hother : ∀ e ∈ t, Elsewhere pdo e.1)
    (ha : a.index = pdo.index ∨ a.index = pdo.assign) : (d.after k t).get? a = d.get? a := by
  refine get?_after hother fun hne => ?_
  rcases ha with ha | ha
  · exact hne.1 ha
  · exact hne.2 ha

/-- Transactions on other objects change nothing of it. -/
theorem Exchanges.after {mapping : List Pdo.Entry} (h : d.Exchanges pdo mapping)
    (hother : ∀ e ∈ t, Elsewhere pdo e.1) : (d.after k t).Exchanges pdo mapping :=
  h.congr fun _ => get?_after_elsewhere hother

end Servo.Simulation.Dictionary
