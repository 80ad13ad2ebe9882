/-
The items of a simulated slave that are protected from writes.

A slave locks an item (`Slave.Locks`) for one of three reasons: it belongs to a
mapping or an assignment and the slave is not in pre-operational, its mapping is
assigned, or it is an entry of a mapping that is enabled. The order of the checks
that a write goes through does not show: a write is taken exactly if the slave has
a mailbox and the item, and does not lock it (`writeItem_eq_ok_iff`).

# Requests

A request changes an item in one way only, by a write of that item that is taken
(`item?_answer`). So an item stays as it is for as long as it is locked, through
any requests and through whatever happens to the segment beside them
(`Moves`), as long as that leaves the dictionaries alone. And a write that fails,
for whatever reason, leaves all of them alone (`dictionaries_of_error`).
-/
import Mathlib.Logic.Relation
import Servo.Proofs.Simulation.Segment

namespace Servo.Simulation

-- ================================================================ locks

namespace Slave

variable {s : Slave} {a : Address} {slave : UInt16} {data : Bytes}

/-- The objects that hold what a slave receives. -/
def IsReceiveMapping (index : UInt16) : Prop := 0x1600 ≤ index ∧ index ≤ 0x17ff

/-- The objects that hold what a slave sends. -/
def IsTransmitMapping (index : UInt16) : Prop := 0x1a00 ≤ index ∧ index ≤ 0x1bff

def IsMapping (index : UInt16) : Prop := IsReceiveMapping index ∨ IsTransmitMapping index

/-- The objects that list the mappings in use. -/
def IsAssignment (index : UInt16) : Prop := index = 0x1c12 ∨ index = 0x1c13

/-- A slave does not let an item be changed now. -/
inductive Locks (s : Slave) (a : Address) : Prop
  /-- Mappings and assignments are changed in pre-operational only. -/
  | inState : IsMapping a.index ∨ IsAssignment a.index → s.al ≠ .preOperational → Locks s a
  /-- Received mappings are in use. -/
  | received : IsReceiveMapping a.index → s.dictionary.byte ⟨0x1c12, 0⟩ ≠ 0 → Locks s a
  /-- Sent mappings are in use. -/
  | sent : IsTransmitMapping a.index → s.dictionary.byte ⟨0x1c13, 0⟩ ≠ 0 → Locks s a
  /-- The mapping says that it has entries, and this would be one of them. -/
  | enabled : IsMapping a.index → a.sub ≠ 0 → s.dictionary.byte ⟨a.index, 0⟩ ≠ 0 → Locks s a

theorem assignmentOf?_receive {index : UInt16} (h : IsReceiveMapping index) :
    assignmentOf? index = some 0x1c12 := if_pos h

theorem assignmentOf?_transmit {index : UInt16} (h : IsTransmitMapping index) :
    assignmentOf? index = some 0x1c13 := by
  have hreceive : ¬ IsReceiveMapping index := by
    intro hreceive
    exact absurd (UInt16.le_trans h.1 hreceive.2) (by decide)
  exact (if_neg hreceive).trans (if_pos h)

theorem assignmentOf?_none {index : UInt16} (h : ¬ IsMapping index) :
    assignmentOf? index = none := by
  obtain ⟨hreceive, htransmit⟩ := not_or.1 h
  exact (if_neg hreceive).trans (if_neg htransmit)

/-- What keeps a mapping object from being written is a lock. -/
theorem locks_mapping_iff {assign : UInt16} (hassign : assignmentOf? a.index = some assign) :
    s.Locks a ↔ s.al ≠ .preOperational ∨ s.dictionary.byte ⟨assign, 0⟩ ≠ 0
      ∨ a.sub ≠ 0 ∧ s.dictionary.byte ⟨a.index, 0⟩ ≠ 0 := by
  constructor
  · intro h
    cases h with
    | inState _ hal => exact .inl hal
    | received hreceive hused =>
      cases hassign.symm.trans (assignmentOf?_receive hreceive)
      exact .inr (.inl hused)
    | sent htransmit hused =>
      cases hassign.symm.trans (assignmentOf?_transmit htransmit)
      exact .inr (.inl hused)
    | enabled _ hsub hcount => exact .inr (.inr ⟨hsub, hcount⟩)
  · intro h
    have hmapping : IsMapping a.index := by
      by_cases hindex : IsMapping a.index
      · exact hindex
      · cases hassign.symm.trans (assignmentOf?_none hindex)
    rcases h with hal | hused | ⟨hsub, hcount⟩
    · exact .inState (.inl hmapping) hal
    · rcases hmapping with hreceive | htransmit
      · cases hassign.symm.trans (assignmentOf?_receive hreceive)
        exact .received hreceive hused
      · cases hassign.symm.trans (assignmentOf?_transmit htransmit)
        exact .sent htransmit hused
    · exact .enabled hmapping hsub hcount

theorem locks_other_iff (hassign : assignmentOf? a.index = none) :
    s.Locks a ↔ IsAssignment a.index ∧ s.al ≠ .preOperational := by
  have hnot : ¬ IsMapping a.index := by
    rintro (hreceive | htransmit)
    · cases hassign.symm.trans (assignmentOf?_receive hreceive)
    · cases hassign.symm.trans (assignmentOf?_transmit htransmit)
  constructor
  · intro h
    cases h with
    | inState hindex hal => exact ⟨hindex.resolve_left hnot, hal⟩
    | received hreceive => exact absurd (.inl hreceive) hnot
    | sent htransmit => exact absurd (.inr htransmit) hnot
    | enabled hmapping => exact absurd hmapping hnot
  · intro h
    exact .inState (.inr h.1) h.2

theorem isWritable_iff : s.isWritable a = true ↔ ¬ s.Locks a := by
  unfold isWritable
  split
  next assign hassign =>
    rw [locks_mapping_iff hassign]
    grind
  next hassign =>
    rw [locks_other_iff hassign]
    unfold IsAssignment
    grind [Pdo.receive, Pdo.transmit]

/-- When a write is taken. -/
theorem writeItem_eq_ok_iff :
    (s.writeItem slave a data).1 = .ok ()
      ↔ s.al ≠ .init ∧ (s.dictionary.get? a).isSome ∧ ¬ s.Locks a := by
  rw [← isWritable_iff]
  unfold writeItem
  split
  next hinit => simp [hinit]
  next hinit =>
    split
    next hnone => simp [Option.isNone_iff_eq_none.1 hnone]
    next hsome =>
      split
      next hlocked => simp_all
      next hwritable => simp_all [Option.isSome_iff_ne_none]

end Slave

-- ============================================================= segments

namespace Segment

variable {g g' : Segment} {k slave : UInt16} {a : Address} {s : Slave}

/-- The bytes of an item of a slave. -/
def item? (g : Segment) (k : UInt16) (a : Address) : Option Bytes :=
  (g.slave? k).bind fun s => s.dictionary.get? a

/-- The dictionaries of all slaves. -/
def dictionaries (g : Segment) : List Dictionary := g.slaves.map Slave.dictionary

/-- A slave does not let an item be changed now. -/
def Locked (g : Segment) (k : UInt16) (a : Address) : Prop :=
  ∃ s, g.slave? k = some s ∧ s.Locks a

theorem item?_eq (hk : g.slave? k = some s) : g.item? k a = s.dictionary.get? a := by
  unfold item?
  rw [hk]
  rfl

theorem item?_congr (h : g'.dictionaries = g.dictionaries) : g'.item? k a = g.item? k a := by
  have hslave : ∀ g : Segment, g.item? k a
      = (Bus.ofSlave? g.dictionaries k).bind fun d => d.get? a := by
    intro g
    unfold item? dictionaries slave? Bus.ofSlave?
    split
    next => rfl
    next => rw [List.getElem?_map, Option.bind_map]; rfl
  rw [hslave, hslave, h]

/-- A slave that is put back with its dictionary does not show in the dictionaries. -/
theorem dictionaries_setSlave {s' : Slave} (hk : g.slave? k = some s)
    (hsame : s'.dictionary = s.dictionary) : (g.setSlave k s').dictionaries = g.dictionaries :=
  map_setSlave hk hsame

/-- A write that is taken is one of an item that is not locked. -/
theorem not_locks_of_ok {data : Bytes} (hk : g.slave? k = some s)
    (h : (answer (.sdoWrite k a data) g).1 = .ok ()) : ¬ s.Locks a := by
  change (g.sdoWrite k a data).1 = .ok () at h
  unfold sdoWrite at h
  dsimp only at h
  split at h
  next => cases h
  next =>
    split at h
    next => cases h
    next t hfound =>
      cases (find_eq_ok hfound).symm.trans hk
      exact (Slave.writeItem_eq_ok_iff.1 h).2.2

/-- A request changes an item by a write that is taken, or leaves it as it is. -/
theorem item?_answer (r : Bus.Request) (hk : g.slave? k = some s) :
    (answer r g).2.item? k a = g.item? k a
      ∨ ∃ data, r = .sdoWrite k a data ∧ ¬ s.Locks a
        ∧ (answer r g).2.item? k a = some data := by
  obtain ⟨-, s', hs', hnext⟩ := answer_dictionary r hk
  rw [item?_eq hk, item?_eq hs', hnext]
  cases r with
  | sdoWrite slave b data =>
    cases hanswer : (answer (.sdoWrite slave b data) g).1 with
    | error fault => exact .inl rfl
    | ok =>
      by_cases hitem : slave = k ∧ a = b
      · obtain ⟨rfl, rfl⟩ := hitem
        refine .inr ⟨data, rfl, not_locks_of_ok hk hanswer, ?_⟩
        simp [Dictionary.next, Dictionary.get?_put]
      · left
        by_cases hslave : slave = k
        · have hne : a ≠ b := fun h => hitem ⟨hslave, h⟩
          simp [Dictionary.next, Dictionary.get?_put, hslave, hne]
        · simp [Dictionary.next, hslave]
  | _ => exact .inl rfl

/-- A write that fails leaves the dictionaries of all slaves as they were. -/
theorem dictionaries_of_error {data : Bytes} {fault : Bus.Fault}
    (h : answer (.sdoWrite slave a data) g = (.error fault, g')) :
    g'.dictionaries = g.dictionaries := by
  change g.sdoWrite slave a data = (.error fault, g') at h
  unfold sdoWrite at h
  dsimp only at h
  split at h
  next => cases h; rfl
  next =>
    split at h
    next => cases h; rfl
    next s hfound =>
      obtain ⟨hfault, rfl⟩ := Prod.mk.inj h
      refine (dictionaries_setSlave (find_eq_ok hfound) ?_).trans rfl
      rw [s.writeItem_eq, hfault]
      rfl

-- ================================================================ moves

/-- A segment answers a request, or something else happens to it. -/
inductive Moves (Beside : Segment → Segment → Prop) : Segment → Segment → Prop
  | request {g : Segment} (r : Bus.Request) : Moves Beside g (answer r g).2
  | beside {g g' : Segment} : Beside g g' → Moves Beside g g'

/-- What happens beside the requests leaves the dictionaries alone. -/
def SameDictionaries (g g' : Segment) : Prop := g'.dictionaries = g.dictionaries

/-- A move does not change what is locked. -/
theorem Moves.item? (h : Moves SameDictionaries g g') (hlocked : g.Locked k a) :
    g'.item? k a = g.item? k a := by
  obtain ⟨s, hk, hlocks⟩ := hlocked
  cases h with
  | request r =>
    rcases item?_answer r hk with hsame | ⟨data, -, hfree, -⟩
    · exact hsame
    · exact absurd hlocks hfree
  | beside hsame => exact item?_congr hsame

/-- An item is locked at the start of every move of a run. -/
def LockedThrough (k : UInt16) (a : Address) : Segment → Segment → Prop :=
  Relation.ReflTransGen fun g g' => g.Locked k a ∧ Moves SameDictionaries g g'

/-- What is locked does not change for as long as it is, and a write that fails
changes nothing. -/
theorem protected_while_locked :
    (∀ (k : UInt16) (a : Address) (g g' : Segment), LockedThrough k a g g' →
        g'.item? k a = g.item? k a)
      ∧ ∀ (slave : UInt16) (a : Address) (data : Bytes) (fault : Bus.Fault) (g g' : Segment),
        answer (.sdoWrite slave a data) g = (.error fault, g') →
          g'.dictionaries = g.dictionaries := by
  constructor
  · intro k a g g' hrun
    induction hrun with
    | refl => rfl
    | tail _ hmove ih => exact (hmove.2.item? hmove.1).trans ih
  · intro slave a data fault g g' h
    exact dictionaries_of_error h

/-- A found slave in pre-operational, with its mappings as it was made with them. -/
def sampleEditable : Segment where
  slaves := [{ al := .preOperational }]
  isOpen := true
  discovered := true

/-- An attempt to write an entry of a mapping in use, with no bytes at all. -/
def sampleAttempt : Segment := (answer (.sdoWrite 1 ⟨0x1600, 1⟩ []) sampleEditable).2

/-- The attempt fails, and the entry is still there after the slave was reset. -/
theorem protected_while_locked_sample :
    (answer (.setState 1 .init) sampleAttempt).2.item? 1 ⟨0x1600, 1⟩
        = sampleEditable.item? 1 ⟨0x1600, 1⟩
      ∧ sampleAttempt.dictionaries = sampleEditable.dictionaries := by
  have hreceive : Slave.IsReceiveMapping 0x1600 := ⟨by decide, by decide⟩
  have hused : (sampleEditable.slaves[0]).dictionary.byte ⟨0x1c12, 0⟩ ≠ 0 := by decide
  have hmoves : LockedThrough 1 ⟨0x1600, 1⟩ sampleEditable
      (answer (.setState 1 .init) sampleAttempt).2 := by
    refine .tail (.tail .refl ⟨?_, .request (.sdoWrite 1 ⟨0x1600, 1⟩ [])⟩)
      ⟨?_, .request (.setState 1 .init)⟩
    · exact ⟨_, rfl, .received hreceive hused⟩
    · exact ⟨_, rfl, .received hreceive hused⟩
  refine ⟨protected_while_locked.1 1 ⟨0x1600, 1⟩ _ _ hmoves, ?_⟩
  exact protected_while_locked.2 1 ⟨0x1600, 1⟩ [] (.sdo 1 ⟨0x1600, 1⟩ Slave.wrongState) _ _ rfl

end Segment

end Servo.Simulation
