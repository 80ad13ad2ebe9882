/-
The dictionary of one slave, as transactions find it.

A program that only makes transactions with one slave learns nothing else of the
segment than that slave's dictionary. A `Mailbox` is a kind of segments that hold a
dictionary for the slave: they give out what it has, and take what may be written to it.
What a program does by transactions is stated for any mailbox, and so for all of them.

There are two kinds here. The segments that show a line are one, where nothing is made
to fail (`Line.mailbox`); what else a slave is like there, only its place in the line
tells. The other kind comes from one segment, whatever the rest of it is like
(`Segment.mailbox`): it is as before, but for the dictionary of this slave and the log of
transactions (`Segment.Rewritten`), which has no writes but those that were granted. Where
none is granted, a program can only read (`Segment.reader`).
-/
import Servo.Proofs.Simulation.Line

namespace Servo.Simulation

/-- Segments that hold a dictionary for a slave in some state. -/
structure Mailbox (k : UInt16) (al : AlState) where
  Holds : Dictionary → Segment → Prop
  /-- The items to which writes are granted. -/
  Grants : Address → Prop
  read {d : Dictionary} {a : Address} {data : Bytes} :
    d.shown? a = some data → ∀ capacity : Nat,
      Segment.Leads (Holds d) (Bus.sdoRead k a capacity) (.ok (data.take capacity)) (Holds d)
  write {d : Dictionary} {a : Address} :
    Grants a → d.Takes al a → ∀ data : Bytes,
      Segment.Leads (Holds d) (Bus.sdoWrite k a data) (.ok ()) (Holds (d.put a data))

/-- Where a slave has one dictionary a program ends with this value, and leaves it the other. -/
abbrev Mailbox.Leads {α : Type} {k : UInt16} {al : AlState} (m : Mailbox k al) (d : Dictionary)
    (p : BusProgram α) (a : α) (d' : Dictionary) : Prop :=
  Segment.Leads (m.Holds d) p a (m.Holds d')

-- =============================================================== lines

namespace Line

variable {α : Type} {l : Line} {k : UInt16} {al : AlState} {d : Dictionary} {p : BusProgram α}
  {a : α}

/-- The segments that show a line with some dictionary of a slave. -/
def mailbox (l : Line) (hk : l.Has k) (hal : l.al k = al) (hstarted : al ≠ .init) :
    Mailbox k al where
  Holds d g := g.Shows (l.store k d)
  Grants _ := True
  read {d _ _} hdata capacity := by
    subst hal
    rw [← dictionary_store_self l k d] at hdata
    exact leads_sdoRead (l := l.store k d) hk hstarted hdata capacity
  write {d _} _ htakes data := by
    subst hal
    rw [← dictionary_store_self l k d] at htakes
    have hwrite := leads_sdoWrite (l := l.store k d) hk hstarted htakes data
    rw [store_store, dictionary_store_self] at hwrite
    exact hwrite

variable {hk : l.Has k} {hal : l.al k = al} {hstarted : al ≠ .init}

theorem leads_of_mailbox (h : (l.mailbox hk hal hstarted).Leads (l.dictionary k) p a d) :
    l.Leads p a (l.store k d) := by
  intro g hg
  refine h g ?_
  show g.Shows (l.store k (l.dictionary k))
  rwa [store_self]

/-- A program that leaves the dictionary as it is. -/
theorem leads_of_mailbox_self
    (h : (l.mailbox hk hal hstarted).Leads (l.dictionary k) p a (l.dictionary k)) :
    l.Leads p a l := by
  have hstored := leads_of_mailbox h
  rwa [store_self] at hstored

end Line

-- ============================================================ segments

namespace Segment

variable {g g' : Segment} {k : UInt16} {s s' s'' : Slave} {d : Dictionary} {P : Address → Prop}

theorem find_eq_ok_iff : g.find k = .ok s ↔ g.discovered = true ∧ g.slave? k = some s := by
  constructor
  · intro h
    refine ⟨?_, find_eq_ok h⟩
    unfold find at h
    split at h
    next => cases h
    next hdiscovered => simpa using hdiscovered
  · intro h
    unfold find
    rw [h.1, h.2]
    rfl

theorem find_setSlave_self (hfind : g.find k = .ok s) (s' : Slave) :
    (g.setSlave k s').find k = .ok s' := by
  obtain ⟨hdiscovered, hslave⟩ := find_eq_ok_iff.1 hfind
  exact find_eq_ok_iff.2 ⟨hdiscovered, slave?_setSlave_self hslave s'⟩

@[simp] theorem setSlave_setSlave : (g.setSlave k s').setSlave k s'' = g.setSlave k s'' := by
  unfold setSlave
  rw [List.set_set]

theorem setSlave_self (hslave : g.slave? k = some s) : g.setSlave k s = g := by
  have hget := (slave?_eq_some_iff.1 hslave).2
  obtain ⟨hlt, hsame⟩ := List.getElem?_eq_some_iff.1 hget
  unfold setSlave
  rw [← hsame, List.set_getElem_self]

/-- A segment is as it was, but for the dictionary of a slave and for more transactions, none
of which writes but to the slave's items of some kind. -/
def Rewritten (g : Segment) (k : UInt16) (s : Slave) (P : Address → Prop) (d : Dictionary)
    (g' : Segment) : Prop :=
  ∃ log : List Transaction, (∀ x ∈ log, x.isWrite = true → x.slave = k ∧ P x.address)
    ∧ g' = { g.setSlave k { s with dictionary := d } with
        transactions := g.transactions ++ log }

theorem rewritten_refl (hslave : g.slave? k = some s) : g.Rewritten k s P s.dictionary g := by
  refine ⟨[], fun x hx => absurd hx List.not_mem_nil, ?_⟩
  show g = { g.setSlave k s with transactions := g.transactions ++ [] }
  rw [setSlave_self hslave, List.append_nil]

theorem Rewritten.find (h : g.Rewritten k s P d g') (hfind : g.find k = .ok s) :
    g'.find k = .ok { s with dictionary := d } := by
  obtain ⟨log, -, rfl⟩ := h
  exact find_setSlave_self hfind _

theorem Rewritten.failingWrites (h : g.Rewritten k s P d g') :
    g'.failingWrites = g.failingWrites := by
  obtain ⟨log, -, rfl⟩ := h
  rfl

/-- Other slaves are as they were. -/
theorem Rewritten.slave?_of_ne {j : UInt16} (h : g.Rewritten k s P d g')
    (hslave : g.slave? k = some s) (hjk : j ≠ k) : g'.slave? j = g.slave? j := by
  obtain ⟨log, -, rfl⟩ := h
  exact slave?_setSlave_of_ne hslave hjk _

theorem Rewritten.logged (h : g.Rewritten k s P d g') {x : Transaction}
    (hx : x.isWrite = true → x.slave = k ∧ P x.address) :
    g.Rewritten k s P d (g'.logged x) := by
  obtain ⟨log, hlog, rfl⟩ := h
  refine ⟨log ++ [x], List.forall_mem_append.2 ⟨hlog, List.forall_mem_singleton.2 hx⟩, ?_⟩
  unfold Segment.logged
  rw [← List.append_assoc]

theorem Rewritten.setSlave (h : g.Rewritten k s P d g') (d' : Dictionary) :
    g.Rewritten k s P d' (g'.setSlave k { s with dictionary := d' }) := by
  obtain ⟨log, hlog, rfl⟩ := h
  refine ⟨log, hlog, ?_⟩
  show { (g.setSlave k { s with dictionary := d }).setSlave k { s with dictionary := d' } with
    transactions := g.transactions ++ log } = _
  rw [setSlave_setSlave]

/-- Where no write is granted, none is made. -/
theorem Rewritten.writes (h : g.Rewritten k s (fun _ => False) d g') : g'.writes = g.writes := by
  obtain ⟨log, hlog, rfl⟩ := h
  have hnone : log.filter Transaction.isWrite = [] :=
    List.filter_eq_nil_iff.2 fun x hx hwrite => (hlog x hx hwrite).2
  show (g.transactions ++ log).filter Transaction.isWrite = g.writes
  rw [List.filter_append, hnone, List.append_nil]
  rfl

/-- The segments that come of one by transactions with a slave. -/
def mailbox (g : Segment) {al : AlState} (P : Address → Prop) (hfind : g.find k = .ok s)
    (hal : s.al = al) (hstarted : al ≠ .init) (hfree : ∀ a, P a → a ∉ g.failingWrites) :
    Mailbox k al where
  Holds := g.Rewritten k s P
  Grants := P
  read hdata capacity g' hg' := by
    subst hal
    have hanswer := sdoRead_eq (hg'.find hfind) hstarted hdata capacity
    exact ⟨_, ends_perform hanswer, hg'.logged nofun⟩
  write {_ a} hgranted htaken data g' hg' := by
    subst hal
    have hfree : a ∉ g'.failingWrites := hg'.failingWrites ▸ hfree a hgranted
    have hanswer := sdoWrite_eq hfree (hg'.find hfind) hstarted htaken data
    exact ⟨_, ends_perform hanswer, (hg'.logged fun _ => ⟨rfl, hgranted⟩).setSlave _⟩

/-- The segments that come of one by reading. -/
def reader (g : Segment) {al : AlState} (hfind : g.find k = .ok s) (hal : s.al = al)
    (hstarted : al ≠ .init) : Mailbox k al :=
  g.mailbox (fun _ => False) hfind hal hstarted fun _ hgranted => hgranted.elim

section

variable {α : Type} {p : BusProgram α} {a : α} {al : AlState} {hfind : g.find k = .ok s}
  {hal : s.al = al} {hstarted : al ≠ .init}

theorem ends_of_mailbox {hfree : ∀ a, P a → a ∉ g.failingWrites}
    (h : (g.mailbox P hfind hal hstarted hfree).Leads s.dictionary p a d) :
    ∃ g', g.Ends p a g' ∧ g.Rewritten k s P d g' :=
  h g (rewritten_refl (find_eq_ok hfind))

/-- A program that only reads leaves all slaves as they are. -/
theorem ends_of_reader (h : (g.reader hfind hal hstarted).Leads s.dictionary p a s.dictionary) :
    ∃ g', g.Ends p a g' ∧ g'.writes = g.writes ∧ g'.slaves = g.slaves := by
  obtain ⟨g', hends, hg'⟩ := ends_of_mailbox h
  refine ⟨g', hends, hg'.writes, ?_⟩
  obtain ⟨log, -, rfl⟩ := hg'
  show (g.setSlave k s).slaves = g.slaves
  rw [setSlave_self (find_eq_ok hfind)]

end

end Segment

end Servo.Simulation
