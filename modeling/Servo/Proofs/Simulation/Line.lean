/-
What a program comes to on a segment that does as it is told.

A simulated segment answers every request in one way, so a program ends on it with one
value and leaves one segment (`Segment.Ends`). What the answers hang on is little, as long
as nothing was made to fail: how many slaves there are, and the state, the dictionary,
the drive and the outputs of each. That is a `Line`; a segment with slaves of that kind
shows it (`Segment.Shows`), whatever else it remembers.

`Segment.Leads P p a Q` says of a program that it ends with `a` on every segment of the kind
`P`, and leaves one of the kind `Q`; `Line.Leads l p a l'` says so of the segments that show
`l` and `l'`. Each request has one lemma of this form, and programs are put together from
these by `Leads.bind`, or by `Leads.bindOk` and `Leads.bindError` where they can fail; no
lemma behind this module looks into a segment.
-/
import Servo.Proofs.Requests
import Servo.Proofs.Simulation.Negotiated

namespace Servo.Simulation

open Program

variable {α β ε : Type}

-- ============================================================ programs

namespace Segment

variable {g g' g'' : Segment} {p : BusProgram α} {f : α → BusProgram β} {a : α} {b : β}

/-- On a segment a program ends with a value, and leaves another segment. -/
def Ends (g : Segment) (p : BusProgram α) (a : α) (g' : Segment) : Prop :=
  (p.run answer : StateM Segment α) g = (a, g')

theorem ends_pure (a : α) : Ends g (pure a) a g := rfl

theorem ends_perform {r : Bus.Request} {a : r.Answer} (h : answer r g = (a, g')) :
    Ends g (Bus.perform r) a g' := h

/-- Programs one behind the other end where the second one does, on the segment that the
first one leaves. -/
theorem Ends.bind (hp : Ends g p a g') (hf : Ends g' (f a) b g'') : Ends g (p >>= f) b g'' := by
  unfold Ends at hp hf ⊢
  rw [run_bind, ← hf]
  exact congrArg (fun r : α × Segment => ((f r.1).run answer : StateM Segment β) r.2) hp

/-- On every segment of one kind a program ends with this value, and leaves a segment of
another kind. -/
def Leads (P : Segment → Prop) (p : BusProgram α) (a : α) (Q : Segment → Prop) : Prop :=
  ∀ g : Segment, P g → ∃ g', g.Ends p a g' ∧ Q g'

variable {P Q R : Segment → Prop}

theorem leads_pure (a : α) : Leads P (pure a) a P :=
  fun g hg => ⟨g, ends_pure a, hg⟩

/-- What the first program leads to is where the second one begins. -/
theorem Leads.bind (hp : Leads P p a Q) (hf : Leads Q (f a) b R) : Leads P (p >>= f) b R := by
  intro g hg
  obtain ⟨g', hends, hg'⟩ := hp g hg
  obtain ⟨g'', hends', hg''⟩ := hf g' hg'
  exact ⟨g'', hends.bind hends', hg''⟩

section

variable {p : ExceptT ε BusProgram α} {f : α → ExceptT ε BusProgram β} {r : Except ε β}

theorem Leads.bindOk (hp : Leads P p.run (.ok a) Q) (hf : Leads Q (f a).run r R) :
    Leads P (p >>= f).run r R := by
  rw [ExceptT.run_bind]
  exact hp.bind hf

/-- A fault of the first program is the end of both. -/
theorem Leads.bindError {e : ε} (hp : Leads P p.run (.error e) Q) :
    Leads P (p >>= f).run (.error e) Q := by
  rw [ExceptT.run_bind]
  exact hp.bind (leads_pure _)

/-- A program that cannot fail leads to the same within one that can. -/
theorem Leads.lift {p : BusProgram α} (hp : Leads P p a Q) :
    Leads P (liftM p : ExceptT ε BusProgram α).run (.ok a) Q := by
  rw [ExceptT.run_liftM, map_eq_pure_bind]
  exact hp.bind (leads_pure _)

end

end Segment

-- =============================================================== lines

/-- What the answers of a segment hang on. -/
structure Line where
  /-- How many slaves there are. -/
  count : Nat
  few : count < UInt16.size
  al : UInt16 → AlState
  dictionary : UInt16 → Dictionary
  drive : UInt16 → Drive.State
  outputs : UInt16 → Bytes
  /-- Whether the process image is laid out. -/
  mapped : Bool
  /-- Whether some slave has a distributed clock. -/
  clocks : Bool

/-- The slaves of a line are numbered from one. -/
def Line.Has (l : Line) (k : UInt16) : Prop := k ≠ 0 ∧ k.toNat ≤ l.count

/-- A slave stands in a line: it is as its place in the line says, it refuses nothing, and
its image is that of its mappings. -/
structure Slave.Stands (s : Slave) (l : Line) (k : UInt16) : Prop where
  al : s.al = l.al k
  dictionary : s.dictionary = l.dictionary k
  drive : s.drive = l.drive k
  outputs : s.outputs = l.outputs k
  quiet : s.alStatus = .noError
  willing : s.refused = []
  sized : s.imageOverride = none

/-- A segment shows a line. -/
structure Segment.Shows (g : Segment) (l : Line) : Prop where
  count : g.slaves.length = l.count
  discovered : g.discovered = true
  mapped : g.mapped = l.mapped
  clocks : g.hasClocks = l.clocks
  takes : g.failingWrites = []
  slave : ∀ k, l.Has k → ∃ s, g.slave? k = some s ∧ s.Stands l k

/-- On every segment that shows a line a program ends with this value, and leaves a
segment that shows the other line. -/
def Line.Leads (l : Line) (p : BusProgram α) (a : α) (l' : Line) : Prop :=
  ∀ g : Segment, g.Shows l → ∃ g', g.Ends p a g' ∧ g'.Shows l'

namespace Line

variable {l l' l'' : Line} {p : BusProgram α} {f : α → BusProgram β} {a : α} {b : β}

theorem leads_pure (a : α) : l.Leads (pure a) a l := Segment.leads_pure a

theorem Leads.bind (hp : l.Leads p a l') (hf : l'.Leads (f a) b l'') : l.Leads (p >>= f) b l'' :=
  Segment.Leads.bind hp hf

section

variable {p : ExceptT ε BusProgram α} {f : α → ExceptT ε BusProgram β} {r : Except ε β}

theorem Leads.bindOk (hp : l.Leads p.run (.ok a) l') (hf : l'.Leads (f a).run r l'') :
    l.Leads (p >>= f).run r l'' :=
  Segment.Leads.bindOk hp hf

theorem Leads.bindError {e : ε} (hp : l.Leads p.run (.error e) l') :
    l.Leads (p >>= f).run (.error e) l' :=
  Segment.Leads.bindError hp

theorem Leads.lift {p : BusProgram α} (hp : l.Leads p a l') :
    l.Leads (liftM p : ExceptT ε BusProgram α).run (.ok a) l' :=
  Segment.Leads.lift hp

end

-- =============================================================== slaves

/-- The line with a slave in another state. -/
def arrive (l : Line) (k : UInt16) (target : AlState) : Line :=
  { l with al := fun j => if j = k then target else l.al j }

/-- The line with another dictionary of a slave. -/
def store (l : Line) (k : UInt16) (d : Dictionary) : Line :=
  { l with dictionary := fun j => if j = k then d else l.dictionary j }

@[simp] theorem store_self (l : Line) (k : UInt16) : l.store k (l.dictionary k) = l := by
  unfold store
  congr 1
  funext j
  split
  next hjk => rw [hjk]
  next => rfl

@[simp] theorem store_store (l : Line) (k : UInt16) (d d' : Dictionary) :
    (l.store k d).store k d' = l.store k d' := by
  unfold store
  congr 1
  funext j
  dsimp only
  split <;> rfl

@[simp] theorem dictionary_store_self (l : Line) (k : UInt16) (d : Dictionary) :
    (l.store k d).dictionary k = d := if_pos rfl

/-- The line with other outputs of a slave. -/
def send (l : Line) (k : UInt16) (bytes : Bytes) : Line :=
  { l with outputs := fun j => if j = k then bytes else l.outputs j }

/-- The size of the image of a slave. -/
def image (l : Line) (k : UInt16) : Bus.SlaveImage :=
  ⟨Slave.imageBytes ((l.dictionary k).assigned Pdo.receive.assign),
    Slave.imageBytes ((l.dictionary k).assigned Pdo.transmit.assign)⟩

/-- The line with the process image laid out. -/
def layOut (l : Line) : Line :=
  { l with
    outputs := fun k => List.replicate (l.image k).outputBytes 0
    mapped := true }

end Line

-- ============================================================= showing

namespace Segment

variable {g : Segment} {l l' : Line} {k : UInt16} {s s' : Slave}

/-- Only the slaves of the line are there. -/
theorem Shows.has (hg : g.Shows l) (hk : g.slave? k = some s) : l.Has k := by
  obtain ⟨hzero, hget⟩ := slave?_eq_some_iff.1 hk
  have hlt : k.toNat - 1 < g.slaves.length := (List.getElem?_eq_some_iff.1 hget).1
  rw [hg.count] at hlt
  exact ⟨hzero, by omega⟩

/-- Every slave that is found stands in the line. -/
theorem Shows.stands (hg : g.Shows l) (hk : g.slave? k = some s) : s.Stands l k := by
  obtain ⟨s', hs', hstands⟩ := hg.slave k (hg.has hk)
  obtain rfl := Option.some.inj (hk.symm.trans hs')
  exact hstands

/-- Every slave of the line is found. -/
theorem Shows.find (hg : g.Shows l) (hk : l.Has k) : ∃ s, g.find k = .ok s ∧ s.Stands l k := by
  obtain ⟨s, hs, hstands⟩ := hg.slave k hk
  refine ⟨s, ?_, hstands⟩
  unfold Segment.find
  rw [hg.discovered, hs]
  rfl

/-- A slave is replaced, and stands in another line then, which is the same elsewhere. -/
theorem Shows.setSlave (hg : g.Shows l) (hk : g.slave? k = some s) (hcount : l'.count = l.count)
    (hmapped : l'.mapped = l.mapped) (hclocks : l'.clocks = l.clocks) (hs' : s'.Stands l' k)
    (hothers : ∀ (j : UInt16) (t : Slave), j ≠ k → t.Stands l j → t.Stands l' j) :
    (g.setSlave k s').Shows l' where
  count := (List.length_set ..).trans (hg.count.trans hcount.symm)
  discovered := hg.discovered
  mapped := hg.mapped.trans hmapped.symm
  clocks := hg.clocks.trans hclocks.symm
  takes := hg.takes
  slave j hj := by
    by_cases hjk : j = k
    · subst hjk
      exact ⟨s', slave?_setSlave_self hk s', hs'⟩
    · obtain ⟨t, ht, hstands⟩ := hg.slave j ⟨hj.1, hcount ▸ hj.2⟩
      exact ⟨t, (slave?_setSlave_of_ne hk hjk s').trans ht, hothers j t hjk hstands⟩

end Segment

-- ============================================================== states

namespace Line

variable {l : Line} {k : UInt16} {target : AlState}

/-- A slave of the line goes to a state when it is asked to. -/
structure Lets (l : Line) (k : UInt16) (target : AlState) : Prop where
  has : l.Has k
  proper : target ≠ .bootstrap
  mapped : target = .safeOperational ∨ target = .operational → l.mapped = true
  free : target = .operational → l.al k ≠ .preOperational

end Line

variable {g : Segment} {l l' : Line} {k : UInt16} {s : Slave} {target : AlState}

/-- A slave goes to a state that the line lets it go to, without a refusal. -/
theorem Slave.Stands.request (hs : s.Stands l k) (hlets : l.Lets k target) :
    s.request l.mapped target = (.ok (), { s with al := target }) := by
  have hfree : ¬ (target = .operational ∧ s.al = .preOperational ∧ s.stuckInPreop ≠ 0) :=
    fun h => hlets.free h.1 (hs.al.symm.trans h.2.1)
  have hmapped : ¬ ((target = .safeOperational ∨ target = .operational) ∧ (!l.mapped) = true) := by
    intro h
    rw [hlets.mapped h.1] at h
    cases h.2
  unfold Slave.request
  rw [hs.willing]
  dsimp only [List.lookup]
  rw [if_neg hfree, if_neg hmapped, if_neg hlets.proper]

/-- In another state a slave stands in the line with that state. -/
theorem Slave.Stands.arrive (hs : s.Stands l k) :
    { s with al := target }.Stands (l.arrive k target) k :=
  { hs with al := (if_pos rfl).symm }

/-- The other slaves of the line stand as before. -/
theorem Slave.Stands.arrive_other {j : UInt16} (hjk : j ≠ k) (hs : s.Stands l j) :
    s.Stands (l.arrive k target) j :=
  { hs with al := hs.al.trans (if_neg hjk).symm }

namespace Line

/-- A request for a state that the slave is let go to moves it there at once. -/
theorem leads_setState (hlets : l.Lets k target) :
    l.Leads (Bus.setState k target) (.ok ()) (l.arrive k target) := by
  intro g hg
  let logged : Segment := { g with stateRequests := g.stateRequests ++ [(k, target)] }
  have hlogged : logged.Shows l := { hg with }
  obtain ⟨s, hfind, hs⟩ := hlogged.find hlets.has
  have hanswer : g.setState k target = (.ok (), logged.setSlave k { s with al := target }) := by
    have hrequest := hs.request hlets
    rw [← hg.mapped] at hrequest
    unfold Segment.setState
    dsimp only
    rw [hfind]
    dsimp only
    rw [hrequest]
  exact ⟨_, Segment.ends_perform hanswer, hlogged.setSlave (Segment.find_eq_ok hfind) rfl rfl rfl
    hs.arrive fun _ _ hjk ht => ht.arrive_other hjk⟩

/-- No slave of a line has refused anything, so there is nothing to forget. -/
theorem leads_clearAl : l.Leads (Bus.clearAl k) () l := by
  intro g hg
  refine ⟨g.clearAl k, rfl, ?_⟩
  unfold Segment.clearAl
  split
  next => exact hg
  next s hfind =>
    have hslave := Segment.find_eq_ok hfind
    exact hg.setSlave hslave rfl rfl rfl { hg.stands hslave with quiet := rfl } fun _ _ _ ht => ht

/-- The state of a slave is that of its place in the line, without an error. -/
theorem leads_state (hk : l.Has k) :
    l.Leads (Bus.state k) (.ok ⟨some (l.al k), .noError⟩) l := by
  intro g hg
  obtain ⟨s, hfind, hs⟩ := hg.find hk
  have hanswer : g.state k = .ok ⟨some (l.al k), .noError⟩ := by
    unfold Segment.state
    rw [hfind, ← hs.al, ← hs.quiet]
    rfl
  exact ⟨g, Segment.ends_perform (Prod.ext hanswer rfl), hg⟩

end Line

-- ========================================================= dictionaries

/-- What a transaction reads of an item. -/
def Dictionary.shown? (d : Dictionary) (a : Address) : Option Bytes :=
  (d.get? a).map fun data => if a.index = 0x6061 then [d.byte ⟨0x6060, 0⟩] else data

/-- A slave takes a write to an item, with this dictionary in this state. -/
structure Dictionary.Takes (d : Dictionary) (al : AlState) (a : Address) : Prop where
  present : (d.get? a).isSome
  writable : Slave.isWritable { al, dictionary := d } a = true

variable {a : Address} {data : Bytes}

/-- Past the initial state a slave answers what its dictionary shows. -/
theorem Slave.readItem_of_shown (hstarted : s.al ≠ .init)
    (hdata : s.dictionary.shown? a = some data) : s.readItem k a = .ok data := by
  unfold Dictionary.shown? at hdata
  obtain ⟨item, hitem, rfl⟩ := Option.map_eq_some_iff.1 hdata
  unfold Slave.readItem
  rw [if_neg hstarted, hitem]

/-- A write that the dictionary takes in this state goes through to the item. -/
theorem Slave.writeItem_of_takes (hstarted : s.al ≠ .init) (htakes : s.dictionary.Takes s.al a) :
    s.writeItem k a data = (.ok (), { s with dictionary := s.dictionary.put a data }) := by
  have hwritable : s.isWritable a = true := htakes.writable
  have hpresent : ¬ (s.dictionary.get? a).isNone = true := by
    rw [Option.isNone_iff_eq_none, ← Option.not_isSome_iff_eq_none]
    exact not_not_intro htakes.present
  unfold Slave.writeItem
  rw [if_neg hstarted, if_neg hpresent, hwritable]
  rfl

namespace Segment

/-- The segment with another transaction in its log. -/
def logged (g : Segment) (x : Transaction) : Segment :=
  { g with transactions := g.transactions ++ [x] }

/-- The log of transactions does not show in the line. -/
theorem Shows.logged (hg : g.Shows l) (x : Transaction) : (g.logged x).Shows l := { hg with }

/-- What is there is read. -/
theorem sdoRead_eq (hfind : g.find k = .ok s) (hstarted : s.al ≠ .init)
    (hdata : s.dictionary.shown? a = some data) (capacity : Nat) :
    g.sdoRead k a capacity = (.ok (data.take capacity), g.logged ⟨k, a, data, false⟩) := by
  unfold Segment.sdoRead
  rw [hfind]
  dsimp only [Except.bind]
  rw [Slave.readItem_of_shown hstarted hdata]
  rfl

/-- What a slave takes is written. -/
theorem sdoWrite_eq (hfree : a ∉ g.failingWrites) (hfind : g.find k = .ok s)
    (hstarted : s.al ≠ .init) (htakes : s.dictionary.Takes s.al a) (data : Bytes) :
    g.sdoWrite k a data = (.ok (), (g.logged ⟨k, a, data, true⟩).setSlave k
      { s with dictionary := s.dictionary.put a data }) := by
  have hlogged : (g.logged ⟨k, a, data, true⟩).find k = .ok s := hfind
  unfold logged at hlogged ⊢
  unfold Segment.sdoWrite
  dsimp only
  rw [if_neg hfree, hlogged]
  dsimp only
  rw [Slave.writeItem_of_takes hstarted htakes]

end Segment

namespace Line

/-- A slave that is asked to configure itself answers transactions. -/
theorem started (hstate : l.al k = .preOperational) : l.al k ≠ .init := by
  rw [hstate]
  decide

/-- A read answers as much of the item as there is room for, and changes nothing. -/
theorem leads_sdoRead (hk : l.Has k) (hstarted : l.al k ≠ .init)
    (hdata : (l.dictionary k).shown? a = some data) (capacity : Nat) :
    l.Leads (Bus.sdoRead k a capacity) (.ok (data.take capacity)) l := by
  intro g hg
  obtain ⟨s, hfind, hs⟩ := hg.find hk
  rw [← hs.al] at hstarted
  rw [← hs.dictionary] at hdata
  have hanswer := Segment.sdoRead_eq hfind hstarted hdata capacity
  exact ⟨_, Segment.ends_perform hanswer, hg.logged _⟩

/-- A write that is taken changes the dictionary of its slave alone. -/
theorem leads_sdoWrite (hk : l.Has k) (hstarted : l.al k ≠ .init)
    (htakes : (l.dictionary k).Takes (l.al k) a) (data : Bytes) :
    l.Leads (Bus.sdoWrite k a data) (.ok ()) (l.store k ((l.dictionary k).put a data)) := by
  intro g hg
  obtain ⟨s, hfind, hs⟩ := hg.find hk
  have hfree : a ∉ g.failingWrites := by
    rw [hg.takes]
    exact List.not_mem_nil
  rw [← hs.al] at hstarted
  rw [← hs.al, ← hs.dictionary] at htakes
  have hanswer := Segment.sdoWrite_eq hfree hfind hstarted htakes data
  refine ⟨_, Segment.ends_perform hanswer, (hg.logged _).setSlave (Segment.find_eq_ok hfind) rfl
    rfl rfl ?_ fun j t hjk ht => ?_⟩
  · rw [hs.dictionary]
    exact { hs with dictionary := (if_pos rfl).symm }
  · exact { ht with dictionary := ht.dictionary.trans (if_neg hjk).symm }

-- =============================================================== images

/-- What becomes of setting up the clocks. -/
def clocksAnswer (l : Line) : Except Bus.Fault Unit :=
  if l.clocks then .ok () else .error (.master "no slave supporting distributed clocks")

/-- Whether there are clocks is a matter of the line. -/
theorem leads_clocks : l.Leads Bus.clocks l.clocksAnswer l := by
  intro g hg
  have hanswer : g.clocks = l.clocksAnswer := by
    unfold clocksAnswer
    rw [← hg.clocks]
    rfl
  exact ⟨g, Segment.ends_perform (Prod.ext hanswer rfl), hg⟩

/-- The numbers of the slaves, in order. -/
def slaves (l : Line) : List UInt16 := Bringup.slavesOf (.ofNat l.count)

theorem toNat_count (l : Line) : (UInt16.ofNat l.count).toNat = l.count :=
  UInt16.toNat_ofNat_of_lt' l.few

/-- The numbers of the slaves of a line do not wrap around. -/
theorem toNat_number {i : Nat} (hi : i < l.count) : (UInt16.ofNat (i + 1)).toNat = i + 1 :=
  UInt16.toNat_ofNat_of_lt' (Nat.lt_of_le_of_lt hi l.few)

theorem has_number {i : Nat} (hi : i < l.count) : l.Has (.ofNat (i + 1)) := by
  have hnumber := toNat_number hi
  refine ⟨fun hzero => ?_, by omega⟩
  rw [hzero] at hnumber
  exact absurd hnumber (by simp)

theorem slaves_eq (l : Line) : l.slaves = (List.range l.count).map fun i => .ofNat (i + 1) := by
  unfold slaves Bringup.slavesOf
  rw [toNat_count]

/-- The slaves of a line are those that are numbered. -/
theorem mem_slaves : k ∈ l.slaves ↔ l.Has k := by
  rw [slaves_eq, List.mem_map]
  constructor
  · intro h
    obtain ⟨i, hi, rfl⟩ := h
    exact has_number (List.mem_range.1 hi)
  · intro h
    obtain ⟨hzero, hle⟩ := h
    have hpos : k.toNat ≠ 0 := fun h => hzero (UInt16.toNat_inj.1 h)
    refine ⟨k.toNat - 1, List.mem_range.2 (by omega), ?_⟩
    rw [Nat.sub_add_cancel (Nat.pos_of_ne_zero hpos), UInt16.ofNat_toNat]

/-- What is listed of the slaves is found under their numbers. -/
theorem ofSlave?_slaves {β : Type} (f : UInt16 → β) (hk : l.Has k) :
    Bus.ofSlave? (l.slaves.map f) k = some (f k) := by
  obtain ⟨hzero, hle⟩ := hk
  have hpos : k.toNat ≠ 0 := fun h => hzero (UInt16.toNat_inj.1 h)
  unfold Bus.ofSlave?
  rw [if_neg hzero, slaves_eq, List.getElem?_map, List.getElem?_map,
    List.getElem?_range (by omega)]
  dsimp only [Option.map]
  rw [Nat.sub_add_cancel (Nat.pos_of_ne_zero hpos), UInt16.ofNat_toNat]

end Line

/-- The image of a slave is that of the mappings in its place. -/
theorem Slave.Stands.image_eq (hs : s.Stands l k) : s.image = l.image k := by
  unfold Slave.image
  rw [hs.sized, hs.dictionary]
  rfl

/-- What is listed of the slaves of a segment, where it hangs on the line alone. -/
theorem Segment.Shows.map_slaves {β : Type} {f : Slave → β} {f' : UInt16 → β} (hg : g.Shows l)
    (hf : ∀ (k : UInt16) (s : Slave), s.Stands l k → f s = f' k) :
    g.slaves.map f = l.slaves.map f' := by
  refine List.ext_getElem? fun i => ?_
  rw [Line.slaves_eq, List.map_map, List.getElem?_map, List.getElem?_map]
  by_cases hi : i < l.count
  · obtain ⟨s, hslave, hs⟩ := hg.slave _ (Line.has_number hi)
    obtain ⟨-, hget⟩ := Segment.slave?_eq_some_iff.1 hslave
    rw [Line.toNat_number hi, Nat.add_sub_cancel] at hget
    rw [hget, List.getElem?_range hi]
    exact congrArg some (hf _ s hs)
  · rw [List.getElem?_eq_none (by rw [hg.count]; omega),
      List.getElem?_eq_none (by rw [List.length_range]; omega)]
    rfl

namespace Line

/-- The image is laid out from the mappings of the line, and the outputs are zeros then. -/
theorem leads_map :
    l.Leads Bus.map (.ok ⟨l.slaves.map l.image, .ofNat l.count, .ofNat l.count⟩) l.layOut := by
  intro g hg
  have hanswer : g.map = (.ok ⟨l.slaves.map l.image, .ofNat l.count, .ofNat l.count⟩,
      { g with slaves := g.slaves.map Slave.mapImage, mapped := true }) := by
    unfold Segment.map
    rw [hg.discovered, ← hg.count, ← hg.map_slaves fun _ _ hs => hs.image_eq]
    rfl
  refine ⟨_, Segment.ends_perform hanswer, ?_⟩
  constructor
  case count => exact (List.length_map ..).trans hg.count
  case discovered => exact hg.discovered
  case mapped => rfl
  case clocks => exact hg.clocks
  case takes => exact hg.takes
  case slave =>
    intro k hk
    obtain ⟨s, hslave, hs⟩ := hg.slave k hk
    refine ⟨s.mapImage, Segment.slave?_map hslave Slave.mapImage, { hs with outputs := ?_ }⟩
    show List.replicate s.image.outputBytes 0 = List.replicate (l.image k).outputBytes 0
    rw [hs.image_eq]

/-- The outputs of a slave are those of its place in the line. -/
theorem leads_outputs (hk : l.Has k) : l.Leads (Bus.outputs k) (l.outputs k) l := by
  intro g hg
  obtain ⟨s, hslave, hs⟩ := hg.slave k hk
  have hanswer : g.outputs k = l.outputs k := (Segment.answer_outputs hslave).trans hs.outputs
  exact ⟨g, Segment.ends_perform (Prod.ext hanswer rfl), hg⟩

/-- Outputs that are handed over are in the line, as far as they have room. -/
theorem leads_setOutputs (hk : l.Has k) (bytes : Bytes) :
    l.Leads (Bus.setOutputs k bytes) () (l.send k (Bytes.overwrite (l.outputs k) bytes)) := by
  intro g hg
  obtain ⟨s, hslave, hs⟩ := hg.slave k hk
  have hanswer : g.setOutputs k bytes
      = g.setSlave k { s with outputs := Bytes.overwrite (l.outputs k) bytes } := by
    unfold Segment.setOutputs
    rw [hslave, ← hs.outputs]
  refine ⟨_, Segment.ends_perform (congrArg (Prod.mk ()) hanswer), ?_⟩
  refine hg.setSlave hslave rfl rfl rfl ?_ fun j t hjk ht => ?_
  · exact { hs with outputs := (if_pos rfl).symm }
  · exact { ht with outputs := ht.outputs.trans (if_neg hjk).symm }

end Line

-- =========================================================== exchanges

/-- After an exchange a segment shows another line of as many slaves, if each of them
stands in it. -/
theorem Segment.Shows.exchange_of_slaves (hg : g.Shows l) (hcount : l'.count = l.count)
    (hmapped : l'.mapped = l.mapped) (hclocks : l'.clocks = l.clocks)
    (hslaves : ∀ k, l'.Has k →
      ∃ s, (Segment.answer .exchange g).2.slave? k = some s ∧ s.Stands l' k) :
    (Segment.answer .exchange g).2.Shows l' := by
  have hsame : g.exchange.2.slaves.length = g.slaves.length ∧ g.exchange.2.discovered = g.discovered
      ∧ g.exchange.2.mapped = g.mapped ∧ g.exchange.2.hasClocks = g.hasClocks
      ∧ g.exchange.2.failingWrites = g.failingWrites := by
    unfold Segment.exchange
    split
    next => exact ⟨rfl, rfl, rfl, rfl, rfl⟩
    next => dsimp only; split <;> simp
  obtain ⟨hlength, hdiscovered, hmapped', hclocks', htakes⟩ := hsame
  exact ⟨(hlength.trans hg.count).trans hcount.symm, hdiscovered.trans hg.discovered,
    (hmapped'.trans hg.mapped).trans hmapped.symm, (hclocks'.trans hg.clocks).trans hclocks.symm,
    htakes.trans hg.takes, hslaves⟩

/-- What an exchange leaves of a slave. -/
theorem Slave.exchange_settings (s : Slave) :
    s.exchange.1.al = s.al ∧ s.exchange.1.alStatus = s.alStatus ∧ s.exchange.1.refused = s.refused
      ∧ s.exchange.1.imageOverride = s.imageOverride ∧ s.exchange.1.frozen = s.frozen := by
  have hread : s.readOutputs.al = s.al ∧ s.readOutputs.alStatus = s.alStatus
      ∧ s.readOutputs.refused = s.refused ∧ s.readOutputs.imageOverride = s.imageOverride
      ∧ s.readOutputs.frozen = s.frozen := by
    unfold readOutputs
    dsimp only
    split <;> exact ⟨rfl, rfl, rfl, rfl, rfl⟩
  unfold exchange
  split
  next => exact hread
  next => exact ⟨rfl, rfl, rfl, rfl, rfl⟩
  next => exact ⟨rfl, rfl, rfl, rfl, rfl⟩

/-- An exchange moves the drives, and that is all it does to a line. -/
theorem Segment.Shows.exchange (hg : g.Shows l) :
    ∃ drive, (Segment.answer .exchange g).2.Shows { l with drive } := by
  let drive (k : UInt16) : Drive.State :=
    (((Segment.answer .exchange g).2.slave? k).map Slave.drive).getD .notReady
  refine ⟨drive, hg.exchange_of_slaves rfl rfl rfl fun k hk => ?_⟩
  obtain ⟨s, hslave, hs⟩ := hg.slave k hk
  have hafter := Segment.answer_exchange hslave
  refine ⟨_, hafter, ?_⟩
  have hdrive : drive k = (if g.mapped then s.exchange.1 else s).drive := by
    show (((Segment.answer .exchange g).2.slave? k).map Slave.drive).getD _ = _
    rw [hafter]
    rfl
  obtain ⟨hdictionary, houtputs⟩ := s.exchange_kept
  obtain ⟨hal, hstatus, hrefused, hsized, -⟩ := s.exchange_settings
  split at hdrive
  next hmapped =>
    rw [if_pos hmapped]
    exact ⟨hal.trans hs.al, hdictionary.trans hs.dictionary, hdrive.symm,
      houtputs.trans hs.outputs, hstatus.trans hs.quiet, hrefused.trans hs.willing,
      hsized.trans hs.sized⟩
  next hmapped =>
    rw [if_neg hmapped]
    exact { hs with drive := hdrive.symm }

-- ============================================================= keeping

namespace Line

variable {α β : Type} {p : BusProgram α} {f : α → BusProgram β} {b : β} {l' : Line}

/-- However a request is answered, the segment goes on showing the line. -/
def KeptBy (l : Line) (r : Bus.Request) : Prop :=
  ∀ g : Segment, g.Shows l → (Segment.answer r g).2.Shows l

/-- Whatever a program ends with, the segment goes on showing the line. -/
def Keeps (l : Line) (p : BusProgram α) : Prop :=
  ∀ g : Segment, g.Shows l → ∃ a g', g.Ends p a g' ∧ g'.Shows l

/-- A program keeps a line if each of its requests does. -/
theorem keeps_of_only (hp : p.Only l.KeptBy) : l.Keeps p := by
  intro g hg
  induction p generalizing g with
  | done value => exact ⟨value, g, rfl, hg⟩
  | request r resume ih =>
    obtain ⟨a, g', hends, hg'⟩ := ih (Segment.answer r g).1 (hp.2 _) (Segment.answer r g).2
      (hp.1 g hg)
    exact ⟨a, g', hends, hg'⟩

/-- A program whose value is not looked at. -/
theorem Keeps.bind (hp : l.Keeps p) (hf : ∀ a, l.Leads (f a) b l') : l.Leads (p >>= f) b l' := by
  intro g hg
  obtain ⟨a, g', hends, hg'⟩ := hp g hg
  obtain ⟨g'', hends', hg''⟩ := hf a g' hg'
  exact ⟨g'', hends.bind hends', hg''⟩

theorem keptBy_sdoRead (a : Address) (capacity : Nat) : l.KeptBy (.sdoRead k a capacity) := by
  intro g hg
  show (g.sdoRead k a capacity).2.Shows l
  unfold Segment.sdoRead
  split
  next => exact hg
  next => exact { hg with }

/-- As long as no slave is operational, an exchange moves nothing. -/
theorem keptBy_exchange (hidle : ∀ k, l.Has k → l.al k ≠ .operational) : l.KeptBy .exchange := by
  intro g hg
  refine hg.exchange_of_slaves rfl rfl rfl fun k hk => ?_
  obtain ⟨s, hslave, hs⟩ := hg.slave k hk
  refine ⟨_, Segment.answer_exchange hslave, ?_⟩
  split
  next =>
    have hoff := hs.al ▸ hidle k hk
    unfold Slave.exchange
    split
    next hon => exact absurd hon hoff
    next => exact { hs with }
    next => exact hs
  next => exact hs

end Line

end Servo.Simulation
