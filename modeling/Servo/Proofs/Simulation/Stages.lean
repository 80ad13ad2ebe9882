/-
What the stages of a bring-up come to on a segment that does as it is told.

Every slave of a line goes where it is asked to at the first attempt
(`leads_bringTo_slaves`); the parameters of a drive are all taken, and its mappings
negotiated, whatever it is asked for (`leads_writeParameters`, `leads_negotiateMappings`).
So nothing fails before the process image is looked at, and what is found there is a
matter of the mappings alone: the image must be as large as required and have room for
the control word (`leads_prepareImage`, `fails_prepareImage`).
-/
import Servo.Proofs.Bringup.SafeOutputs
import Servo.Proofs.Bringup.Sizing
import Servo.Proofs.Config
import Servo.Proofs.Simulation.Rewriting

namespace Servo

open Simulation (Dictionary Line Segment Slave)
open Simulation.Line

variable {l : Line} {k : UInt16} {timing : Timing} {target : AlState} {c : Config}

-- ============================================================== states

namespace StateControl

/-- A slave that is there is found at the first poll. -/
theorem leads_poll {polls : Nat} {last : Bus.Status} (hk : l.Has k) (hthere : l.al k = target) :
    l.Leads (poll k target (polls + 1) last) (true, ⟨some target, .noError⟩) l := by
  unfold poll
  refine (leads_state hk).bind ?_
  dsimp only
  rw [hthere, if_pos rfl]
  exact leads_pure _

/-- A slave that lets itself be asked is there at once. -/
theorem leads_ask {polls : Nat} {last : Bus.Status} (hlets : l.Lets k target) :
    l.Leads (ask k target (polls + 1) last) (true, ⟨some target, .noError⟩)
      (l.arrive k target) := by
  unfold ask
  exact (leads_setState hlets).bind (leads_poll hlets.has (if_pos rfl))

/-- A slave that lets itself be asked goes to a state at the first attempt. -/
theorem leads_reach (hattempts : timing.stateAttempts ≠ 0) (hpolls : timing.statePolls ≠ 0)
    (hlets : l.Lets k target) :
    l.Leads (reach timing k target) (.ok ()) (l.arrive k target) := by
  obtain ⟨left, hleft⟩ : ∃ left, timing.stateAttempts.toNat = left + 1 :=
    Nat.exists_eq_succ_of_ne_zero fun h => hattempts (UInt32.toNat_inj.1 h)
  obtain ⟨polls, hpolls⟩ : ∃ polls, timing.statePolls.toNat = polls + 1 :=
    Nat.exists_eq_succ_of_ne_zero fun h => hpolls (UInt32.toNat_inj.1 h)
  unfold reach
  rw [hleft]
  unfold attempts
  rw [hpolls]
  refine Leads.bind (leads_clearAl.bind ((leads_ask hlets).bind (leads_pure _))) ?_
  exact leads_pure _

end StateControl

namespace Simulation.Line

/-- The line with some slaves in another state. -/
def gather (l : Line) (list : List UInt16) (target : AlState) : Line :=
  { l with al := fun j => if j ∈ list then target else l.al j }

/-- The line with all slaves in another state. -/
def all (l : Line) (target : AlState) : Line := { l with al := fun _ => target }

/-- Slaves are gathered one by one. -/
theorem gather_cons (l : Line) (k : UInt16) (rest : List UInt16) (target : AlState) :
    l.gather (k :: rest) target = (l.arrive k target).gather rest target := by
  unfold gather arrive
  congr 1
  funext j
  by_cases hj : j = k
  · simp [hj]
  · simp [hj]

/-- A slave that moves on does not keep the others from going to the same state. -/
theorem Lets.arrive {j : UInt16} (h : l.Lets j target) : (l.arrive k target).Lets j target :=
  { h with
    free := by
      intro htarget
      show (if j = k then target else l.al j) ≠ .preOperational
      split
      next => rw [htarget]; exact nofun
      next => exact h.free htarget }

/-- Where all slaves were gathered, they all are. -/
theorem all_of_gather {g : Segment} (hg : g.Shows (l.gather l.slaves target)) :
    g.Shows (l.all target) :=
  { hg with
    slave := by
      intro k hk
      obtain ⟨s, hslave, hs⟩ := hg.slave k hk
      exact ⟨s, hslave, { hs with al := hs.al.trans (if_pos (mem_slaves.2 hk)) }⟩ }

end Simulation.Line

namespace Bringup

/-- A stage that can fail leads where its program does, with the fault as its own error. -/
theorem leads_failing {α ε : Type} {f : ε → Error} {p : BusProgram (Except ε α)} {r : Except ε α}
    {l' : Line} (hp : l.Leads p r l') :
    l.Leads (failing f p).run (r.mapError fun e => .failed (f e)) l' :=
  hp.bind (leads_pure _)

/-- A value that can be computed is there without any request. -/
theorem leads_computed {α : Type} {o : Option α} {a : α} (ho : o = some a) :
    l.Leads (computed o).run (.ok a) l := by
  rw [ho]
  exact leads_pure _

section

variable (hattempts : timing.stateAttempts ≠ 0) (hpolls : timing.statePolls ≠ 0)
include hattempts hpolls

/-- All slaves of a list that let themselves be asked are gathered in the state. -/
theorem leads_bringTo {list : List UInt16} (hlets : ∀ k ∈ list, l.Lets k target) :
    l.Leads (bringTo timing target list).run (.ok ()) (l.gather list target) := by
  induction list generalizing l with
  | nil =>
    have hnone : l.gather [] target = l := by simp [gather]
    rw [hnone]
    exact leads_pure _
  | cons k rest ih =>
    obtain ⟨hk, hrest⟩ := List.forall_mem_cons.1 hlets
    have hreach := StateControl.leads_reach hattempts hpolls hk
    rw [gather_cons]
    exact (leads_failing hreach).bindOk (ih fun j hj => (hrest j hj).arrive)

/-- All slaves of a line go where they let themselves be asked to. -/
theorem leads_bringTo_slaves (hlets : ∀ k, l.Has k → l.Lets k target) :
    l.Leads (bringTo timing target (slavesOf (.ofNat l.count))).run (.ok ()) (l.all target) := by
  intro g hg
  obtain ⟨g', hends, hg'⟩ :=
    leads_bringTo hattempts hpolls (fun k hk => hlets k (mem_slaves.1 hk)) g hg
  exact ⟨g', hends, all_of_gather hg'⟩

end

-- ========================================================== parameters

/-- The dictionary with parameters written. -/
def parametrized (d : Dictionary) (parameters : List Parameter) : Dictionary :=
  parameters.foldl (fun d parameter => d.put parameter.address parameter.data) d

/-- The parameters change no item but their own. -/
theorem get?_parametrized {d : Dictionary} {parameters : List Parameter} {a : Address}
    (h : ∀ parameter ∈ parameters, parameter.address ≠ a) :
    (parametrized d parameters).get? a = d.get? a := by
  induction parameters generalizing d with
  | nil => rfl
  | cons parameter rest ih =>
    obtain ⟨hfirst, hrest⟩ := List.forall_mem_cons.1 h
    exact (ih hrest).trans (Dictionary.get?_put_of_ne (Ne.symm hfirst) _)

/-- No item is taken away by the parameters. -/
theorem isSome_parametrized {d : Dictionary} {parameters : List Parameter} {a : Address}
    (h : (d.get? a).isSome) : ((parametrized d parameters).get? a).isSome := by
  induction parameters generalizing d with
  | nil => exact h
  | cons parameter rest ih => exact ih (Dictionary.isSome_put h)

/-- Outside the objects that are exchanged, items can be written before operation. -/
theorem takes_of_present {d : Dictionary} {a : Address} (hpresent : (d.get? a).isSome)
    (hfree : Slave.assignmentOf? a.index = none) : d.Takes .preOperational a where
  present := hpresent
  writable := by
    unfold Slave.isWritable
    dsimp only
    rw [hfree]
    simp

/-- All optional parameters are taken, so none is noted as refused. -/
theorem leads_writeOptional {parameters : List Parameter} (hk : l.Has k)
    (hstate : l.al k = .preOperational)
    (hpresent : ∀ parameter ∈ parameters, ((l.dictionary k).get? parameter.address).isSome
      ∧ Slave.assignmentOf? parameter.address.index = none) :
    l.Leads (writeOptional k parameters) []
      (l.store k (parametrized (l.dictionary k) parameters)) := by
  induction parameters generalizing l with
  | nil =>
    show l.Leads _ _ (l.store k (l.dictionary k))
    rw [store_self]
    exact leads_pure _
  | cons parameter rest ih =>
    obtain ⟨⟨hfirst, hfree⟩, hrest⟩ := List.forall_mem_cons.1 hpresent
    have hstarted := started hstate
    have hwrite := leads_sdoWrite hk hstarted (hstate ▸ takes_of_present hfirst hfree)
      parameter.data
    have hlater := ih (l := l.store k ((l.dictionary k).put parameter.address parameter.data)) hk
      hstate fun other hother => by
        rw [dictionary_store_self]
        exact ⟨Dictionary.isSome_put (hrest other hother).1, (hrest other hother).2⟩
    rw [store_store, dictionary_store_self] at hlater
    unfold writeOptional
    exact hwrite.bind (hlater.bind (leads_pure _))

/-- The items that are written as parameters of a drive. -/
def parameterItems : List Address := Dictionary.parameters.map Prod.fst

/-- They are there in a new drive, and have nothing to do with what it exchanges. -/
theorem parameterItems_apart : ∀ a ∈ parameterItems, (Dictionary.initial.get? a).isSome
    ∧ Slave.assignmentOf? a.index = none
    ∧ ∀ pdo ∈ [Pdo.receive, Pdo.transmit], a.index ≠ pdo.index ∧ a.index ≠ pdo.assign := by
  decide

/-- The parameters are items of their own, none of which is the operation mode. -/
theorem optionalParameters_items (p : DriveParameters) :
    ∀ parameter ∈ optionalParameters p, parameter.address ∈ parameterItems
      ∧ parameter.address ≠ DataObject.Standard.modeOfOperation.address := by
  unfold optionalParameters Parameter.ofObject
  simp only [List.forall_mem_cons, List.not_mem_nil, false_implies, implies_true, and_true]
  decide

/-- The dictionary of a new drive with its parameters written. -/
def withParameters (p : DriveParameters) : Dictionary :=
  parametrized (Dictionary.initial.put DataObject.Standard.modeOfOperation.address
    (Packed.bytes OperationMode.torqueProfile)) (optionalParameters p)

/-- Only parameters are written. -/
theorem get?_withParameters {p : DriveParameters} {a : Address} (ha : a ∉ parameterItems) :
    (withParameters p).get? a = Dictionary.initial.get? a := by
  have hmode : a ≠ DataObject.Standard.modeOfOperation.address := by
    rintro rfl
    exact ha (by decide)
  refine (get?_parametrized fun parameter hparameter haddress => ha ?_).trans
    (Dictionary.get?_put_of_ne hmode _)
  rw [← haddress]
  exact (optionalParameters_items p parameter hparameter).1

/-- The mode that is shown is the one that was asked for. -/
theorem shown?_withParameters (p : DriveParameters) :
    (withParameters p).shown? DataObject.Standard.modeDisplay.address
      = some (Packed.bytes OperationMode.torqueProfile.raw) := by
  have hshown : ((withParameters p).get? DataObject.Standard.modeDisplay.address).isSome := by
    refine isSome_parametrized (Dictionary.isSome_put ?_)
    decide
  have hmode : (withParameters p).byte DataObject.Standard.modeOfOperation.address = 4 := by
    refine (Dictionary.byte_congr (get?_parametrized fun parameter hparameter => ?_)).trans ?_
    · exact (optionalParameters_items p parameter hparameter).2
    · decide
  obtain ⟨data, hdata⟩ := Option.isSome_iff_exists.1 hshown
  have hindex : DataObject.Standard.modeDisplay.address.index = 0x6061 := rfl
  unfold Dictionary.shown?
  rw [hdata, Option.map_some, if_pos hindex]
  exact congrArg (fun b => some [b]) hmode

/-- A new drive takes all parameters, and shows the mode it was given. -/
theorem leads_writeParameters (hk : l.Has c.slave) (hstate : l.al c.slave = .preOperational)
    (hnew : l.dictionary c.slave = .initial) :
    l.Leads (writeParameters c).run (.ok ([], some OperationMode.torqueProfile.raw))
      (l.store c.slave (withParameters c.parameters)) := by
  have hstarted := started hstate
  let moded : Dictionary := Dictionary.initial.put DataObject.Standard.modeOfOperation.address
    (Packed.bytes OperationMode.torqueProfile)
  have hmode : l.Leads (DataObject.Standard.modeOfOperation.write c.slave .torqueProfile)
      (.ok ()) (l.store c.slave moded) := by
    have htakes : (l.dictionary c.slave).Takes (l.al c.slave)
        DataObject.Standard.modeOfOperation.address := by
      rw [hstate, hnew]
      exact takes_of_present (by decide) (by decide)
    have hwrite := leads_sdoWrite hk hstarted htakes (Packed.bytes OperationMode.torqueProfile)
    rw [hnew] at hwrite
    exact hwrite
  have hwrites : (l.store c.slave moded).Leads
      (writeOptional c.slave (optionalParameters c.parameters)) []
      (l.store c.slave (withParameters c.parameters)) := by
    have hpresent : ∀ parameter ∈ optionalParameters c.parameters,
        (((l.store c.slave moded).dictionary c.slave).get? parameter.address).isSome
          ∧ Slave.assignmentOf? parameter.address.index = none := by
      intro parameter hparameter
      have hitem := parameterItems_apart _ (optionalParameters_items _ parameter hparameter).1
      rw [dictionary_store_self]
      exact ⟨Dictionary.isSome_put hitem.1, hitem.2.1⟩
    have hall := leads_writeOptional (l := l.store c.slave moded) hk hstate hpresent
    rw [store_store, dictionary_store_self] at hall
    exact hall
  have hread : (l.store c.slave (withParameters c.parameters)).Leads
      (DataObject.Standard.modeDisplay.read c.slave) (.ok OperationMode.torqueProfile.raw)
      (l.store c.slave (withParameters c.parameters)) := by
    have hshown := shown?_withParameters c.parameters
    rw [← dictionary_store_self l c.slave (withParameters c.parameters)] at hshown
    exact DataObject.leads_read (l := l.store c.slave (withParameters c.parameters)) hk hstarted
      hshown
  unfold writeParameters
  refine (leads_failing hmode).bindOk ?_
  exact hwrites.lift.bindOk (hread.lift.bindOk (leads_pure _))

-- ============================================================ mappings

variable {pdo : Pdo} {mapping : List Pdo.Entry}

/-- Reading a mapping back changes nothing. -/
theorem leads_negotiateOne (hk : l.Has k) (hstate : l.al k = .preOperational)
    (hpdo : pdo = .receive ∨ pdo = .transmit) (hroom : (l.dictionary k).Room pdo mapping.length)
    (hfew : mapping.length ≤ Pdo.maxEntries) :
    l.Leads (negotiateOne k pdo mapping)
      (.negotiated (Negotiation.outcomeOn (l.dictionary k) pdo mapping))
      (l.store k (Negotiation.settled (l.dictionary k) pdo mapping)) := by
  have hdescribed (l' : Line) : l'.Keeps (Negotiation.describe k pdo.index) :=
    keeps_of_only (Negotiation.only_describe keptBy_sdoRead)
  unfold negotiateOne
  refine (Negotiation.leads_negotiate hk hstate hpdo hroom hfew).bind ?_
  exact (hdescribed _).bind fun _ => leads_pure _

/-- What a new drive exchanges. -/
def defaultMapping (pdo : Pdo) : List Pdo.Entry :=
  if pdo = .receive then Pdo.defaultReceive else Pdo.defaultTransmit

/-- A dictionary has the objects of a mapping as they are made. -/
def Untouched (pdo : Pdo) (d : Dictionary) : Prop :=
  ∀ a, a.index = pdo.index ∨ a.index = pdo.assign → d.get? a = Dictionary.initial.get? a

variable {d : Dictionary}

/-- A mapping that was not touched has room for as many entries as a mapping can have. -/
theorem Untouched.room (h : Untouched pdo d) (hpdo : pdo = .receive ∨ pdo = .transmit)
    (hfew : mapping.length ≤ Pdo.maxEntries) : d.Room pdo mapping.length := by
  have hnew : (Dictionary.initial.get? ⟨pdo.assign, 0⟩).isSome
      ∧ ∀ i, i < 9 → (Dictionary.initial.get? ⟨pdo.index, .ofNat i⟩).isSome := by
    rcases hpdo with rfl | rfl <;> decide
  constructor
  case assign =>
    rw [h _ (.inr rfl)]
    exact hnew.1
  case map =>
    intro i hi
    rw [h _ (.inl rfl)]
    exact hnew.2 i (Nat.lt_succ_of_le (Nat.le_trans hi hfew))

/-- It is the only one that its assignment lists. -/
theorem Untouched.exchanges (h : Untouched pdo d) (hpdo : pdo = .receive ∨ pdo = .transmit) :
    d.Lists pdo ∧ d.byte ⟨pdo.assign, 0⟩ = 1 := by
  have hnew : Dictionary.initial.Lists pdo ∧ Dictionary.initial.byte ⟨pdo.assign, 0⟩ = 1 := by
    rcases hpdo with rfl | rfl
    · exact ⟨⟨_, rfl, rfl⟩, by decide⟩
    · exact ⟨⟨_, rfl, rfl⟩, by decide⟩
  exact ⟨hnew.1.congr (h _ (.inr rfl)), (Dictionary.byte_congr (h _ (.inr rfl))).trans hnew.2⟩

/-- It holds the default entries, and only those are current. -/
theorem Untouched.current_iff (h : Untouched pdo d) (hpdo : pdo = .receive ∨ pdo = .transmit) :
    Negotiation.Current d pdo.index mapping ↔ mapping = defaultMapping pdo := by
  have hnew : Dictionary.initial.mapping pdo.index = defaultMapping pdo
      ∧ Dictionary.initial.byte ⟨pdo.index, 0⟩ = .ofNat (defaultMapping pdo).length := by
    rcases hpdo with rfl | rfl <;> decide
  unfold Negotiation.Current
  rw [Dictionary.mapping_congr fun a ha => h a (.inl ha), Dictionary.byte_congr (h _ (.inl rfl)),
    hnew.1, hnew.2]
  constructor
  · exact fun h => h.2.symm
  · rintro rfl
    exact ⟨rfl, rfl⟩

/-- So a negotiation writes just if it wants other entries. -/
theorem Untouched.outcomeOn (h : Untouched pdo d) (hpdo : pdo = .receive ∨ pdo = .transmit) :
    Negotiation.outcomeOn d pdo mapping
      = if mapping = defaultMapping pdo then .unchanged else .applied := by
  unfold Negotiation.outcomeOn
  simp only [h.current_iff hpdo]

/-- The parameters of a drive touch neither of its mappings. -/
theorem untouched_withParameters (p : DriveParameters) (hpdo : pdo = .receive ∨ pdo = .transmit) :
    Untouched pdo (withParameters p) := by
  intro a ha
  refine get?_withParameters fun hitem => ?_
  have hpdo : pdo ∈ [Pdo.receive, Pdo.transmit] := by simpa using hpdo
  have hapart := (parameterItems_apart a hitem).2.2 pdo hpdo
  rcases ha with ha | ha
  · exact hapart.1 ha
  · exact hapart.2 ha

/-- A negotiation of one mapping does not touch the other one. -/
theorem get?_settled_other {other : Pdo} {a : Address}
    (hindex : other.index ≠ pdo.index ∧ other.index ≠ pdo.assign)
    (hassign : other.assign ≠ pdo.index ∧ other.assign ≠ pdo.assign)
    (ha : a.index = other.index ∨ a.index = other.assign) :
    (Negotiation.settled d pdo mapping).get? a = d.get? a := by
  rcases ha with ha | ha
  · exact Negotiation.get?_settled (ha ▸ hindex.1) (ha ▸ hindex.2)
  · exact Negotiation.get?_settled (ha ▸ hassign.1) (ha ▸ hassign.2)

/-- Negotiating one mapping does not touch the other one. -/
theorem Untouched.settled (h : Untouched .transmit d) :
    Untouched .transmit (Negotiation.settled d .receive mapping) :=
  fun a ha => (get?_settled_other (by decide) (by decide) ha).trans (h a ha)

/-- The dictionary of a new drive after the configuration. -/
def configured (c : Config) : Dictionary :=
  Negotiation.settled
    (Negotiation.settled (withParameters c.parameters) .receive c.rxMapping) .transmit c.txMapping

/-- The configuration gives a mapping no more entries than it can have. -/
theorem length_wanted (mapping : List Pdo.Entry) :
    (mapping.take Pdo.maxEntries).length ≤ Pdo.maxEntries :=
  List.length_take_le _ _

/-- A drive that was configured has the mappings of the configuration. -/
theorem configured_mapping (c : Config) :
    (configured c).mapping Pdo.receive.index = c.rxMapping
      ∧ (configured c).mapping Pdo.transmit.index = c.txMapping := by
  constructor
  · have hreceived : (Negotiation.settled (withParameters c.parameters) .receive
        c.rxMapping).mapping Pdo.receive.index = c.rxMapping :=
      Negotiation.settled_mapping (by decide) (length_wanted _)
    rw [← hreceived]
    exact Dictionary.mapping_congr fun a ha => get?_settled_other (by decide) (by decide) (.inl ha)
  · exact Negotiation.settled_mapping (by decide) (length_wanted _)

/-- A drive that was configured exchanges the mappings of the configuration. -/
theorem configured_exchanges (c : Config) :
    (configured c).Exchanges .receive c.rxMapping
      ∧ (configured c).Exchanges .transmit c.txMapping := by
  obtain ⟨hreceive, hone⟩ :=
    (untouched_withParameters c.parameters (.inl rfl)).exchanges (.inl rfl)
  have hsettled : Untouched .transmit
      (Negotiation.settled (withParameters c.parameters) .receive c.rxMapping) :=
    (untouched_withParameters c.parameters (.inr rfl)).settled
  obtain ⟨htransmit, hone'⟩ := hsettled.exchanges (.inr rfl)
  constructor
  · have hreceived : (Negotiation.settled (withParameters c.parameters) .receive
        c.rxMapping).Exchanges .receive c.rxMapping :=
      Negotiation.settled_exchanges (by decide) (length_wanted _) hreceive hone
    exact hreceived.congr fun a ha => get?_settled_other (by decide) (by decide) ha
  · exact Negotiation.settled_exchanges (by decide) (length_wanted _) htransmit hone'

/-- What becomes of a mapping that a new drive is given. -/
def mappingOutcome (pdo : Pdo) (mapping : List Pdo.Entry) : MappingOutcome :=
  .negotiated (if mapping = defaultMapping pdo then .unchanged else .applied)

/-- A drive that has both mappings as made is given others. -/
theorem leads_negotiateUntouched (hk : l.Has k) (hstate : l.al k = .preOperational)
    (hpdo : pdo = .receive ∨ pdo = .transmit) (huntouched : Untouched pdo (l.dictionary k))
    (hfew : mapping.length ≤ Pdo.maxEntries) :
    l.Leads (negotiateOne k pdo mapping) (mappingOutcome pdo mapping)
      (l.store k (Negotiation.settled (l.dictionary k) pdo mapping)) := by
  have hone := leads_negotiateOne hk hstate hpdo (huntouched.room hpdo hfew) hfew
  rw [huntouched.outcomeOn hpdo] at hone
  exact hone

/-- A drive that is to keep its mappings is not asked for any. -/
theorem leads_negotiateMappings_kept (hkept : c.mapping.keepDefaults = true) :
    l.Leads (negotiateMappings c) (.kept, .kept) l := by
  unfold negotiateMappings
  rw [hkept]
  exact leads_pure _

/-- Both mappings are negotiated, each with the outcome that its target alone decides. -/
theorem leads_negotiateMappings (hk : l.Has c.slave) (hstate : l.al c.slave = .preOperational)
    (hdictionary : l.dictionary c.slave = withParameters c.parameters)
    (hwanted : c.mapping.keepDefaults = false) (hrx : c.mapping.rxPdo = .receive)
    (htx : c.mapping.txPdo = .transmit) :
    l.Leads (negotiateMappings c)
      (mappingOutcome .receive c.rxMapping, mappingOutcome .transmit c.txMapping)
      (l.store c.slave (configured c)) := by
  have hstarted := started hstate
  have hreceive : Untouched .receive (l.dictionary c.slave) := by
    rw [hdictionary]
    exact untouched_withParameters c.parameters (.inl rfl)
  have htransmit : Untouched .transmit ((l.store c.slave
      (Negotiation.settled (l.dictionary c.slave) .receive c.rxMapping)).dictionary c.slave) := by
    rw [dictionary_store_self, hdictionary]
    exact (untouched_withParameters c.parameters (.inr rfl)).settled
  have hread : l.Leads ((Negotiation.count c.mapping.rxAssign).read c.slave)
      (.ok ((l.dictionary c.slave).byte ⟨Pdo.receive.assign, 0⟩)) l := by
    rw [show c.mapping.rxAssign = Pdo.receive.assign from congrArg Pdo.assign hrx]
    exact Negotiation.leads_count hk hstarted (by decide)
      (hreceive.room (.inl rfl) (length_wanted c.mapping.rx)).assign
  have hfirst := leads_negotiateUntouched hk hstate (.inl rfl) hreceive
    (length_wanted c.mapping.rx)
  have hsecond := leads_negotiateUntouched (l := l.store c.slave
    (Negotiation.settled (l.dictionary c.slave) .receive c.rxMapping)) hk hstate (.inr rfl)
    htransmit (length_wanted c.mapping.tx)
  rw [store_store, dictionary_store_self, hdictionary] at hsecond
  unfold negotiateMappings
  rw [hwanted, hrx, htx]
  refine hread.bind (hfirst.bind ?_)
  rw [hdictionary]
  exact hsecond.bind (leads_pure _)

-- ============================================================== image

/-- An image is large enough, and has room for the control word. -/
def Suits (c : Config) (image : Bus.SlaveImage) : Prop :=
  Sized c image ∧ 2 ≤ image.outputBytes

/-- Zeros can be made safe just if there is room for the control word. -/
theorem exists_safeOutputs_zeros_iff {n : Nat} {mode : Int8} :
    (∃ safe, Layout.standard.safeOutputs (List.replicate n 0) mode = (safe, .ok ())) ↔ 2 ≤ n := by
  rw [Layout.exists_safeOutputs_iff Layout.standard_sound (by decide), List.length_replicate]
  exact ⟨fun h => h.2, fun h => ⟨by decide, h⟩⟩

/-- The layout of the image, as it is reported. -/
def imageMap (l : Line) : Bus.ImageMap := ⟨l.slaves.map l.image, .ofNat l.count, .ofNat l.count⟩

/-- The image of a line has that of each slave in its place. -/
theorem imageMap_slave? (hk : l.Has k) : (imageMap l).slave? k = some (l.image k) :=
  ofSlave?_slaves l.image hk

/-- What is left to do once the image is laid out. -/
theorem leads_prepareImage_of_check {r : Except Stop Bus.ImageMap} {l' : Line}
    (hk : l.Has c.slave)
    (hrest : l.layOut.Leads (do
      let required ← computed (requiredBytes? c)
      failing .segment (pure (checkImage c required.toNat (l.image c.slave)))
      let outputs ← Bus.outputs c.slave
      let (safe, result) := Layout.standard.safeOutputs outputs OperationMode.torqueProfile.raw
      Bus.setOutputs c.slave safe
      failing (fun e => .bus (.ofPacking e)) (pure result)
      return imageMap l : Stage Bus.ImageMap).run r l') :
    l.Leads (prepareImage c .standard).run r l' := by
  unfold prepareImage
  refine (leads_failing leads_map).bindOk ?_
  have himage : ((imageMap l).slave? c.slave).getD ⟨0, 0⟩ = l.image c.slave := by
    rw [imageMap_slave? hk]
    rfl
  rw [show (⟨l.slaves.map l.image, .ofNat l.count, .ofNat l.count⟩ : Bus.ImageMap) = imageMap l
    from rfl, himage]
  exact hrest

/-- The outputs are zeros when they are made safe. -/
theorem leads_layOut_outputs (hk : l.Has k) :
    l.layOut.Leads (Bus.outputs k) (List.replicate (l.image k).outputBytes 0) l.layOut :=
  leads_outputs hk

/-- An image that suits is made safe. -/
theorem leads_prepareImage (hk : l.Has c.slave) (hsuits : Suits c (l.image c.slave)) :
    ∃ safe, safe.length = (l.image c.slave).outputBytes
      ∧ l.Leads (prepareImage c .standard).run (.ok (imageMap l)) (l.layOut.send c.slave safe) := by
  obtain ⟨⟨required, hrequired, hcheck⟩, hroom⟩ := hsuits
  obtain ⟨safe, hsafe⟩ : ∃ safe, Layout.standard.safeOutputs
      (List.replicate (l.image c.slave).outputBytes 0) OperationMode.torqueProfile.raw
        = (safe, .ok ()) := exists_safeOutputs_zeros_iff.2 hroom
  have hlength : (l.layOut.outputs c.slave).length = (l.image c.slave).outputBytes :=
    List.length_replicate
  refine ⟨Bytes.overwrite (l.layOut.outputs c.slave) safe,
    (Bytes.length_overwrite ..).trans hlength, leads_prepareImage_of_check hk ?_⟩
  have hsent := leads_setOutputs (l := l.layOut) hk safe
  refine (leads_computed hrequired).bindOk ?_
  rw [hcheck]
  refine (leads_failing (leads_pure _)).bindOk ((leads_layOut_outputs hk).lift.bindOk ?_)
  rw [hsafe]
  exact hsent.lift.bindOk ((leads_failing (leads_pure _)).bindOk (leads_pure _))

/-- One that does not ends the bring-up, with an error if its size can be compared. -/
theorem ends_prepareImage (hk : l.Has c.slave) (hsuits : ¬ Suits c (l.image c.slave)) :
    ∃ stop l', l.Leads (prepareImage c .standard).run (.error stop) l' ∧ l'.count = l.count
      ∧ (Rounds c → ∃ e, stop = .failed e) := by
  cases hrequired : requiredBytes? c with
  | none =>
    refine ⟨.panicked, l.layOut, leads_prepareImage_of_check hk ?_, rfl,
      fun hrounds => absurd hrounds (requiredBytes?_eq_none_iff.1 hrequired)⟩
    rw [hrequired]
    exact (leads_pure _).bindError
  | some required =>
    have hcomputed := leads_computed (l := l.layOut) hrequired
    cases hcheck : checkImage c required.toNat (l.image c.slave) with
    | error e =>
      refine ⟨.failed (.segment e), l.layOut, leads_prepareImage_of_check hk ?_, rfl,
        fun _ => ⟨_, rfl⟩⟩
      refine hcomputed.bindOk ?_
      rw [hcheck]
      exact (leads_failing (leads_pure _)).bindError
    | ok =>
      have hroom : ¬ 2 ≤ (l.image c.slave).outputBytes :=
        fun hroom => hsuits ⟨⟨required, hrequired, hcheck⟩, hroom⟩
      rw [← exists_safeOutputs_zeros_iff] at hroom
      cases hsafe : Layout.standard.safeOutputs
        (List.replicate (l.image c.slave).outputBytes 0) OperationMode.torqueProfile.raw with
      | mk safe result =>
        cases result with
        | ok => exact absurd ⟨safe, hsafe⟩ hroom
        | error e =>
          have hsent := leads_setOutputs (l := l.layOut) hk safe
          refine ⟨.failed (.bus (.ofPacking e)), l.layOut.send c.slave
            (Bytes.overwrite (l.layOut.outputs c.slave) safe), leads_prepareImage_of_check hk ?_,
            rfl, fun _ => ⟨_, rfl⟩⟩
          refine hcomputed.bindOk ?_
          rw [hcheck]
          refine (leads_failing (leads_pure _)).bindOk ((leads_layOut_outputs hk).lift.bindOk ?_)
          rw [hsafe]
          exact hsent.lift.bindOk (leads_failing (leads_pure _)).bindError

end Bringup

end Servo
