/-
Bringing up a segment of new drives.

Whatever state a new drive starts in, and however many requests for operational it would
ignore, a bring-up goes through on it up to the process image: nothing in a new segment
refuses a state, a parameter or a mapping. What is left is a matter of the configuration
alone (`Config.Fits`): the mappings must have as many bits as it asks for, rounded up to
bytes, and what the drive receives must have room for the control word in front.
`brought_up_iff` says that this is exactly when a bring-up succeeds, and what it leaves
either way.
-/
import Servo.Proofs.Simulation.Stages

namespace Servo

open Simulation (Dictionary Line Segment Slave)
open Simulation.Line

namespace Bringup

variable {l : Line} {k : UInt16} {c : Config} {name : String}

-- =========================================================== operation

/-- Feeding the watchdogs moves no drive that is not operational. -/
theorem leads_feedWatchdogs (timing : Timing) (hidle : ∀ k, l.Has k → l.al k ≠ .operational) :
    l.Leads (feedWatchdogs timing) () l := by
  have hkeeps : l.Keeps (feedWatchdogs timing) :=
    keeps_of_only ((only_exchangeTimes _).mono fun r hr => hr ▸ keptBy_exchange hidle)
  intro g hg
  obtain ⟨_, g', hends, hg'⟩ := hkeeps g hg
  exact ⟨g', hends, hg'⟩

/-- The last look finds every slave operational that is. -/
theorem leads_checkOperational {list : List UInt16}
    (hthere : ∀ k ∈ list, l.Has k ∧ l.al k = .operational) :
    l.Leads (checkOperational list).run (.ok ()) l := by
  induction list with
  | nil => exact leads_pure _
  | cons k rest ih =>
    obtain ⟨⟨hk, hal⟩, hrest⟩ := List.forall_mem_cons.1 hthere
    have hstate := leads_state hk
    rw [hal] at hstate
    unfold checkOperational
    exact hstate.lift.bindOk (ih hrest)

-- ============================================================= release

/-- Slaves that are asked back are in the initial state again. -/
theorem leads_resetSlaves {list : List UInt16} (hlist : ∀ k ∈ list, l.Has k) :
    l.Leads (resetSlaves list) () (l.gather list .init) := by
  induction list generalizing l with
  | nil =>
    have hnone : l.gather [] .init = l := by simp [gather]
    rw [hnone]
    exact leads_pure _
  | cons k rest ih =>
    obtain ⟨hk, hrest⟩ := List.forall_mem_cons.1 hlist
    have hlets : l.Lets k .init := ⟨hk, by decide, by simp, by simp⟩
    rw [gather_cons]
    unfold resetSlaves
    exact (leads_setState hlets).bind (ih hrest)

/-- The bus was given back: it is closed, and every slave is in its initial state. -/
structure Released (g : Segment) : Prop where
  closed : g.closed = true
  reset : ∀ k s, g.slave? k = some s → s.al = .init

/-- Giving up leaves a released segment with as many slaves. -/
theorem ends_release {g : Segment} (hg : g.Shows l) :
    ∃ g', g.Ends (release (.ofNat l.count)) () g' ∧ Released g' ∧ g'.slaves.length = l.count := by
  obtain ⟨g', hends, hg'⟩ := leads_resetSlaves (fun k hk => mem_slaves.1 hk) g hg
  have hall := all_of_gather hg'
  refine ⟨g'.close, hends.bind (Segment.ends_perform rfl), ⟨rfl, ?_⟩, hg'.count⟩
  intro k s hslave
  exact (hall.stands hslave).al

-- ============================================================== stages

/-- What a bring-up needs to know of a configuration that was accepted. -/
structure Accepted (c : Config) : Prop where
  attempts : c.timing.stateAttempts ≠ 0
  polls : c.timing.statePolls ≠ 0
  wanted : c.mapping.keepDefaults = false
  rx : c.mapping.rxPdo = .receive
  tx : c.mapping.txPdo = .transmit

/-- The line of slaves before operation, one of them with another dictionary. -/
def equip (l : Line) (c : Config) (d : Dictionary) : Line := (l.all .preOperational).store c.slave d

/-- The line of new drives once one of them was configured. -/
def configure (l : Line) (c : Config) : Line := (l.all .preOperational).store c.slave (configured c)

/-- What is reported of a bring-up that succeeds. -/
def newReport (c : Config) (l : Line) : Report where
  slaves := .ofNat l.count
  parameterFailures := []
  modeDisplay := some OperationMode.torqueProfile.raw
  rx := mappingOutcome .receive c.rxMapping
  tx := mappingOutcome .transmit c.txMapping
  distributedClocks := l.clocksAnswer.isOk
  image := imageMap (configure l c)
  expectedWkc := (imageMap (configure l c)).expectedWkc

/-- The same, whatever came of the mappings. -/
def reportOf (c : Config) (l : Line) (outcomes : MappingOutcome × MappingOutcome)
    (image : Bus.ImageMap) : Report :=
  { newReport c l with
    rx := outcomes.1, tx := outcomes.2, image, expectedWkc := image.expectedWkc }

section

variable {outcomes : MappingOutcome × MappingOutcome} {d : Dictionary}
  (hattempts : c.timing.stateAttempts ≠ 0) (hpolls : c.timing.statePolls ≠ 0)
  (hk : l.Has c.slave) (hnew : l.dictionary c.slave = .initial)
  (hmapped : (equip l c (withParameters c.parameters)).Leads (negotiateMappings c) outcomes
    (equip l c d))
include hattempts hpolls hk hnew hmapped

/-- Nothing fails before the process image is prepared. -/
theorem leads_stages_of_prepared {r : Except Stop Report} {l' : Line}
    (hrest : (equip l c d).Leads (do
      let image ← prepareImage c .standard
      bringTo c.timing .safeOperational (slavesOf (.ofNat l.count))
      feedWatchdogs c.timing
      bringTo c.timing .operational (slavesOf (.ofNat l.count))
      checkOperational (slavesOf (.ofNat l.count))
      return reportOf c l outcomes image : Stage Report).run r l') :
    l.Leads (stages c .standard (.ofNat l.count)).run r l' := by
  have hcount := l.toNat_count
  have hpos : c.slave.toNat ≠ 0 := fun h => hk.1 (UInt16.toNat_inj.1 h)
  have hle := hk.2
  have hsome : UInt16.ofNat l.count ≠ 0 := by
    intro hzero
    rw [hzero] at hcount
    have hnone : (0 : UInt16).toNat = 0 := rfl
    omega
  have hfound : ¬ UInt16.ofNat l.count < c.slave := by
    rw [UInt16.lt_iff_toNat_lt, hcount]
    omega
  have htoInit := leads_bringTo_slaves (l := l) hattempts hpolls
    fun k hk => ⟨hk, (nofun : AlState.init ≠ .bootstrap), by simp, nofun⟩
  have htoPreOperational := leads_bringTo_slaves (l := l.all .init) hattempts hpolls
    fun k hk => ⟨hk, (nofun : AlState.preOperational ≠ .bootstrap), by simp, nofun⟩
  have hwritten := leads_writeParameters (l := l.all .preOperational) hk rfl hnew
  unfold stages
  rw [if_neg hsome, if_neg hfound]
  refine htoInit.bindOk (htoPreOperational.bindOk (hwritten.bindOk ?_))
  exact hmapped.lift.bindOk ((leads_clocks (l := equip l c d)).lift.bindOk hrest)

/-- The image of the drive suits, and the segment becomes operational. -/
theorem leads_stages_of_suits (hsuits : Suits c ((equip l c d).image c.slave)) :
    ∃ bytes, bytes.length = ((equip l c d).image c.slave).outputBytes
      ∧ l.Leads (stages c .standard (.ofNat l.count)).run
        (.ok (reportOf c l outcomes (imageMap (equip l c d))))
        (((equip l c d).layOut.send c.slave bytes).all .operational) := by
  obtain ⟨bytes, hlength, hprepared⟩ := leads_prepareImage (l := equip l c d) hk hsuits
  refine ⟨bytes, hlength,
    leads_stages_of_prepared hattempts hpolls hk hnew hmapped ?_⟩
  let prepared : Line := (equip l c d).layOut.send c.slave bytes
  have htoSafe := leads_bringTo_slaves (l := prepared) hattempts hpolls
    fun k hk => ⟨hk, (nofun : AlState.safeOperational ≠ .bootstrap), fun _ => rfl, nofun⟩
  have hfed := leads_feedWatchdogs (l := prepared.all .safeOperational) c.timing
    fun _ _ => nofun
  have htoOperational := leads_bringTo_slaves (l := prepared.all .safeOperational) hattempts hpolls
    fun k hk => ⟨hk, (nofun : AlState.operational ≠ .bootstrap), fun _ => rfl, fun _ => nofun⟩
  have hchecked : (prepared.all .operational).Leads
      (checkOperational (slavesOf (.ofNat l.count))).run (.ok ()) (prepared.all .operational) :=
    leads_checkOperational fun k hk => ⟨mem_slaves.1 hk, rfl⟩
  refine hprepared.bindOk (htoSafe.bindOk (hfed.lift.bindOk (htoOperational.bindOk ?_)))
  exact hchecked.bindOk (leads_pure _)

/-- The image of the drive does not suit, and that is where the bring-up ends. -/
theorem ends_stages_of_suits (hsuits : ¬ Suits c ((equip l c d).image c.slave)) :
    ∃ stop l', l.Leads (stages c .standard (.ofNat l.count)).run (.error stop) l'
      ∧ l'.count = l.count ∧ (Rounds c → ∃ e, stop = .failed e) := by
  obtain ⟨stop, l', hends, hcount, hfailed⟩ := ends_prepareImage (l := equip l c d) hk hsuits
  exact ⟨stop, l', leads_stages_of_prepared hattempts hpolls hk hnew hmapped hends.bindError,
    hcount, hfailed⟩

end

/-- The mappings of a drive that was not configured yet are negotiated. -/
theorem leads_negotiateMappings_equip (hk : l.Has c.slave) (hwanted : c.mapping.keepDefaults = false)
    (hrx : c.mapping.rxPdo = .receive) (htx : c.mapping.txPdo = .transmit) :
    (equip l c (withParameters c.parameters)).Leads (negotiateMappings c)
      (mappingOutcome .receive c.rxMapping, mappingOutcome .transmit c.txMapping)
      (equip l c (configured c)) := by
  have hmapped := leads_negotiateMappings (l := equip l c (withParameters c.parameters)) hk rfl
    (dictionary_store_self ..) hwanted hrx htx
  unfold equip at hmapped
  rwa [store_store] at hmapped

section

variable (haccepted : Accepted c) (hk : l.Has c.slave) (hnew : l.dictionary c.slave = .initial)
include haccepted hk hnew

/-- If the image suits the configuration, the stages bring all slaves to operational. -/
theorem leads_stages (hsuits : Suits c ((configure l c).image c.slave)) :
    ∃ bytes, l.Leads (stages c .standard (.ofNat l.count)).run (.ok (newReport c l))
      (((configure l c).layOut.send c.slave bytes).all .operational) := by
  obtain ⟨attempts, polls, hwanted, hrx, htx⟩ := haccepted
  obtain ⟨bytes, -, hstages⟩ := leads_stages_of_suits attempts polls hk hnew
    (leads_negotiateMappings_equip hk hwanted hrx htx) hsuits
  exact ⟨bytes, hstages⟩

/-- If the image does not suit the configuration, the stages fail. -/
theorem fails_stages (hsuits : ¬ Suits c ((configure l c).image c.slave)) (hrounds : Rounds c) :
    ∃ e l', l.Leads (stages c .standard (.ofNat l.count)).run (.error (.failed e)) l'
      ∧ l'.count = l.count := by
  obtain ⟨attempts, polls, hwanted, hrx, htx⟩ := haccepted
  obtain ⟨stop, l', hends, hcount, hfailed⟩ := ends_stages_of_suits attempts polls hk hnew
    (leads_negotiateMappings_equip hk hwanted hrx htx) hsuits
  obtain ⟨e, rfl⟩ := hfailed hrounds
  exact ⟨e, l', hends, hcount⟩

end

end Bringup

-- ======================================================== new segments

namespace Simulation

/-- A slave is as it is made: it may start in a fault, ignore every control word, and
ignore some requests for operational. -/
def Slave.IsNew (s : Slave) : Prop :=
  ∃ (faulty frozen : Bool) (stuckInPreop : UInt32),
    s = { drive := if faulty then .fault else .notReady, frozen, stuckInPreop }

/-- New slaves, no more than can be numbered. -/
structure AllNew (slaves : List Slave) : Prop where
  few : slaves.length < UInt16.size
  each : ∀ s ∈ slaves, s.IsNew

/-- The segment of some slaves, before anything is asked of it. -/
def Segment.ofSlaves (slaves : List Slave) : Segment := { slaves }

/-- The segment once the interface is open and the slaves are found. -/
def Segment.found (slaves : List Slave) : Segment :=
  { slaves, isOpen := true, discovered := true }

/-- A new segment is opened, and all its slaves are found. -/
theorem Segment.ends_openBus {slaves : List Slave} (name : String) :
    (Segment.ofSlaves slaves).Ends (Bringup.openBus name).run (.ok (.ofNat slaves.length))
      (Segment.found slaves) := rfl

variable {slaves : List Slave}

/-- The line of new slaves. -/
def AllNew.line (h : AllNew slaves) : Line where
  count := slaves.length
  few := h.few
  al _ := .init
  dictionary _ := .initial
  drive k := ((Bus.ofSlave? slaves k).map Slave.drive).getD .notReady
  outputs _ := []
  mapped := false
  clocks := true

/-- New slaves stand in one line. -/
theorem AllNew.stands (h : AllNew slaves) {k : UInt16} {s : Slave}
    (hk : Bus.ofSlave? slaves k = some s) : s.Stands h.line k := by
  obtain ⟨-, hget⟩ := Segment.slave?_eq_some_iff (g := Segment.found slaves).1 hk
  obtain ⟨faulty, frozen, stuck, hs⟩ := h.each s (List.mem_of_getElem? hget)
  have hdrive : s.drive = h.line.drive k := by
    show s.drive = ((Bus.ofSlave? slaves k).map Slave.drive).getD .notReady
    rw [hk]
    rfl
  subst hs
  exact ⟨rfl, rfl, hdrive, rfl, rfl, rfl, rfl⟩

theorem AllNew.exists_slave (h : AllNew slaves) {k : UInt16} (hk : h.line.Has k) :
    ∃ s, Bus.ofSlave? slaves k = some s := by
  obtain ⟨hzero, hle⟩ := hk
  have hle : k.toNat ≤ slaves.length := hle
  have hpos : k.toNat ≠ 0 := fun h => hzero (UInt16.toNat_inj.1 h)
  unfold Bus.ofSlave?
  rw [if_neg hzero, List.getElem?_eq_getElem (by omega)]
  exact ⟨_, rfl⟩

/-- New slaves that were found show their line. -/
theorem AllNew.shows (h : AllNew slaves) : (Segment.found slaves).Shows h.line where
  count := rfl
  discovered := rfl
  mapped := rfl
  clocks := rfl
  takes := rfl
  slave k hk := by
    obtain ⟨s, hs⟩ := h.exists_slave hk
    exact ⟨s, hs, h.stands hs⟩

end Simulation

-- ============================================================ the whole

namespace Bringup

open Simulation

variable {c : Config} {slaves : List Slave}

/-- The mappings have as many bits as the configuration asks for, rounded up to bytes, and
what the drive receives has room for the control word. -/
structure Fits (c : Config) : Prop where
  outputs : c.minProcessBits.toNat ≤ 8 * ((Pdo.totalBits c.mapping.rx + 7) / 8)
  inputs : c.minProcessBits.toNat ≤ 8 * ((Pdo.totalBits c.mapping.tx + 7) / 8)
  command : 8 < Pdo.totalBits c.mapping.rx

/-- The drive has both mappings, and an image that holds them. -/
structure Configured (c : Config) (s : Slave) : Prop where
  rx : s.dictionary.mapping Pdo.receive.index = c.mapping.rx
  tx : s.dictionary.mapping Pdo.transmit.index = c.mapping.tx
  image : s.image = ⟨(Pdo.totalBits c.mapping.rx + 7) / 8, (Pdo.totalBits c.mapping.tx + 7) / 8⟩

/-- What a bring-up that succeeds reports of new slaves, and leaves of them. -/
structure BroughtUp (c : Config) (slaves : List Slave) (report : Report) (g : Segment) : Prop where
  count : report.slaves.toNat = slaves.length ∧ g.slaves.length = slaves.length
  rx : report.rx
    = .negotiated (if c.mapping.rx = Pdo.defaultReceive then .unchanged else .applied)
  tx : report.tx
    = .negotiated (if c.mapping.tx = Pdo.defaultTransmit then .unchanged else .applied)
  parameters : report.parameterFailures = []
  mode : report.modeDisplay = some 4
  wkc : report.expectedWkc.toNat = min 65535 (3 * slaves.length)
  configured : ∃ s, g.slave? c.slave = some s ∧ Configured c s
    ∧ report.image.slave? c.slave = some s.image
  each : ∀ k s, Bus.ofSlave? slaves k = some s → ∃ s', g.slave? k = some s'
    ∧ s'.al = .operational ∧ s'.drive = s.drive ∧ (k ≠ c.slave → s'.dictionary = s.dictionary)

/-- A configuration that passes its checks is accepted by every stage before the image. -/
theorem accepted_of_validate (hvalid : c.validate = .ok ())
    (hwanted : c.mapping.keepDefaults = false) (hrx : c.mapping.rxPdo = .receive)
    (htx : c.mapping.txPdo = .transmit) : Accepted c := by
  obtain ⟨hattempts, hpolls⟩ := Config.stateControl_ne_zero hvalid
  exact ⟨hattempts, hpolls, hwanted, hrx, htx⟩

/-- The mappings of an accepted configuration are negotiated as they are. -/
theorem mappings_of_validate (hvalid : c.validate = .ok ()) :
    c.rxMapping = c.mapping.rx ∧ c.txMapping = c.mapping.tx := by
  obtain ⟨-, -, hrx, htx, -⟩ := Config.validate_eq_ok_iff.1 hvalid
  obtain ⟨-, hrxFew, -⟩ := Config.mappingFlaw?_eq_none_iff.1 hrx
  obtain ⟨-, htxFew, -⟩ := Config.mappingFlaw?_eq_none_iff.1 htx
  exact ⟨List.take_of_length_le hrxFew, List.take_of_length_le htxFew⟩

/-- The image of a drive that was configured is as large as its mappings, in whole bytes. -/
theorem image_configure (l : Line) (hvalid : c.validate = .ok ()) :
    (configure l c).image c.slave
      = ⟨(Pdo.totalBits c.mapping.rx + 7) / 8, (Pdo.totalBits c.mapping.tx + 7) / 8⟩ := by
  obtain ⟨hrx, htx⟩ := mappings_of_validate hvalid
  obtain ⟨hreceive, htransmit⟩ := configured_exchanges c
  unfold configure Line.image
  rw [dictionary_store_self, hreceive.assigned, htransmit.assigned, hrx, htx]
  rfl

/-- The image suits just if the mappings are as large as required, and there is room for the
control word. -/
theorem suits_iff (l : Line) (hvalid : c.validate = .ok ()) (hrounds : Rounds c) :
    Suits c ((configure l c).image c.slave) ↔ Fits c := by
  unfold Suits
  rw [image_configure l hvalid, sized_iff]
  constructor
  · intro h
    obtain ⟨⟨-, houtputs, hinputs⟩, hcommand⟩ := h
    dsimp only at hcommand
    exact ⟨houtputs, hinputs, by omega⟩
  · intro h
    obtain ⟨houtputs, hinputs, hcommand⟩ := h
    refine ⟨⟨hrounds, houtputs, hinputs⟩, ?_⟩
    dsimp only
    omega

/-- What was tracked of the slaves is what a bring-up promises. -/
theorem broughtUp_of_shows (hnew : AllNew slaves) (hvalid : c.validate = .ok ())
    (hk : hnew.line.Has c.slave) {bytes : Bytes} {g : Segment}
    (hg : g.Shows (((configure hnew.line c).layOut.send c.slave bytes).all .operational)) :
    BroughtUp c slaves (newReport c hnew.line) g := by
  obtain ⟨hrx, htx⟩ := mappings_of_validate hvalid
  obtain ⟨hreceive, htransmit⟩ := configured_mapping c
  have hcount : (UInt16.ofNat slaves.length).toNat = slaves.length := hnew.line.toNat_count
  constructor
  case count => exact ⟨hcount, hg.count⟩
  case rx => exact congrArg (mappingOutcome .receive) hrx
  case tx => exact congrArg (mappingOutcome .transmit) htx
  case parameters => rfl
  case mode => rfl
  case wkc =>
    have hwkc : (newReport c hnew.line).expectedWkc.toNat
        = min 65535 (2 * (UInt16.ofNat slaves.length).toNat + (UInt16.ofNat slaves.length).toNat) :=
      Bus.ImageMap.toNat_expectedWkc _
    rw [hwkc, hcount]
    omega
  case configured =>
    obtain ⟨s, hslave, hs⟩ := hg.slave c.slave hk
    have hdictionary : s.dictionary = configured c :=
      hs.dictionary.trans (dictionary_store_self ..)
    have himage : s.image = (configure hnew.line c).image c.slave := hs.image_eq
    refine ⟨s, hslave, ⟨?_, ?_, himage.trans (image_configure hnew.line hvalid)⟩, ?_⟩
    · rw [hdictionary, hreceive, hrx]
    · rw [hdictionary, htransmit, htx]
    · rw [himage]
      exact imageMap_slave? (l := configure hnew.line c) hk
  case each =>
    intro k s hslave
    have hstands := hnew.stands hslave
    obtain ⟨s', hslave', hs'⟩ := hg.slave k (hnew.shows.has hslave)
    refine ⟨s', hslave', hs'.al, hs'.drive.trans hstands.drive.symm, fun hother => ?_⟩
    exact hs'.dictionary.trans ((if_neg hother).trans hstands.dictionary.symm)

/-- A bring-up of new slaves succeeds exactly if what is configured fits, and brings them
all to operation then; otherwise it gives the bus back. -/
theorem brought_up_iff (hnew : AllNew slaves) (hvalid : c.validate = .ok ())
    (hslave : c.slave.toNat ≤ slaves.length) (hwanted : c.mapping.keepDefaults = false)
    (hrx : c.mapping.rxPdo = .receive) (htx : c.mapping.txPdo = .transmit)
    (hrounds : Rounds c) (name : String) :
    ∃ r g, (Segment.ofSlaves slaves).Ends (run c .standard name) r g
      ∧ ((∃ report, r = .ok report) ↔ Fits c)
      ∧ (∀ report, r = .ok report → BroughtUp c slaves report g)
      ∧ ∀ stop, r = .error stop →
        (∃ e, stop = .failed e) ∧ Released g ∧ g.slaves.length = slaves.length := by
  have haccepted := accepted_of_validate hvalid hwanted hrx htx
  have hk : hnew.line.Has c.slave := ⟨(Config.validate_eq_ok_iff.1 hvalid).1, hslave⟩
  have hopened : (Segment.ofSlaves slaves).Ends (openBus name).run (.ok (.ofNat slaves.length))
      (Segment.found slaves) := Segment.ends_openBus name
  by_cases hfits : Fits c
  · have hsuits := (suits_iff hnew.line hvalid hrounds).2 hfits
    obtain ⟨bytes, hstages⟩ := leads_stages haccepted hk rfl hsuits
    obtain ⟨g, hends, hg⟩ := hstages _ hnew.shows
    refine ⟨.ok (newReport c hnew.line), g, ?_, ⟨fun _ => hfits, fun _ => ⟨_, rfl⟩⟩, ?_, nofun⟩
    · exact hopened.bind (hends.bind (Segment.ends_pure _))
    · rintro _ ⟨⟩
      exact broughtUp_of_shows hnew hvalid hk hg
  · have hsuits := mt (suits_iff hnew.line hvalid hrounds).1 hfits
    obtain ⟨e, l', hstages, hcount⟩ := fails_stages haccepted hk rfl hsuits hrounds
    obtain ⟨g, hends, hg⟩ := hstages _ hnew.shows
    obtain ⟨g', hends', hreleased, hlength⟩ := ends_release hg
    have hnone (report : Report) : (.error (.failed e) : Except Stop Report) ≠ .ok report := nofun
    rw [hcount] at hends' hlength
    refine ⟨.error (.failed e), g', ?_, ⟨fun h => ?_, fun h => absurd h hfits⟩,
      fun report h => absurd h (hnone report), fun stop hstop => ?_⟩
    · exact hopened.bind (hends.bind (hends'.bind (Segment.ends_pure _)))
    · obtain ⟨report, hreport⟩ := h
      exact absurd hreport (hnone report)
    · cases hstop
      exact ⟨⟨e, rfl⟩, hreleased, hlength⟩

/-- A new drive, and one that starts in a fault, ignores every control word and the first
requests for operational. -/
def mixedSlaves : List Slave := [{}, { drive := .fault, frozen := true, stuckInPreop := 3 }]

/-- The second of them is asked to receive no more than a command and the mode. -/
def shortConfig : Config := { slave := 2, mapping := { rx := Pdo.defaultReceive.take 2 } }

/-- They are brought up all the same. -/
theorem brought_up_mixed : ∃ report g,
    (Segment.ofSlaves mixedSlaves).Ends (run shortConfig .standard "eth0") (.ok report) g
      ∧ BroughtUp shortConfig mixedSlaves report g := by
  have hnew : AllNew mixedSlaves := by
    refine ⟨by decide, List.forall_mem_cons.2 ⟨?_, List.forall_mem_singleton.2 ?_⟩⟩
    · exact ⟨false, false, 0, rfl⟩
    · exact ⟨true, true, 3, rfl⟩
  have hfits : Fits shortConfig := ⟨by decide, by decide, by decide⟩
  obtain ⟨r, g, hends, hiff, hok, -⟩ := brought_up_iff hnew (c := shortConfig) rfl
    (by decide) rfl rfl rfl (by decide) "eth0"
  obtain ⟨report, rfl⟩ := hiff.2 hfits
  exact ⟨report, g, hends, hok report rfl⟩

end Bringup

end Servo
