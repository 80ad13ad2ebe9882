/-
How a simulated drive came to be enabled.

A drive that is made not ready or in fault is enabled only by the whole sequence: since
it was last away from the states that lead to operation enabled (`OnTheWay`), it
received a command to shut down and, at a later exchange, one to enable operation
(`enabled_in_sequence`). What a state needs to have been received is `needed`; one
transition asks for no more than was needed before it and the command that it answers
(`needed_transition`).

# Histories

A history (`Course`) has one entry for each thing that happened to the drive: requests
with any arguments, in any order, and whatever else happens to the segment, as long as
it leaves the state of the drive alone or puts it in fault. Which words the drive
received is what its own log says (`answer_received`).

# The torque

After an exchange in operational a torque is applied only while the drive is enabled,
and it is the last one that its outputs hold. Where that is found does not hang on how
the drive walks along its mapping (`wordOffset?_eq_some_iff`).
-/
import Mathlib.Data.List.Induction
import Servo.Proofs.Simulation.Image
import Servo.Proofs.Simulation.Segment

namespace Servo.Simulation

-- ============================================================= last word

namespace Slave

variable {mapping before after : List Pdo.Entry} {e : Pdo.Entry} {index : UInt16}
  {offset length : Nat} {image : Bytes} {value : UInt16} {s : Slave}

/-- Behind these entries of a mapping there is one of two bytes for an index, inside an
image of some length. -/
def HasWord (mapping : List Pdo.Entry) (index : UInt16) (length : Nat)
    (before : List Pdo.Entry) : Prop :=
  ∃ e after, mapping = before ++ e :: after ∧ e.index = index ∧ entryBytes e = 2
    ∧ span before + 2 ≤ length

/-- The last entry of two bytes for an index, inside an image. -/
def LastWord (mapping : List Pdo.Entry) (index : UInt16) (length : Nat)
    (before : List Pdo.Entry) : Prop :=
  HasWord mapping index length before
    ∧ ∀ other, HasWord mapping index length other → other.length ≤ before.length

/-- An entry at the end of a mapping is behind all others. -/
theorem hasWord_concat :
    HasWord (mapping ++ [e]) index length before
      ↔ before = mapping ∧ e.index = index ∧ entryBytes e = 2 ∧ span mapping + 2 ≤ length
        ∨ HasWord mapping index length before := by
  constructor
  · intro h
    obtain ⟨e', after, heq, hindex, hword, hroom⟩ := h
    rcases List.eq_nil_or_concat after with rfl | ⟨rest, last, rfl⟩
    · obtain ⟨rfl, hlast⟩ := List.append_inj' heq rfl
      cases hlast
      exact .inl ⟨rfl, hindex, hword, hroom⟩
    · rw [List.concat_eq_append, ← List.cons_append, ← List.append_assoc] at heq
      obtain ⟨rfl, -⟩ := List.append_inj' heq rfl
      exact .inr ⟨e', rest, rfl, hindex, hword, hroom⟩
  · intro h
    rcases h with ⟨rfl, hindex, hword, hroom⟩ | ⟨e', after, rfl, hindex, hword, hroom⟩
    · exact ⟨e, [], rfl, hindex, hword, hroom⟩
    · exact ⟨e', after ++ [e], by simp, hindex, hword, hroom⟩

theorem HasWord.length_lt (h : HasWord mapping index length before) :
    before.length < mapping.length := by
  obtain ⟨e, after, rfl, -⟩ := h
  simp

theorem wordOffset?_concat :
    wordOffset? (mapping ++ [e]) index length
      = if e.index = index ∧ entryBytes e = 2 ∧ span mapping + 2 ≤ length then some (span mapping)
        else wordOffset? mapping index length := by
  unfold wordOffset?
  rw [place_append, Nat.zero_add, List.filterMap_append]
  split
  next hword => simp [place, hword]
  next hword => simp [place, hword]

/-- What the drive finds is the last word. -/
theorem wordOffset?_eq_some_iff :
    wordOffset? mapping index length = some offset
      ↔ ∃ before, LastWord mapping index length before ∧ span before = offset := by
  induction mapping using List.reverseRecOn with
  | nil =>
    constructor
    · intro h
      cases h
    · intro h
      obtain ⟨before, hlast, -⟩ := h
      exact absurd hlast.1.length_lt (Nat.not_lt_zero _)
  | append_singleton mapping e ih =>
    rw [wordOffset?_concat]
    split
    next hword =>
      have hthere : HasWord (mapping ++ [e]) index length mapping :=
        hasWord_concat.2 (.inl ⟨rfl, hword⟩)
      have hlast : LastWord (mapping ++ [e]) index length mapping := by
        refine ⟨hthere, fun other hother => ?_⟩
        have hlt := hother.length_lt
        rw [List.length_append] at hlt
        exact Nat.le_of_lt_succ hlt
      constructor
      · intro h
        exact ⟨mapping, hlast, Option.some.inj h⟩
      · intro h
        obtain ⟨before, ⟨hbefore, hend⟩, rfl⟩ := h
        rcases hasWord_concat.1 hbefore with ⟨rfl, -⟩ | hshort
        · rfl
        · exact absurd hshort.length_lt (Nat.not_lt.2 (hend mapping hthere))
    next hword =>
      have hsame : ∀ before, HasWord (mapping ++ [e]) index length before
          ↔ HasWord mapping index length before := by
        intro before
        rw [hasWord_concat]
        exact or_iff_right fun h => hword h.2
      rw [ih]
      unfold LastWord
      simp only [hsame]

/-- The drive finds none exactly if there is none. -/
theorem wordOffset?_eq_none_iff :
    wordOffset? mapping index length = none
      ↔ ∀ before, ¬ HasWord mapping index length before := by
  induction mapping using List.reverseRecOn with
  | nil => exact iff_of_true rfl fun before h => absurd h.length_lt (Nat.not_lt_zero _)
  | append_singleton mapping e ih =>
    rw [wordOffset?_concat]
    simp only [hasWord_concat]
    split
    next hword => exact iff_of_false (nofun) fun h => h mapping (.inl ⟨rfl, hword⟩)
    next hword =>
      rw [ih]
      exact forall_congr' fun before => not_congr (or_iff_right fun h => hword h.2).symm

/-- The torque that outputs hold for a mapping: the last one of two bytes, and zero where
there is none. -/
inductive TorqueIn (mapping : List Pdo.Entry) (outputs : Bytes) : Int16 → Prop
  | last {before : List Pdo.Entry} : LastWord mapping 0x6071 outputs.length before →
    TorqueIn mapping outputs
      (UInt16.ofNat (Bytes.toNat (Bytes.window outputs (span before) 2))).toInt16
  | none : (∀ before, ¬ HasWord mapping 0x6071 outputs.length before) →
    TorqueIn mapping outputs 0

theorem torqueIn_word? (mapping : List Pdo.Entry) (outputs : Bytes) :
    TorqueIn mapping outputs (((word? mapping 0x6071 outputs).map UInt16.toInt16).getD 0) := by
  rw [word?_eq]
  cases hoffset : wordOffset? mapping 0x6071 outputs.length with
  | none => exact .none (wordOffset?_eq_none_iff.1 hoffset)
  | some offset =>
    obtain ⟨before, hlast, rfl⟩ := wordOffset?_eq_some_iff.1 hoffset
    exact .last hlast

-- ======================================================== state machine

/-- The states that lead to operation enabled. -/
def OnTheWay : Drive.State → Prop
  | .readyToSwitchOn | .switchedOn | .operationEnabled => True
  | _ => False

/-- The commands that a drive must have received to be in a state. -/
def needed : Drive.State → List UInt16
  | .readyToSwitchOn | .switchedOn => [0x06]
  | .operationEnabled => [0x06, 0x0f]
  | _ => []

theorem needed_off {drive : Drive.State} (h : ¬ OnTheWay drive) : needed drive = [] := by
  cases drive with
  | readyToSwitchOn | switchedOn | operationEnabled => exact absurd trivial h
  | _ => rfl

/-- On the way, a state needs no more than the one before it and the command that led to
it. -/
theorem needed_transition {drive : Drive.State} {controlword : UInt16}
    (h : OnTheWay (transition drive controlword)) :
    (needed (transition drive controlword)).Sublist (needed drive ++ [controlword &&& 0x8f]) := by
  -- a command that leads on is the last of what the next state needs
  revert h
  cases drive with
  | notReady => exact False.elim
  | _ =>
    simp only [transition]
    repeat' split
    all_goals simp_all [OnTheWay, needed]

/-- What a slave receives by an exchange in operational. -/
def received? (s : Slave) : Option UInt16 :=
  if s.al = .operational then
    word? (s.dictionary.assigned Pdo.receive.assign) 0x6040 s.outputs
  else none

theorem exchange_of_operational (hal : s.al = .operational) :
    s.exchange.1 = s.readOutputs.writeInputs := by
  unfold exchange
  rw [hal]

/-- An exchange logs what was received, and makes the drive follow it, unless it is
frozen. -/
theorem exchange_received (s : Slave) :
    s.exchange.1.controlwords = s.controlwords ++ s.received?.toList
      ∧ (s.exchange.1.drive = s.drive
        ∨ ∃ controlword, s.received? = some controlword
          ∧ s.exchange.1.drive = transition s.drive controlword) := by
  by_cases hal : s.al = .operational
  · rw [exchange_of_operational hal]
    unfold received? writeInputs readOutputs
    rw [if_pos hal]
    dsimp only
    cases word? (s.dictionary.assigned Pdo.receive.assign) 0x6040 s.outputs with
    | some controlword =>
      refine ⟨rfl, ?_⟩
      by_cases hfrozen : s.frozen
      · exact .inl (if_pos hfrozen)
      · exact .inr ⟨controlword, rfl, if_neg hfrozen⟩
    | none => exact ⟨(List.append_nil _).symm, .inl rfl⟩
  · have hsame : s.exchange.1.controlwords = s.controlwords ∧ s.exchange.1.drive = s.drive := by
      unfold exchange
      split
      next hop => exact absurd hop hal
      next => exact ⟨rfl, rfl⟩
      next => exact ⟨rfl, rfl⟩
    unfold received?
    rw [if_neg hal]
    exact ⟨hsame.1.trans (List.append_nil _).symm, .inl hsame.2⟩

/-- After an exchange in operational, a torque is applied that is in the outputs, and only
while the drive is enabled. -/
theorem exchange_torque (hal : s.al = .operational) :
    (s.exchange.1.drive ≠ .operationEnabled → s.exchange.1.appliedTorque = 0)
      ∧ (s.exchange.1.drive = .operationEnabled →
        TorqueIn (s.dictionary.assigned Pdo.receive.assign) s.outputs
          s.exchange.1.appliedTorque) := by
  have htorque := torqueIn_word? (s.dictionary.assigned Pdo.receive.assign) s.outputs
  rw [exchange_of_operational hal, writeInputs_drive, writeInputs_applied]
  unfold readOutputs
  dsimp only
  split
  · exact ⟨fun hoff => if_neg hoff, fun hon => by rwa [if_pos hon]⟩
  · exact ⟨fun hoff => if_neg hoff, fun hon => by rwa [if_pos hon]⟩

end Slave

-- ============================================================ histories

/-- What happened to a drive at once. -/
structure Happened where
  /-- The control word that it received. -/
  received : Option UInt16
  /-- The state that it was in then. -/
  drive : Drive.State
deriving DecidableEq, Repr

/-- The command received, those bits of the control word that make one. -/
def Happened.command (e : Happened) : Option UInt16 := e.received.map (· &&& 0x8f)

/-- Since the drive was last away from the states that lead to operation enabled, it
received these commands one after the other. -/
def Since (commands : List UInt16) (history : List Happened) : Prop :=
  ∃ before off since, history = before ++ off :: since ∧ ¬ Slave.OnTheWay off.drive
    ∧ (∀ e ∈ since, Slave.OnTheWay e.drive) ∧ commands.Sublist (since.filterMap Happened.command)

variable {history : List Happened} {commands commands' : List UInt16} {e : Happened}

theorem since_off (h : ¬ Slave.OnTheWay e.drive) : Since [] (history ++ [e]) :=
  ⟨history, e, [], rfl, h, fun _ hmem => absurd hmem List.not_mem_nil, .slnil⟩

theorem Since.concat (h : Since commands history) (he : Slave.OnTheWay e.drive)
    (hcommands : commands'.Sublist (commands ++ e.command.toList)) :
    Since commands' (history ++ [e]) := by
  obtain ⟨before, off, since, rfl, hoff, hsince, hsub⟩ := h
  refine ⟨before, off, since ++ [e], by simp, hoff, ?_, hcommands.trans ?_⟩
  · intro e' he'
    rcases List.mem_append.1 he' with hmem | hmem
    · exact hsince e' hmem
    · rw [List.mem_singleton.1 hmem]
      exact he
  · have hlast : [e].filterMap Happened.command = e.command.toList := by
      cases hcommand : e.command <;> simp [hcommand]
    rw [List.filterMap_append, hlast]
    exact hsub.append (.refl _)

/-- A drive away from these states needs nothing, and one on the way no more than it
needed and received. -/
theorem Since.next {drive : Drive.State} (h : Since (Slave.needed drive) history)
    (he : Slave.OnTheWay e.drive →
      (Slave.needed e.drive).Sublist (Slave.needed drive ++ e.command.toList)) :
    Since (Slave.needed e.drive) (history ++ [e]) := by
  by_cases hway : Slave.OnTheWay e.drive
  · exact h.concat hway (he hway)
  · rw [Slave.needed_off hway]
    exact since_off hway

namespace Segment

variable {g g' : Segment} {k : UInt16} {s s' : Slave}

/-- What a slave receives by a request to the segment. -/
def received? (g : Segment) (s : Slave) : Bus.Request → Option UInt16
  | .exchange => if g.mapped then s.received? else none
  | _ => none

/-- No request but an exchange reaches the drive. -/
theorem answer_drive (r : Bus.Request) (hr : r ≠ .exchange) (hk : g.slave? k = some s) :
    ∃ s', (answer r g).2.slave? k = some s' ∧ s'.controlwords = s.controlwords
      ∧ s'.drive = s.drive := by
  by_cases haside : Aside k r
  · obtain ⟨s', hs', al, alStatus, stuck, rfl⟩ := answer_restated r haside hk
    exact ⟨_, hs', rfl, rfl⟩
  · cases r with
    | exchange => exact absurd rfl hr
    | map =>
      refine ⟨_, answer_map hk, ?_⟩
      split <;> exact ⟨rfl, rfl⟩
    | sdoWrite slave a data => exact ⟨_, answer_sdoWrite slave a data hk, rfl, rfl⟩
    | setOutputs slave bytes =>
      obtain rfl : slave = k := Decidable.not_not.1 haside
      exact ⟨_, answer_setOutputs bytes hk, rfl, rfl⟩
    | _ => exact absurd trivial haside

/-- What a slave received is what its log has more, and the drive stayed in its state or
followed that. -/
theorem answer_received (r : Bus.Request) (hk : g.slave? k = some s) :
    ∃ s', (answer r g).2.slave? k = some s'
      ∧ s'.controlwords = s.controlwords ++ (g.received? s r).toList
      ∧ (s'.drive = s.drive ∨ ∃ controlword, g.received? s r = some controlword
        ∧ s'.drive = Slave.transition s.drive controlword) := by
  by_cases hr : r = .exchange
  · subst hr
    refine ⟨_, answer_exchange hk, ?_⟩
    unfold received?
    split
    next => exact s.exchange_received
    next => exact ⟨(List.append_nil _).symm, .inl rfl⟩
  · obtain ⟨s', hs', hlog, hdrive⟩ := answer_drive r hr hk
    have hnone : g.received? s r = none := by
      cases r with
      | exchange => exact absurd rfl hr
      | _ => rfl
    rw [hnone]
    exact ⟨s', hs', hlog.trans (List.append_nil _).symm, .inl hdrive⟩

/-- A segment is left by a history of one of its drives, which was made not ready or in
fault. -/
inductive Course (k : UInt16) : List Happened → Segment → Prop
  | start {g : Segment} {s : Slave} : g.slave? k = some s →
    s.drive = .notReady ∨ s.drive = .fault → Course k [⟨none, s.drive⟩] g
  | request {g : Segment} {s s' : Slave} {history : List Happened} (r : Bus.Request) :
    Course k history g → g.slave? k = some s → (answer r g).2.slave? k = some s' →
    Course k (history ++ [⟨g.received? s r, s'.drive⟩]) (answer r g).2
  | beside {g g' : Segment} {s s' : Slave} {history : List Happened} :
    Course k history g → g.slave? k = some s → g'.slave? k = some s' →
    s'.drive = s.drive ∨ s'.drive = .fault → Course k (history ++ [⟨none, s'.drive⟩]) g'

/-- A drive received what its state needs. -/
theorem Course.since (h : Course k history g) (hk : g.slave? k = some s) :
    Since (Slave.needed s.drive) history := by
  induction h generalizing s with
  | @start _ s₀ hstart hdrive =>
    cases hstart.symm.trans hk
    have hoff : ¬ Slave.OnTheWay s₀.drive := by
      rcases hdrive with hdrive | hdrive <;> rw [hdrive] <;> exact id
    rw [Slave.needed_off hoff]
    exact ⟨[], _, [], rfl, hoff, fun _ hmem => absurd hmem List.not_mem_nil, .slnil⟩
  | request r _ hbefore hafter ih =>
    obtain ⟨s', hs', -, hdrive⟩ := answer_received r hbefore
    cases hafter.symm.trans hk
    cases hs'.symm.trans hk
    refine (ih hbefore).next fun hway => ?_
    dsimp only at hway ⊢
    rcases hdrive with hsame | ⟨controlword, hreceived, hdrive⟩
    · rw [hsame]
      exact List.sublist_append_left ..
    · rw [hdrive] at hway ⊢
      have hneeded := Slave.needed_transition hway
      simpa [Happened.command, hreceived] using hneeded
  | beside _ hbefore hafter hdrive ih =>
    cases hafter.symm.trans hk
    refine (ih hbefore).next fun hway => ?_
    dsimp only at hway ⊢
    rcases hdrive with hsame | hfault
    · rw [hsame]
      exact List.sublist_append_left ..
    · rw [hfault] at hway
      exact hway.elim

/-- An exchange that reaches a drive in operational leaves it with no torque unless it is
enabled, and with the one in its outputs if it is. -/
structure Applies (before after : Slave) : Prop where
  enabled : after.appliedTorque ≠ 0 → after.drive = .operationEnabled
  torque : after.drive = .operationEnabled → Slave.TorqueIn
    (before.dictionary.assigned Pdo.receive.assign) before.outputs after.appliedTorque

theorem mapped_of_exchange {wkc : UInt16} (h : answer .exchange g = (.ok wkc, g')) :
    g.mapped = true := by
  change g.exchange = (.ok wkc, g') at h
  unfold exchange at h
  by_cases hmapped : g.mapped = true
  · exact hmapped
  · rw [if_pos (by simp [hmapped])] at h
    cases h

theorem applies_of_exchange {wkc : UInt16} (h : answer .exchange g = (.ok wkc, g'))
    (hk : g.slave? k = some s) (hal : s.al = .operational) :
    ∃ s', g'.slave? k = some s' ∧ Applies s s' := by
  have hafter := answer_exchange hk
  rw [h, if_pos (mapped_of_exchange h)] at hafter
  obtain ⟨hoff, hon⟩ := Slave.exchange_torque hal
  refine ⟨_, hafter, ?_, hon⟩
  intro hne
  exact Decidable.byContradiction fun hdrive => hne (hoff hdrive)

/-- A drive is enabled by the whole sequence alone, and applies a torque only then. -/
theorem enabled_in_sequence (h : Course k history g) (hk : g.slave? k = some s) :
    (s.drive = .operationEnabled →
      ∃ before off since, history = before ++ off :: since ∧ ¬ Slave.OnTheWay off.drive
        ∧ (∀ e ∈ since, Slave.OnTheWay e.drive)
        ∧ [0x06, 0x0f].Sublist (since.filterMap Happened.command))
      ∧ ∀ wkc g', s.al = .operational → answer .exchange g = (.ok wkc, g') →
        ∃ s', g'.slave? k = some s' ∧ Applies s s' := by
  constructor
  · intro hon
    have hsince := h.since hk
    rw [hon] at hsince
    exact hsince
  · intro wkc g' hal hanswer
    exact applies_of_exchange hanswer hk hal

/-- A new drive in operational, which is told to shut down. -/
def sampleDrive : Segment where
  slaves := [{ al := .operational, outputs := [0x06, 0, 4, 0, 0, 0, 0, 0, 0] }]
  isOpen := true
  discovered := true
  mapped := true

/-- It is told so twice, the drive not being ready at first, and then to enable operation
with a torque. -/
def sampleEnabling : List Bus.Request :=
  [.exchange, .exchange, .setOutputs 1 [0x0f, 0, 4, 0x64, 0, 0, 0, 0, 0], .exchange]

/-- The segment after requests. -/
def requested (g : Segment) (requests : List Bus.Request) : Segment :=
  requests.foldl (fun g r => (answer r g).2) g

def sampleHistory : List Happened :=
  [⟨none, .notReady⟩, ⟨some 0x06, .switchOnDisabled⟩, ⟨some 0x06, .readyToSwitchOn⟩,
    ⟨none, .readyToSwitchOn⟩, ⟨some 0x0f, .operationEnabled⟩]

theorem sampleEnabling_course :
    Course 1 sampleHistory (sampleDrive.requested sampleEnabling) := by
  have h := Course.start (k := 1) (g := sampleDrive) rfl (.inl rfl)
  have h := h.request .exchange rfl rfl
  have h := h.request .exchange rfl rfl
  have h := h.request (.setOutputs 1 [0x0f, 0, 4, 0x64, 0, 0, 0, 0, 0]) rfl rfl
  exact h.request .exchange rfl rfl

/-- The drive is enabled then, and applies the torque at the next exchange too. -/
theorem enabled_in_sequence_sample :
    (∃ before off since, sampleHistory = before ++ off :: since ∧ ¬ Slave.OnTheWay off.drive
        ∧ (∀ e ∈ since, Slave.OnTheWay e.drive)
        ∧ [0x06, 0x0f].Sublist (since.filterMap Happened.command))
      ∧ ∃ s s', (sampleDrive.requested sampleEnabling).slave? 1 = some s
        ∧ (answer .exchange (sampleDrive.requested sampleEnabling)).2.slave? 1 = some s'
        ∧ Applies s s' := by
  obtain ⟨hsequence, happlies⟩ := enabled_in_sequence sampleEnabling_course rfl
  obtain ⟨s', hs', happlied⟩ := happlies 3 _ rfl rfl
  exact ⟨hsequence rfl, _, s', rfl, hs', happlied⟩

end Segment

end Servo.Simulation
