/-
What the requests to a simulated segment do to one of its slaves.

Each request that a segment answers reaches a slave in one of few ways: it lays
out its image, exchanges with it, replaces its outputs, writes to its dictionary,
or does nothing that its torque hangs on (`Kept`). A trace that a segment answers
(`Follows`) is followed one request at a time, with anything in between that
keeps as much: faults, states that are lost, exchanges that are made to fail.
-/
import Servo.Proofs.Simulation.Dictionary
import Servo.Proofs.Simulation.Torque
import Servo.Simulation.Segment

namespace Servo.Simulation

open Program

-- ============================================================= slaves

namespace Slave

variable {s s' s'' : Slave}

/-- Nothing has changed that the torque of a slave hangs on. -/
structure Kept (s s' : Slave) : Prop where
  dictionary : s'.dictionary = s.dictionary
  outputs : s'.outputs = s.outputs
  torque : s'.appliedTorque = s.appliedTorque

theorem Kept.refl (s : Slave) : Kept s s := ⟨rfl, rfl, rfl⟩

theorem Kept.trans (h : Kept s s') (h' : Kept s' s'') : Kept s s'' :=
  ⟨h'.dictionary.trans h.dictionary, h'.outputs.trans h.outputs, h'.torque.trans h.torque⟩

/-- A slave rests on while nothing changes that its torque hangs on. -/
theorem Resting.kept {mapping : List Pdo.Entry} {length : Nat} (h : s.Resting mapping length)
    (hkept : Kept s s') : s'.Resting mapping length where
  idle := hkept.outputs ▸ h.idle
  assigned := hkept.dictionary ▸ h.assigned
  size := hkept.outputs ▸ h.size
  torque := hkept.torque ▸ h.torque

/-- Nothing of a slave has changed but its application layer. -/
def Restated (s s' : Slave) : Prop :=
  ∃ al alStatus stuck, s' = { s with al := al, alStatus := alStatus, stuckInPreop := stuck }

theorem Restated.refl (s : Slave) : Restated s s := ⟨s.al, s.alStatus, s.stuckInPreop, rfl⟩

theorem Restated.trans (h : Restated s s') (h' : Restated s' s'') : Restated s s'' := by
  obtain ⟨_, _, _, rfl⟩ := h
  obtain ⟨al, alStatus, stuck, rfl⟩ := h'
  exact ⟨al, alStatus, stuck, rfl⟩

/-- The torque does not hang on the application layer. -/
theorem Restated.kept (h : Restated s s') : Kept s s' := by
  obtain ⟨al, alStatus, stuck, rfl⟩ := h
  exact ⟨rfl, rfl, rfl⟩

/-- A request for a state changes nothing of a slave but its application layer, also if it
is refused. -/
theorem request_restated (s : Slave) (mapped : Bool) (target : AlState) :
    Restated s (s.request mapped target).2 := by
  unfold request
  split
  · exact ⟨_, _, _, rfl⟩
  · split
    · exact ⟨_, _, _, rfl⟩
    · split
      · exact ⟨_, _, _, rfl⟩
      · split <;> exact ⟨_, _, _, rfl⟩

/-- A write changes nothing of a slave but its dictionary, and that if it is taken. -/
theorem writeItem_eq (s : Slave) (slave : UInt16) (a : Address) (data : Bytes) :
    (s.writeItem slave a data).2 = { s with
      dictionary := s.dictionary.next slave
        ⟨.sdoWrite slave a data, (s.writeItem slave a data).1⟩ } := by
  unfold writeItem
  split
  · rfl
  · split
    · rfl
    · split
      · rfl
      · simp [Dictionary.next]

end Slave

-- ============================================================ requests

namespace Segment

open Slave (Kept Restated)

variable {g : Segment} {j k : UInt16} {s s' : Slave}

/-- Slaves are numbered from one. -/
theorem slave?_eq_some_iff :
    g.slave? k = some s ↔ k ≠ 0 ∧ g.slaves[k.toNat - 1]? = some s := by
  unfold slave? Bus.ofSlave?
  by_cases hzero : k = 0
  · simp [hzero]
  · simp [hzero]

/-- A slave that is put back is found in its place. -/
theorem slave?_setSlave_self (hj : g.slave? j = some s) (s' : Slave) :
    (g.setSlave j s').slave? j = some s' := by
  obtain ⟨hzero, hget⟩ := slave?_eq_some_iff.1 hj
  have hlt : j.toNat - 1 < g.slaves.length := (List.getElem?_eq_some_iff.1 hget).1
  refine slave?_eq_some_iff.2 ⟨hzero, ?_⟩
  exact List.getElem?_set_self hlt

/-- When a slave is put back, the other ones are found as before. -/
theorem slave?_setSlave_of_ne (hj : g.slave? j = some s) (hne : k ≠ j) (s' : Slave) :
    (g.setSlave j s').slave? k = g.slave? k := by
  obtain ⟨hzero, -⟩ := slave?_eq_some_iff.1 hj
  unfold slave? Bus.ofSlave?
  by_cases hk : k = 0
  · rw [if_pos hk, if_pos hk]
  rw [if_neg hk, if_neg hk]
  refine List.getElem?_set_ne fun heq => hne ?_
  have hkpos : k.toNat ≠ 0 := fun h => hk (UInt16.toNat_inj.1 h)
  have hjpos : j.toNat ≠ 0 := fun h => hzero (UInt16.toNat_inj.1 h)
  exact UInt16.toNat_inj.1 (by omega)

/-- What is the same of a slave that is put back does not show in the line. -/
theorem map_setSlave {β : Type} {f : Slave → β} (hk : g.slave? k = some s) (hsame : f s' = f s) :
    (g.setSlave k s').slaves.map f = g.slaves.map f := by
  obtain ⟨hlt, rfl⟩ := List.getElem?_eq_some_iff.1 (slave?_eq_some_iff.1 hk).2
  show (g.slaves.set _ _).map f = _
  rw [List.map_set, hsame, ← List.getElem_map f (h := by rwa [List.length_map]),
    List.set_getElem_self]

/-- Replacing a slave by one that agrees with it does not show. -/
theorem exists_slave?_setSlave {P : Slave → Slave → Prop} {t : Slave} (hrefl : ∀ s, P s s)
    (hk : g.slave? k = some s) (hj : g.slave? j = some t) {t' : Slave} (ht : P t t') :
    ∃ s', (g.setSlave j t').slave? k = some s' ∧ P s s' := by
  by_cases hkj : k = j
  · subst hkj
    cases hj.symm.trans hk
    exact ⟨t', slave?_setSlave_self hj t', ht⟩
  · rw [slave?_setSlave_of_ne hj hkj]
    exact ⟨s, hk, hrefl s⟩

/-- A slave that is found is in the line. -/
theorem find_eq_ok (h : g.find j = .ok s) : g.slave? j = some s := by
  unfold find at h
  split at h
  · cases h
  · split at h
    next hslave =>
      cases h
      exact hslave
    next => cases h

/-- What a slave in the line comes to when the same is done to all of them. -/
theorem slave?_map {β : Type} (hk : g.slave? k = some s) (f : Slave → β) :
    Bus.ofSlave? (g.slaves.map f) k = some (f s) := by
  obtain ⟨hzero, hget⟩ := slave?_eq_some_iff.1 hk
  unfold Bus.ofSlave?
  rw [if_neg hzero, List.getElem?_map, hget]
  rfl

-- ============================================================= answers

/-- The requests that nothing of a slave's torque hangs on. -/
def Aside (k : UInt16) : Bus.Request → Prop
  | .map | .exchange | .sdoWrite _ _ _ => False
  | .setOutputs slave _ => slave ≠ k
  | _ => True

/-- A request that is aside of a slave changes its application layer at most. -/
theorem answer_restated (r : Bus.Request) (hr : Aside k r) (hk : g.slave? k = some s) :
    ∃ s', (answer r g).2.slave? k = some s' ∧ Restated s s' := by
  cases r with
  | map | exchange | sdoWrite => exact hr.elim
  | clocks | state | outputs | inputs | close => exact ⟨s, hk, .refl s⟩
  | init name =>
    show ∃ s', (g.init).2.slave? k = some s' ∧ Restated s s'
    unfold init
    split <;> exact ⟨s, hk, .refl s⟩
  | discover =>
    show ∃ s', (g.discover).2.slave? k = some s' ∧ Restated s s'
    unfold discover
    split <;> exact ⟨s, hk, .refl s⟩
  | sdoRead slave a capacity =>
    show ∃ s', (g.sdoRead slave a capacity).2.slave? k = some s' ∧ Restated s s'
    unfold sdoRead
    split <;> exact ⟨s, hk, .refl s⟩
  | setState slave target =>
    show ∃ s', (g.setState slave target).2.slave? k = some s' ∧ Restated s s'
    unfold setState
    dsimp only
    split
    next => exact ⟨s, hk, .refl s⟩
    next t hfound =>
      exact exists_slave?_setSlave Restated.refl hk (find_eq_ok hfound)
        (t.request_restated _ target)
  | clearAl slave =>
    show ∃ s', (g.clearAl slave).slave? k = some s' ∧ Restated s s'
    unfold clearAl
    split
    next => exact ⟨s, hk, .refl s⟩
    next t hfound =>
      exact exists_slave?_setSlave Restated.refl hk (find_eq_ok hfound) ⟨_, _, _, rfl⟩
  | setOutputs slave bytes =>
    show ∃ s', (g.setOutputs slave bytes).slave? k = some s' ∧ Restated s s'
    unfold setOutputs
    split
    next => exact ⟨s, hk, .refl s⟩
    next t hslave =>
      rw [slave?_setSlave_of_ne hslave (Ne.symm hr)]
      exact ⟨s, hk, .refl s⟩

/-- A request that is aside of a slave keeps all that its torque hangs on. -/
theorem answer_aside (r : Bus.Request) (hr : Aside k r) (hk : g.slave? k = some s) :
    ∃ s', (answer r g).2.slave? k = some s' ∧ Kept s s' := by
  obtain ⟨s', hs', hrestated⟩ := answer_restated r hr hk
  exact ⟨s', hs', hrestated.kept⟩

/-- A write changes the dictionary of its slave, as the answer tells. -/
theorem answer_sdoWrite (slave : UInt16) (a : Address) (data : Bytes)
    (hk : g.slave? k = some s) :
    (answer (.sdoWrite slave a data) g).2.slave? k = some { s with
      dictionary := s.dictionary.next k
        ⟨.sdoWrite slave a data, (answer (.sdoWrite slave a data) g).1⟩ } := by
  show (g.sdoWrite slave a data).2.slave? k = some { s with
    dictionary := s.dictionary.next k ⟨.sdoWrite slave a data, (g.sdoWrite slave a data).1⟩ }
  unfold sdoWrite
  dsimp only
  split
  next => exact hk
  next =>
    split
    next => exact hk
    next t hfound =>
      have hslave := find_eq_ok hfound
      by_cases hsame : k = slave
      · subst hsame
        cases hslave.symm.trans hk
        rw [← s.writeItem_eq k a data]
        exact slave?_setSlave_self hslave _
      · refine (slave?_setSlave_of_ne hslave hsame _).trans (hk.trans ?_)
        cases (t.writeItem slave a data).1 with
        | error fault => rfl
        | ok => simp [Dictionary.next, Ne.symm hsame]

/-- Outputs that are handed over replace those of the slave, as far as they have room. -/
theorem answer_setOutputs (bytes : Bytes) (hk : g.slave? k = some s) :
    (answer (.setOutputs k bytes) g).2.slave? k
      = some { s with outputs := Bytes.overwrite s.outputs bytes } := by
  show (g.setOutputs k bytes).slave? k = _
  unfold setOutputs
  rw [hk]
  exact slave?_setSlave_self hk _

/-- The image is laid out with zeros. -/
theorem answer_map (hk : g.slave? k = some s) :
    (answer .map g).2.slave? k = some (if g.discovered then s.mapImage else s) := by
  show (g.map).2.slave? k = _
  unfold map
  cases g.discovered with
  | false => exact hk
  | true => exact slave?_map hk Slave.mapImage

/-- No image is laid out before the slaves are found. -/
theorem discovered_of_map {image : Bus.ImageMap} {g' : Segment}
    (h : answer .map g = (.ok image, g')) : g.discovered = true := by
  have hmap : g.map = (.ok image, g') := h
  unfold map at hmap
  by_cases hdiscovered : g.discovered = true
  · exact hdiscovered
  · rw [if_pos (by simp [hdiscovered])] at hmap
    cases hmap

/-- Once the slaves are found, the image can always be laid out. -/
theorem answer_map_ok (h : g.discovered = true) : ∃ image g', answer .map g = (.ok image, g') := by
  show ∃ image g', g.map = (.ok image, g')
  unfold map
  rw [if_neg (by simp [h])]
  exact ⟨_, _, rfl⟩

/-- The size of a slave's image is reported. -/
theorem image_of_map {image : Bus.ImageMap} {g' : Segment}
    (h : answer .map g = (.ok image, g')) (hk : g.slave? k = some s) :
    image.slave? k = some s.image := by
  have hdiscovered := discovered_of_map h
  have hmap : g.map = (.ok image, g') := h
  unfold map at hmap
  rw [if_neg (by simp [hdiscovered])] at hmap
  cases hmap
  exact slave?_map hk Slave.image

/-- An exchange is one of each slave, if the image is laid out, and nothing otherwise. -/
theorem answer_exchange (hk : g.slave? k = some s) :
    (answer .exchange g).2.slave? k = some (if g.mapped then s.exchange.1 else s) := by
  have hall : Bus.ofSlave? ((g.slaves.map Slave.exchange).map Prod.fst) k
      = some s.exchange.1 := by
    rw [List.map_map]
    exact slave?_map hk (Prod.fst ∘ Slave.exchange)
  show (g.exchange).2.slave? k = _
  unfold exchange
  by_cases hmapped : g.mapped = true
  · rw [if_neg (by simp [hmapped]), if_pos hmapped]
    dsimp only
    split <;> exact hall
  · rw [if_pos (by simp [hmapped]), if_neg hmapped]
    exact hk

/-- The outputs that are found are those of the slave. -/
theorem answer_outputs (hk : g.slave? k = some s) : (answer (.outputs k) g).1 = s.outputs := by
  show g.outputs k = s.outputs
  unfold outputs
  rw [hk]
  rfl

/-- No torque is applied but by an exchange. -/
theorem answer_applied (r : Bus.Request) (hr : r ≠ .exchange) (hk : g.slave? k = some s) :
    ∃ s', (answer r g).2.slave? k = some s' ∧ s'.appliedTorque = s.appliedTorque := by
  by_cases haside : Aside k r
  · obtain ⟨s', hs', hkept⟩ := answer_aside r haside hk
    exact ⟨s', hs', hkept.torque⟩
  · cases r with
    | exchange => exact absurd rfl hr
    | map =>
      refine ⟨_, answer_map hk, ?_⟩
      split <;> rfl
    | sdoWrite slave a data =>
      exact ⟨_, answer_sdoWrite slave a data hk, rfl⟩
    | setOutputs slave bytes =>
      obtain rfl : slave = k := Decidable.not_not.1 haside
      exact ⟨_, answer_setOutputs bytes hk, rfl⟩
    | _ => exact absurd trivial haside

-- ========================================================== dictionaries

/-- What is read of a slave is what its dictionary holds. -/
theorem answer_sdoRead (slave : UInt16) (a : Address) (capacity : Nat)
    (hk : g.slave? k = some s) :
    Dictionary.TellsTruly k s.dictionary
      ⟨.sdoRead slave a capacity, (answer (.sdoRead slave a capacity) g).1⟩ := by
  show Dictionary.TellsTruly k s.dictionary
    ⟨.sdoRead slave a capacity, (g.sdoRead slave a capacity).1⟩
  unfold sdoRead
  split
  next => trivial
  next data hdata =>
    intro hslave hindex
    subst hslave
    cases hfind : g.find slave with
    | error fault =>
      rw [hfind] at hdata
      cases hdata
    | ok t =>
      cases (find_eq_ok hfind).symm.trans hk
      rw [hfind] at hdata
      change s.readItem slave a = .ok data at hdata
      unfold Slave.readItem at hdata
      split at hdata
      next => cases hdata
      next =>
        split at hdata
        next item hitem =>
          cases hdata
          exact ⟨_, hitem, rfl⟩
        next => cases hdata

/-- A segment tells the dictionaries of its slaves truly, and changes them by the
writes that it takes. -/
theorem answer_dictionary (r : Bus.Request) (hk : g.slave? k = some s) :
    Dictionary.TellsTruly k s.dictionary ⟨r, (answer r g).1⟩
      ∧ ∃ s', (answer r g).2.slave? k = some s'
        ∧ s'.dictionary = s.dictionary.next k ⟨r, (answer r g).1⟩ := by
  by_cases haside : Aside k r
  · obtain ⟨s', hs', hkept⟩ := answer_aside r haside hk
    cases r with
    | sdoRead slave a capacity =>
      exact ⟨answer_sdoRead slave a capacity hk, s', hs', hkept.dictionary⟩
    | map | exchange | sdoWrite => exact haside.elim
    | _ => exact ⟨trivial, s', hs', hkept.dictionary⟩
  · cases r with
    | map =>
      refine ⟨trivial, _, answer_map hk, ?_⟩
      split <;> rfl
    | exchange =>
      refine ⟨trivial, _, answer_exchange hk, ?_⟩
      split
      next => exact s.exchange_kept.1
      next => rfl
    | sdoWrite slave a data =>
      exact ⟨trivial, _, answer_sdoWrite slave a data hk, rfl⟩
    | setOutputs slave bytes =>
      obtain rfl : slave = k := Decidable.not_not.1 haside
      exact ⟨trivial, _, answer_setOutputs bytes hk, rfl⟩
    | _ => exact absurd trivial haside

-- ============================================================== traces

/-- Whatever happened beside the requests, it kept what the torque of a slave hangs
on. -/
def Beside (k : UInt16) (g g' : Segment) : Prop :=
  ∀ s, g.slave? k = some s → ∃ s', g'.slave? k = some s' ∧ Kept s s'

theorem Beside.refl (g : Segment) : Beside k g g := fun s hk => ⟨s, hk, .refl s⟩

/-- From one segment to another by the requests of a trace, with the answers there. -/
inductive Follows (k : UInt16) : Segment → Bus.interface.Trace → Segment → Prop
  | nil {g g' : Segment} : Beside k g g' → Follows k g [] g'
  | request {g g₁ g₂ g' : Segment} {r : Bus.Request} {a : r.Answer} {t : Bus.interface.Trace} :
      Beside k g g₁ → answer r g₁ = (a, g₂) → Follows k g₂ t g' → Follows k g (⟨r, a⟩ :: t) g'

variable {g' g'' : Segment} {t u : Bus.interface.Trace}

theorem Beside.trans (h : Beside k g g') (h' : Beside k g' g'') : Beside k g g'' := by
  intro s hk
  obtain ⟨s', hs', hkept⟩ := h s hk
  obtain ⟨s'', hs'', hkept'⟩ := h' s' hs'
  exact ⟨s'', hs'', hkept.trans hkept'⟩

/-- A trace may begin with anything that keeps as much. -/
theorem Follows.beside (h : Beside k g g') (h' : Follows k g' t g'') : Follows k g t g'' := by
  cases h' with
  | nil hbeside => exact .nil (h.trans hbeside)
  | request hbeside hanswer hrest => exact .request (h.trans hbeside) hanswer hrest

/-- A segment answers two traces in a row by passing through a segment between them. -/
theorem follows_append_iff :
    Follows k g (t ++ u) g' ↔ ∃ g₁, Follows k g t g₁ ∧ Follows k g₁ u g' := by
  induction t generalizing g with
  | nil =>
    constructor
    · intro h
      exact ⟨g, .nil (.refl g), h⟩
    · intro h
      obtain ⟨g₁, ht, hu⟩ := h
      cases ht with
      | nil hbeside => exact hu.beside hbeside
  | cons e t ih =>
    constructor
    · intro h
      cases h with
      | request hbeside hanswer hrest =>
        obtain ⟨g₁, ht, hu⟩ := ih.1 hrest
        exact ⟨g₁, .request hbeside hanswer ht, hu⟩
    · intro h
      obtain ⟨g₁, ht, hu⟩ := h
      cases ht with
      | request hbeside hanswer hrest =>
        exact .request hbeside hanswer (ih.2 ⟨g₁, hrest, hu⟩)

/-- A trace is followed up to a request, which is answered, and on from there. -/
theorem Follows.split {r : Bus.Request} {a : r.Answer} (h : Follows k g (t ++ ⟨r, a⟩ :: u) g') :
    ∃ g₁ g₂, Follows k g t g₁ ∧ answer r g₁ = (a, g₂) ∧ Follows k g₂ u g' := by
  obtain ⟨g₀, ht, hrest⟩ := follows_append_iff.1 h
  cases hrest with
  | request hbeside hanswer hu =>
    refine ⟨_, _, ?_, hanswer, hu⟩
    rw [← List.append_nil t]
    exact follows_append_iff.2 ⟨g₀, ht, .nil hbeside⟩

/-- The first request of a trace, at the slave as it is by then. -/
theorem Follows.peel {r : Bus.Request} {a : r.Answer} (h : Follows k g (⟨r, a⟩ :: t) g')
    (hk : g.slave? k = some s) :
    ∃ g₁ g₂ s₁, Kept s s₁ ∧ g₁.slave? k = some s₁ ∧ answer r g₁ = (a, g₂) ∧ Follows k g₂ t g' := by
  cases h with
  | request hbeside hanswer hrest =>
    obtain ⟨s₁, hs₁, hkept⟩ := hbeside s hk
    exact ⟨_, _, s₁, hkept, hs₁, hanswer, hrest⟩

/-- A program that the segment answers is followed. -/
theorem follows_record {α : Type} {p : BusProgram α} {g : Segment}
    {recorded : Bus.interface.Trace × α × Segment} (h : p.record answer g = recorded) :
    Follows k g recorded.1 recorded.2.2 := by
  induction p generalizing g recorded with
  | done value =>
    subst h
    exact .nil (.refl g)
  | request r resume ih =>
    subst h
    exact .request (.refl g) rfl (ih _ rfl)

/-- Along a trace that a segment answers its dictionaries are told, and become what
the trace says. -/
theorem Follows.dictionary (h : Follows k g t g') (hk : g.slave? k = some s) :
    s.dictionary.Told k t
      ∧ ∃ s', g'.slave? k = some s' ∧ s'.dictionary = s.dictionary.after k t := by
  induction h generalizing s with
  | nil hbeside =>
    obtain ⟨s', hs', hkept⟩ := hbeside s hk
    exact ⟨trivial, s', hs', hkept.dictionary⟩
  | @request _ _ _ _ r a _ hbeside hanswer _ ih =>
    obtain ⟨s₁, hs₁, hkept⟩ := hbeside s hk
    obtain ⟨htells, s₂, hs₂, hnext⟩ := answer_dictionary r hs₁
    rw [hanswer] at htells hs₂ hnext
    rw [hkept.dictionary] at htells hnext
    obtain ⟨htold, s', hs', hafter⟩ := ih hs₂
    rw [hnext] at htold hafter
    exact ⟨⟨htells, htold⟩, s', hs', hafter⟩

/-- Nothing is applied by a trace without exchanges. -/
theorem Follows.applied (h : Follows k g t g') (ht : ∀ e ∈ t, e.1 ≠ .exchange)
    (hk : g.slave? k = some s) :
    ∃ s', g'.slave? k = some s' ∧ s'.appliedTorque = s.appliedTorque := by
  induction h generalizing s with
  | nil hbeside =>
    obtain ⟨s', hs', hkept⟩ := hbeside s hk
    exact ⟨s', hs', hkept.torque⟩
  | @request _ _ _ _ r a _ hbeside hanswer _ ih =>
    obtain ⟨hr, hrest⟩ := List.forall_mem_cons.1 ht
    obtain ⟨s₁, hs₁, hkept⟩ := hbeside s hk
    obtain ⟨s₂, hs₂, hsame⟩ := answer_applied r hr hs₁
    rw [hanswer] at hs₂
    obtain ⟨s', hs', happlied⟩ := ih hrest hs₂
    exact ⟨s', hs', happlied.trans (hsame.trans hkept.torque)⟩

end Segment

end Servo.Simulation
