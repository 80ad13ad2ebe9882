/-
What a drive receives once it was brought up.

The stages of a bring-up write a lot of objects, but of those that say what the drive
receives only the negotiation does (`Course.exchanges`). So a drive that listed one
mapping has the configured one afterwards, if the report says that it was negotiated.
Otherwise it can also have its own still, or none.
-/
import Servo.Proofs.Bringup.Success
import Servo.Proofs.Negotiation

namespace Servo.Bringup

open Program
open Simulation (Dictionary)
open Simulation.Dictionary (Writes Elsewhere)
open Negotiation (Outcome)

variable {k : UInt16} {c : Config} {layout : Layout} {name : String} {report : Report}
  {pdo : Pdo} {target : List Pdo.Entry} {outcome : MappingOutcome} {d d' : Dictionary} {t : Trace}

/-- From one dictionary to another, a mapping was asked for: the drive has it, or it
was not negotiated, and the drive has its own or none. -/
def Given (pdo : Pdo) (target : List Pdo.Entry) (outcome : MappingOutcome) (d d' : Dictionary) :
    Prop :=
  d'.Exchanges pdo target
    ∨ (∀ result : Outcome, outcome ≠ .negotiated result)
      ∧ (d'.Exchanges pdo (d.mapping pdo.index) ∨ d'.Exchanges pdo [])

/-- Transactions on other objects change nothing of it. -/
theorem Given.after (h : Given pdo target outcome d d')
    (hother : ∀ e ∈ t, Elsewhere pdo e.1) : Given pdo target outcome d (d'.after k t) := by
  rcases h with h | ⟨hfailed, h | h⟩
  · exact .inl (h.after hother)
  · exact .inr ⟨hfailed, .inl (h.after hother)⟩
  · exact .inr ⟨hfailed, .inr (h.after hother)⟩

theorem negotiateOne_given (hne : pdo.index ≠ pdo.assign) (hindex : pdo.index ≠ 0x6061)
    (hassign : pdo.assign ≠ 0x6061) (hlists : d.Lists pdo) (hone : d.byte ⟨pdo.assign, 0⟩ = 1)
    (htold : d.Told k t) (h : Runs (negotiateOne k pdo target) t outcome) :
    Given pdo target outcome d (d.after k t) := by
  unfold negotiateOne at h
  obtain ⟨u, result, v, rfl, hnegotiate, h⟩ := runs_bind_iff.1 h
  obtain ⟨v, described, w, rfl, hdescribe, h⟩ := runs_bind_iff.1 h
  have hdescribed : (d.after k u).after k v = d.after k u :=
    Negotiation.after_of_reads (Negotiation.only_describe fun _ _ => trivial) hdescribe
  have hgiven := Negotiation.negotiate_exchanges hne hindex hassign hlists hone
    (Dictionary.told_append.1 htold).1 hnegotiate
  rw [Dictionary.after_append, Dictionary.after_append, hdescribed]
  cases result with
  | ok result =>
    obtain ⟨rfl, rfl⟩ := runs_pure_iff.1 h
    rcases hgiven with hgiven | ⟨⟨e, hfailed⟩, -⟩
    · exact .inl hgiven
    · cases hfailed
  | error e =>
    obtain ⟨rfl, rfl⟩ := runs_pure_iff.1 h
    rcases hgiven with hgiven | ⟨-, hgiven⟩
    · exact .inl hgiven
    · exact .inr ⟨nofun, hgiven⟩

theorem negotiateMappings_given {rx tx : MappingOutcome} (hrx : c.mapping.rxPdo = .receive)
    (htx : c.mapping.txPdo = .transmit) (hlists : d.Lists .receive)
    (hone : d.byte ⟨Pdo.receive.assign, 0⟩ = 1) (htold : d.Told c.slave t)
    (h : Runs (negotiateMappings c) t (rx, tx)) :
    Given .receive c.rxMapping rx d (d.after c.slave t) := by
  have hown : d.Exchanges .receive (d.mapping Pdo.receive.index) := ⟨hlists, .inl ⟨hone, rfl⟩⟩
  unfold negotiateMappings at h
  split at h
  next =>
    obtain ⟨rfl, hkept⟩ := runs_pure_iff.1 h
    cases hkept
    exact .inr ⟨nofun, .inl hown⟩
  next =>
    obtain ⟨u, answer, v, rfl, hread, h⟩ := runs_bind_iff.1 h
    obtain ⟨-, htold⟩ := Dictionary.told_append.1 htold
    have hquiet : d.after c.slave u = d :=
      Negotiation.after_of_reads (DataObject.only_read fun _ _ => trivial) hread
    rw [hquiet] at htold
    rw [Dictionary.after_append, hquiet]
    cases answer with
    | error fault =>
      obtain ⟨rfl, hkept⟩ := runs_pure_iff.1 h
      cases hkept
      exact .inr ⟨nofun, .inl hown⟩
    | ok =>
      obtain ⟨v, rx', w, rfl, hreceive, h⟩ := runs_bind_iff.1 h
      obtain ⟨w, tx', x, rfl, htransmit, h⟩ := runs_bind_iff.1 h
      obtain ⟨rfl, hboth⟩ := runs_pure_iff.1 h
      cases hboth
      rw [hrx] at hreceive
      rw [htx] at htransmit
      have hgiven := negotiateOne_given (by decide) (by decide) (by decide) hlists hone
        (Dictionary.told_append.1 htold).1 hreceive
      have hother (index : UInt16) (h : index ≠ Pdo.receive.index ∧ index ≠ Pdo.receive.assign) :
          WritesTo (Elsewhere .receive) c.slave index := fun _ _ => h
      have htransmitted : (negotiateOne c.slave .transmit c.txMapping).Only _ :=
        only_negotiateOne (fun _ _ => trivial) (hother Pdo.transmit.index (by decide))
          (hother Pdo.transmit.assign (by decide))
      rw [Dictionary.after_append, List.append_nil]
      exact hgiven.after (htransmitted.of_runs htransmit)

-- ========================================================== the bring-up

/-- The parameters of a drive have nothing to do with what it receives. -/
theorem optionalParameters_elsewhere (p : DriveParameters) :
    ∀ parameter ∈ optionalParameters p,
      parameter.address.index ≠ Pdo.receive.index ∧ parameter.address.index ≠ Pdo.receive.assign := by
  unfold optionalParameters Parameter.ofObject
  simp only [List.forall_mem_cons, List.not_mem_nil, false_implies, implies_true, and_true]
  decide

/-- Before the mappings are negotiated, nothing is written that says what the drive
receives. -/
theorem Course.parameters_elsewhere (course : Course c layout name report) :
    ∀ e ∈ course.parameters, Elsewhere .receive e.1 := by
  have hwrites : ∀ e ∈ course.writes, Elsewhere .receive e.1 := by
    refine forall_of_requests fun r hr => ?_
    rw [course.writes_requests] at hr
    obtain ⟨parameter, hparameter, rfl⟩ := List.mem_map.1 hr
    exact optionalParameters_elsewhere c.parameters parameter hparameter
  have hmode : Elsewhere .receive (.sdoWrite c.slave DataObject.Standard.modeOfOperation.address
      (Packed.bytes OperationMode.torqueProfile)) :=
    show _ ∧ _ by decide
  unfold Course.parameters
  exact List.forall_mem_cons.2 ⟨hmode, List.forall_mem_append.2
    ⟨hwrites, List.forall_mem_singleton.2 trivial⟩⟩

theorem writes_of_part {P : Address → Prop} {r : Bus.Request} (h : r.part ≠ .dictionary) :
    Writes P r := by
  cases r with
  | sdoWrite => exact absurd rfl h
  | _ => trivial

/-- What the drive receives after the configuration is a matter of the negotiation. -/
theorem Course.given (course : Course c layout name report) (hrx : c.mapping.rxPdo = .receive)
    (htx : c.mapping.txPdo = .transmit) (hlists : d.Lists .receive)
    (hone : d.byte ⟨Pdo.receive.assign, 0⟩ = 1) (htold : d.Told c.slave course.configured) :
    Given .receive c.rxMapping report.rx d (d.after c.slave course.configured) := by
  have hstates {target : AlState} {u : Trace}
      (hu : Brought c.timing target (slavesOf report.slaves) u) :
      ∀ e ∈ u, Elsewhere .receive e.1 :=
    fun e he => writes_of_part (by rw [hu.states e he]; decide)
  have hearlier : ∀ e ∈ [⟨.init name, .ok ()⟩, ⟨.discover, .ok report.slaves⟩]
        ++ course.toInit ++ course.toPreOperational ++ course.parameters,
      Elsewhere .receive e.1 := by
    simp only [List.forall_mem_append]
    refine ⟨⟨⟨?_, hstates course.toInit_brought⟩, hstates course.toPreOperational_brought⟩,
      course.parameters_elsewhere⟩
    exact List.forall_mem_cons.2 ⟨trivial, List.forall_mem_singleton.2 trivial⟩
  unfold Course.configured at htold ⊢
  rw [Dictionary.told_append, Dictionary.told_append] at htold
  obtain ⟨⟨-, htold⟩, -⟩ := htold
  rw [Dictionary.after_append, Dictionary.after_append]
  have hkept (a : Address) (ha : a.index = Pdo.receive.index ∨ a.index = Pdo.receive.assign) :=
    Dictionary.get?_after_elsewhere (d := d) (k := c.slave) hearlier ha
  have hgiven := negotiateMappings_given hrx htx (hlists.congr (hkept _ (.inr rfl)))
    ((Dictionary.byte_congr (hkept _ (.inr rfl))).trans hone) htold course.mappings_runs
  unfold Given at hgiven ⊢
  rw [Dictionary.mapping_congr fun a ha => hkept a (.inl ha)] at hgiven
  exact hgiven

/-- What the drive receives in the end: what was asked for or, if that was not
negotiated, what drives receive by default, or nothing. -/
def Received (c : Config) (report : Report) (mapping : List Pdo.Entry) : Prop :=
  mapping = c.rxMapping
    ∨ (∀ result : Outcome, report.rx ≠ .negotiated result)
      ∧ (mapping = Pdo.defaultReceive ∨ mapping = [])

theorem initial_lists : Dictionary.initial.Lists .receive := ⟨_, rfl, rfl⟩

/-- A new drive. -/
theorem Course.received (course : Course c layout name report) (hrx : c.mapping.rxPdo = .receive)
    (htx : c.mapping.txPdo = .transmit)
    (htold : Dictionary.initial.Told c.slave course.configured) :
    Received c report
      ((Dictionary.initial.after c.slave course.configured).assigned Pdo.receive.assign) := by
  rcases course.given hrx htx initial_lists rfl htold with h | ⟨hfailed, h | h⟩
  · exact .inl h.assigned
  · exact .inr ⟨hfailed, .inl h.assigned⟩
  · exact .inr ⟨hfailed, .inr h.assigned⟩

end Servo.Bringup
