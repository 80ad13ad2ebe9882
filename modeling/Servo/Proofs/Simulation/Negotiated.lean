/-
What a simulated slave exchanges once a mapping was negotiated.

Transactions change nothing of a slave but its dictionary (`record_transactions`), and
the segment answers its reads from there. So a mapping that was rewritten is the wanted
one in the end, and it is assigned: a disabled assignment is taken for one of this
object alone.

# An assignment that is overlooked

A mapping that is there already is not written, and then nobody looks at its
assignment. A slave with the wanted mapping and a disabled assignment is left as it
is: that is how a negotiation leaves it which fails at its last write, and negotiating
again does not help. There is no other way to succeed without the mapping being
exchanged (`active_iff_of_negotiated`).
-/
import Servo.Proofs.Negotiation.Courses
import Servo.Proofs.Simulation.Segment

namespace Servo

open Program

-- =========================================================== transactions

namespace Simulation.Segment

variable {α : Type} {k : UInt16} {g : Segment} {s : Slave}

/-- A transaction that failed. -/
def IsFault : Bus.interface.Event → Prop
  | ⟨.sdoRead _ _ _, .error _⟩ | ⟨.sdoWrite _ _ _, .error _⟩ => True
  | _ => False

theorem find_undiscovered (h : g.discovered = false) (j : UInt16) :
    g.find j = .error (.master "slaves not discovered") := by
  unfold find
  rw [h]
  rfl

theorem answer_transaction {r : Bus.Request} (hr : r.part = .dictionary)
    (hk : g.slave? k = some s) :
    (answer r g).2.slave? k = some { s with
        dictionary := s.dictionary.next k ⟨r, (answer r g).1⟩ }
      ∧ (answer r g).2.discovered = g.discovered
      ∧ (g.discovered = false → IsFault ⟨r, (answer r g).1⟩) := by
  cases r with
  | sdoRead slave a capacity =>
    show (g.sdoRead slave a capacity).2.slave? k = some s
      ∧ (g.sdoRead slave a capacity).2.discovered = g.discovered
      ∧ (g.discovered = false → IsFault ⟨.sdoRead slave a capacity, (g.sdoRead slave a capacity).1⟩)
    refine ⟨?_, ?_, fun hnone => ?_⟩
    · unfold sdoRead
      split <;> exact hk
    · unfold sdoRead
      split <;> rfl
    · unfold sdoRead
      rw [find_undiscovered hnone]
      trivial
  | sdoWrite slave a data =>
    refine ⟨answer_sdoWrite slave a data hk, ?_, fun hnone => ?_⟩
    · show (g.sdoWrite slave a data).2.discovered = g.discovered
      unfold sdoWrite
      dsimp only
      split
      next => rfl
      next => split <;> rfl
    · show IsFault ⟨.sdoWrite slave a data, (g.sdoWrite slave a data).1⟩
      unfold sdoWrite
      dsimp only
      split
      next => trivial
      next =>
        have hfind := find_undiscovered (g := { g with
          transactions := g.transactions ++ [⟨slave, a, data, true⟩] }) hnone slave
        rw [hfind]
        trivial
  | _ => cases hr

/-- A program that makes transactions only changes nothing of a slave but its
dictionary; and it makes none that succeeds before the slaves are found. -/
theorem record_transactions {p : BusProgram α} (hp : Bus.Within .dictionary p)
    (hk : g.slave? k = some s) {recorded : Bus.interface.Trace × α × Segment}
    (h : p.record answer g = recorded) :
    recorded.2.2.slave? k = some { s with dictionary := s.dictionary.after k recorded.1 }
      ∧ recorded.2.2.discovered = g.discovered
      ∧ (g.discovered = false → ∀ e ∈ recorded.1, IsFault e) := by
  subst h
  induction p generalizing g s with
  | done value => exact ⟨hk, rfl, fun _ _ he => absurd he List.not_mem_nil⟩
  | request r resume ih =>
    obtain ⟨hslave, hdiscovered, hfault⟩ := answer_transaction hp.1 hk
    obtain ⟨hslave', hdiscovered', hfaults⟩ := ih (answer r g).1 (hp.2 _) hslave
    refine ⟨hslave', hdiscovered'.trans hdiscovered, fun hnone => ?_⟩
    exact List.forall_mem_cons.2 ⟨hfault hnone, hfaults (hdiscovered.trans hnone)⟩

end Simulation.Segment

open Simulation (Segment Slave Dictionary)

-- ============================================================ assignments

namespace Negotiation

variable {k : UInt16} {pdo : Pdo} {target : List Pdo.Entry} {capacity : Option Nat}
  {assignment : UInt8} {outcome : Outcome} {d : Dictionary} {t : Bus.interface.Trace}
  {e : Bus.interface.Event}

/-- What was read of the assignment is restored, where it was read and not null. -/
theorem restored_told {found : Except Bus.Fault UInt8}
    (hread : ReadsAs k (count pdo.assign) e found) (htold : d.Told k [e])
    (hassign : pdo.assign ≠ 0x6061) :
    restored found = 1 ∨ restored found = d.byte ⟨pdo.assign, 0⟩ := by
  cases found with
  | error fault => exact .inl rfl
  | ok found =>
    have hfound := read_count (runs_count_iff.2 ⟨e, rfl, hread⟩) htold hassign
    unfold restored
    dsimp only
    split
    next => exact .inl rfl
    next => exact .inr hfound

/-- The plan leaves other places of the assignment alone. -/
theorem only_plan (hne : pdo.index ≠ pdo.assign) (honly : d.ListsOnly pdo)
    (hassignment : assignment = 1 ∨ assignment = d.byte ⟨pdo.assign, 0⟩) :
    (written d (plan pdo target assignment)).ListsOnly pdo := by
  have hlists : (written d (plan pdo target assignment)).Lists pdo :=
    lists_written hne honly.first fun _ hw => hw
  rcases hassignment with rfl | hsame
  · refine hlists.only_of_le_one ?_
    rw [byte_assign_plan]
    decide
  · refine ⟨hlists, fun i htwo hi => ?_⟩
    rw [byte_assign_plan, hsame] at hi
    have hsub : (⟨pdo.assign, .ofNat i⟩ : Address) ≠ ⟨pdo.assign, 0⟩ :=
      subindex_ne (n := 0) (by omega) (Nat.lt_of_le_of_lt hi (UInt8.toNat_lt _))
    rw [get?_written_of_plan (fun _ hw => hw) hne.symm hsub]
    exact honly.others i htwo hi

/-- After a negotiation that succeeded the mapping is the wanted one. It is assigned
as well, or nothing was written. -/
theorem dictionary_of_negotiated (hne : pdo.index ≠ pdo.assign) (hindex : pdo.index ≠ 0x6061)
    (hassign : pdo.assign ≠ 0x6061) (honly : d.ListsOnly pdo) (htold : d.Told k t)
    (h : Runs (negotiate k pdo target capacity) t (.ok outcome)) :
    (d.after k t).mapping pdo.index = target ∧ (d.after k t).ListsOnly pdo
      ∧ (outcome = .unchanged ∧ d.after k t = d
        ∨ outcome = .applied ∧ (d.after k t).byte ⟨pdo.assign, 0⟩ ≠ 0) := by
  have hcourse := runs_negotiate_iff.1 h
  generalize hr : (.ok outcome : Except Error Outcome) = r at hcourse
  cases hcourse with
  | tooLarge => cases hr
  | unchanged hfits hholds =>
    cases hr
    have hfew : target.length ≤ Pdo.maxEntries := Nat.not_lt.1 fun hmany => hfits (.inl hmany)
    have hcurrent := runs_isCurrent_iff.2 (.inl ⟨rfl, hholds⟩)
    rw [hholds.after]
    exact ⟨isCurrent_told hcurrent htold hindex hfew, honly, .inl ⟨rfl, rfl⟩⟩
  | @rewritten looks u e found r hfits hdiffers hread hrewritten =>
    have hfew : target.length ≤ Pdo.maxEntries := Nat.not_lt.1 fun hmany => hfits (.inl hmany)
    cases r with
    | error => cases hr
    | ok =>
      cases hr
      obtain ⟨e', rfl, he'⟩ : ∃ e',
          u = (plan pdo target (restored found)).map (Write.taken k) ++ [e']
            ∧ Verified k pdo.index (.ofNat target.length) e' (.ok ()) := by
        cases hrewritten with
        | carried hverified => exact ⟨_, rfl, hverified⟩
      have hearlier := (Dictionary.told_append.1 htold).2
      rw [hdiffers.after] at hearlier
      rw [after_rewriting hdiffers hread, after_carried he']
      refine ⟨mapping_plan d hne hfew, only_plan hne honly ?_, .inr ⟨rfl, ?_⟩⟩
      · exact restored_told hread ⟨hearlier.1, trivial⟩ hassign
      · rw [byte_assign_plan]
        exact restored_ne_zero found

/-- A negotiation that succeeded had an answer. -/
theorem exists_answered (h : Runs (negotiate k pdo target capacity) t (.ok outcome)) :
    ∃ e ∈ t, ¬ Segment.IsFault e := by
  have hcourse := runs_negotiate_iff.1 h
  generalize hr : (.ok outcome : Except Error Outcome) = r at hcourse
  cases hcourse with
  | tooLarge => cases hr
  | unchanged _ hholds =>
    cases hholds with
    | intro he _ => exact ⟨_, List.mem_cons_self, by cases he; exact id⟩
  | rewritten _ _ _ hrewritten =>
    cases hrewritten with
    | refused => cases hr
    | @carried e _ hverified =>
      have hlast (looks t : Bus.interface.Trace) (e' : Bus.interface.Event) :
          e ∈ looks ++ e' :: (t ++ [e]) := by simp
      cases hverified with
      | same he => exact ⟨e, hlast .., by cases he; exact id⟩
      | other => cases hr
      | unread => cases hr

-- ============================================================== exchanged

/-- How many bytes the image has for the direction of an object. -/
def bytesOf (pdo : Pdo) (image : Bus.SlaveImage) : Nat :=
  if pdo = .receive then image.outputBytes else image.inputBytes

/-- A mapping is assigned and exchanged, and the image is laid out for it, where its
size is not forced. -/
structure Active (pdo : Pdo) (target : List Pdo.Entry) (s : Slave) (image : Bus.SlaveImage) :
    Prop where
  assigned : s.dictionary.byte ⟨pdo.assign, 0⟩ ≠ 0
  exchanged : s.dictionary.assigned pdo.assign = target
  size : bytesOf pdo image
    = (s.imageOverride.map (bytesOf pdo)).getD ((Pdo.totalBits target + 7) / 8)

theorem active_image {s : Slave} (hpdo : pdo = .receive ∨ pdo = .transmit)
    (honly : s.dictionary.ListsOnly pdo) (hassigned : s.dictionary.byte ⟨pdo.assign, 0⟩ ≠ 0)
    (hmapping : s.dictionary.mapping pdo.index = target) : Active pdo target s s.image := by
  have hexchanged : s.dictionary.assigned pdo.assign = target :=
    (honly.assigned hassigned).trans hmapping
  refine ⟨hassigned, hexchanged, ?_⟩
  unfold Slave.image
  cases s.imageOverride with
  | some image => rfl
  | none =>
    rw [← hexchanged]
    rcases hpdo with rfl | rfl <;> rfl

/-- A negotiation that succeeded on a slave with this object alone, if any, in its
assignment: the process image can be laid out then, and the mapping is active unless
it was there already and its assignment was disabled. -/
theorem active_iff_of_negotiated {g g' : Segment} {s : Slave}
    (hpdo : pdo = .receive ∨ pdo = .transmit) (hk : g.slave? k = some s)
    (honly : s.dictionary.ListsOnly pdo)
    (h : (negotiate k pdo target capacity).record Segment.answer g = (t, .ok outcome, g')) :
    ∃ s' map image g'', g'.slave? k = some s' ∧ Segment.answer .map g' = (.ok map, g'')
      ∧ map.slave? k = some image
      ∧ (Active pdo target s' image
        ↔ ¬ (outcome = .unchanged ∧ s.dictionary.byte ⟨pdo.assign, 0⟩ = 0)) := by
  have hruns : Runs (negotiate k pdo target capacity) t (.ok outcome) := by
    have hrecord := runs_record Segment.answer (negotiate k pdo target capacity) g
    rwa [h] at hrecord
  have hwithin : Bus.Within .dictionary (negotiate k pdo target capacity) :=
    only_negotiate (fun _ _ => rfl) (fun _ _ => rfl) fun _ _ => rfl
  have htold := ((Segment.follows_record h).dictionary hk).1
  obtain ⟨hs', hdiscovered, hfaults⟩ := Segment.record_transactions hwithin hk h
  have hindex : pdo.index ≠ pdo.assign ∧ pdo.index ≠ 0x6061 ∧ pdo.assign ≠ 0x6061 := by
    rcases hpdo with rfl | rfl <;> decide
  obtain ⟨hmapping, honly', houtcome⟩ :=
    dictionary_of_negotiated hindex.1 hindex.2.1 hindex.2.2 honly htold hruns
  obtain ⟨map, g'', hmap⟩ : ∃ map g'', Segment.answer .map g' = (.ok map, g'') := by
    obtain ⟨e, he, hanswered⟩ := exists_answered hruns
    refine Segment.answer_map_ok (hdiscovered.trans ?_)
    exact Bool.of_not_eq_false fun hnone => hanswered (hfaults hnone e he)
  refine ⟨_, map, _, g'', hs', hmap, Segment.image_of_map hmap hs', ?_⟩
  constructor
  · intro hactive hoverlooked
    obtain ⟨rfl, hzero⟩ := hoverlooked
    rcases houtcome with ⟨-, hsame⟩ | ⟨happlied, -⟩
    · exact hactive.assigned ((congrArg (Dictionary.byte · _) hsame).trans hzero)
    · cases happlied
  · intro hseen
    refine active_image hpdo honly' ?_ hmapping
    rcases houtcome with ⟨hunchanged, hsame⟩ | ⟨-, hassigned⟩
    · intro hzero
      exact hseen ⟨hunchanged, (congrArg (Dictionary.byte · _) hsame).symm.trans hzero⟩
    · exact hassigned

/-- One drive that is as it was made, but that its receive mapping is not assigned. -/
def unassigned : Segment :=
  { slaves := [{
      al := .preOperational
      dictionary := Dictionary.initial.put ⟨Pdo.receive.assign, 0⟩ [0] }]
    discovered := true }

def unassignedRun : Bus.interface.Trace × Except Error Outcome × Segment :=
  (negotiate 1 .receive Pdo.defaultReceive none).record Segment.answer unassigned

theorem unassigned_only {s : Slave} (hk : unassigned.slave? 1 = some s) :
    s.dictionary.ListsOnly .receive := by
  cases hk
  exact Dictionary.Lists.only_of_le_one ⟨_, rfl, rfl⟩ (by decide)

/-- It has the mapping, and nobody sees that it does not exchange it. -/
theorem active_iff_of_negotiated_unassigned : ∃ s s' map image g'', unassigned.slave? 1 = some s
    ∧ unassignedRun.2.2.slave? 1 = some s'
    ∧ Segment.answer .map unassignedRun.2.2 = (.ok map, g'') ∧ map.slave? 1 = some image
    ∧ (Active .receive Pdo.defaultReceive s' image
      ↔ ¬ (Outcome.unchanged = .unchanged ∧ s.dictionary.byte ⟨Pdo.receive.assign, 0⟩ = 0))
    ∧ ¬ Active .receive Pdo.defaultReceive s' image := by
  have hrun : unassignedRun = (unassignedRun.1, .ok .unchanged, unassignedRun.2.2) := rfl
  obtain ⟨s', map, image, g'', hs', hmap, himage, hiff⟩ :=
    active_iff_of_negotiated (.inl rfl) rfl (unassigned_only rfl) hrun
  exact ⟨_, s', map, image, g'', rfl, hs', hmap, himage, hiff, fun h => hiff.1 h ⟨rfl, rfl⟩⟩

/-- Not every negotiation that succeeds leaves the mapping active. -/
theorem not_active_of_negotiated : ¬ ∀ (g g' : Segment) (k : UInt16) (s : Slave) (pdo : Pdo)
    (target : List Pdo.Entry) (capacity : Option Nat) (t : Bus.interface.Trace)
    (outcome : Outcome), pdo = .receive ∨ pdo = .transmit → g.slave? k = some s →
    s.al = .preOperational → s.dictionary.ListsOnly pdo → target.length ≤ 8 →
    (negotiate k pdo target capacity).record Segment.answer g = (t, .ok outcome, g') →
    ∃ s' map image g'', g'.slave? k = some s' ∧ Segment.answer .map g' = (.ok map, g'')
      ∧ map.slave? k = some image ∧ Active pdo target s' image := by
  intro h
  obtain ⟨s', map, image, g'', hs', -, -, hactive⟩ := h unassigned unassignedRun.2.2 1 _ .receive
    Pdo.defaultReceive none unassignedRun.1 .unchanged (.inl rfl) rfl rfl (unassigned_only rfl)
    (by decide) rfl
  cases hs'
  exact hactive.assigned rfl

end Negotiation

end Servo
