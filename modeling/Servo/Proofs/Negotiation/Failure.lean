/-
What a negotiation that fails leaves behind.

The items of a slave change by the writes that it takes, and by no others; its reads
can be answered by anything, and at any time by a fault. While the plan is carried
out the assignment is zero, so a write that is refused leaves the mapping disabled,
whichever it is. The last request is a read, though. By then the mapping is enabled
and assigned again, and a negotiation that fails there leaves it so
(`disabled_iff_of_failed`).
-/
import Servo.Proofs.Negotiation.Courses

namespace Servo.Negotiation

open Program
open Simulation (Dictionary)
open Simulation.Dictionary (Writes)

variable {k map : UInt16} {pdo : Pdo} {target : List Pdo.Entry} {capacity : Option Nat}
  {assignment : UInt8} {d : Dictionary} {t u looks : Bus.interface.Trace}
  {e : Bus.interface.Event}

-- ============================================================ the failure

/-- The number of entries was not read back as it was written. -/
def Error.IsUnverified : Error → Prop
  | failed _ step _ => step = .verify
  | unverified _ _ _ => True
  | tooLarge _ _ _ => False

theorem step_entryWrites {sub : UInt8} : ∀ w ∈ entryWrites map sub target, w.step ≠ .verify := by
  induction target generalizing sub with
  | nil => exact fun w hw => absurd hw List.not_mem_nil
  | cons value rest ih => exact List.forall_mem_cons.2 ⟨nofun, ih⟩

/-- Verifying is no write. -/
theorem step_plan : ∀ w ∈ plan pdo target assignment, w.step ≠ .verify := by
  unfold plan mappingWrites
  simp only [List.forall_mem_append, List.forall_mem_cons, List.not_mem_nil, false_implies,
    implies_true, and_true]
  exact ⟨⟨nofun, ⟨nofun, step_entryWrites⟩, nofun⟩, nofun⟩

/-- A mapping is disabled, or its assignment is. -/
def Disabled (d : Dictionary) (pdo : Pdo) : Prop :=
  d.byte ⟨pdo.index, 0⟩ = 0 ∨ d.byte ⟨pdo.assign, 0⟩ = 0

theorem disabled_plan_iff (hne : pdo.index ≠ pdo.assign) (hfew : target.length ≤ Pdo.maxEntries)
    (hassignment : assignment ≠ 0) :
    Disabled (written d (plan pdo target assignment)) pdo ↔ target = [] := by
  unfold Disabled
  rw [byte_map_plan d hne, byte_assign_plan]
  constructor
  · intro h
    rcases h with hcount | hzero
    · have hlength : target.length = 0 := by
        have hnat := congrArg UInt8.toNat hcount
        rwa [UInt8.toNat_ofNat_of_lt' (Nat.lt_of_le_of_lt hfew (by decide))] at hnat
      exact List.eq_nil_of_length_eq_zero hlength
    · exact absurd hzero hassignment
  · intro h
    subst h
    exact .inl rfl

/-- A negotiation that wrote something and failed leaves the mapping disabled or not
assigned, unless all was written and only the last read failed. An empty mapping is
disabled even then. -/
theorem disabled_iff_of_failed {error : Error} (hne : pdo.index ≠ pdo.assign)
    (h : Runs (negotiate k pdo target capacity) t (.error error))
    (htaken : ∃ a data, ⟨.sdoWrite k a data, .ok ()⟩ ∈ t) :
    Disabled (d.after k t) pdo ↔ target = [] ∨ ¬ error.IsUnverified := by
  obtain ⟨a, data, hmem⟩ := htaken
  have hcourse := runs_negotiate_iff.1 h
  generalize hr : (.error error : Except Error Outcome) = r at hcourse
  cases hcourse with
  | tooLarge => exact absurd hmem List.not_mem_nil
  | unchanged => cases hr
  | @rewritten looks u e found r hfits hdiffers hread hrewritten =>
    have hfew : target.length ≤ Pdo.maxEntries := Nat.not_lt.1 fun hmany => hfits (.inl hmany)
    rw [after_rewriting hdiffers hread]
    cases hrewritten with
    | @refused done rest w fault hplan =>
      cases hr
      have hw : w ∈ plan pdo target (restored found) := by
        rw [hplan]
        exact List.mem_append_right _ List.mem_cons_self
      -- a write that was taken stands in the plan, since the looks do not write
      have hsome : done ≠ [] := by
        rintro rfl
        have hlooks := (only_isCurrent (P := Writes fun _ => False) fun _ _ => trivial).of_runs
          (runs_isCurrent_iff.2 (.inr ⟨rfl, hdiffers⟩))
        rcases List.mem_append.1 hmem with hmem | hmem
        · exact hlooks _ hmem
        · rcases List.mem_cons.1 hmem with rfl | hmem
          · cases hread
          · cases List.mem_singleton.1 hmem
      rw [after_refused]
      exact ⟨fun _ => .inr (step_plan w hw), fun _ => .inr (byte_assign_of_refused hne hplan hsome)⟩
    | carried hverified =>
      rw [after_carried hverified, disabled_plan_iff hne hfew (restored_ne_zero found)]
      cases hverified with
      | same => cases hr
      | other => cases hr; simp [Error.IsUnverified]
      | unread => cases hr; simp [Error.IsUnverified]

/-- A drive gets its first mapping, and does not answer when it is asked for the number
of entries in the end. -/
def unansweredTrace : Bus.interface.Trace :=
  [⟨.sdoRead 1 ⟨0x1600, 0⟩ 1, .ok [0]⟩, ⟨.sdoRead 1 ⟨0x1c12, 0⟩ 1, .ok [1]⟩,
   ⟨.sdoWrite 1 ⟨0x1c12, 0⟩ [0], .ok ()⟩, ⟨.sdoWrite 1 ⟨0x1600, 0⟩ [0], .ok ()⟩,
   ⟨.sdoWrite 1 ⟨0x1600, 1⟩ [0x10, 0, 0x40, 0x60], .ok ()⟩,
   ⟨.sdoWrite 1 ⟨0x1600, 0⟩ [1], .ok ()⟩, ⟨.sdoWrite 1 ⟨0x1c12, 0⟩ [1], .ok ()⟩,
   ⟨.sdoRead 1 ⟨0x1600, 0⟩ 1, .error (.timeout "no reply")⟩]

theorem unansweredTrace_runs :
    Runs (negotiate 1 .receive [.ofObject DataObject.Standard.controlword] none) unansweredTrace
      (.error (.failed 0x1600 .verify (.timeout "no reply"))) :=
  Runs.of_replay rfl

/-- The mapping is enabled and assigned then. -/
theorem disabled_iff_of_failed_unanswered :
    (Disabled (Dictionary.initial.after 1 unansweredTrace) .receive
        ↔ [Pdo.Entry.ofObject DataObject.Standard.controlword] = []
          ∨ ¬ (Error.failed 0x1600 .verify (.timeout "no reply")).IsUnverified)
      ∧ ¬ Disabled (Dictionary.initial.after 1 unansweredTrace) .receive := by
  have hiff := disabled_iff_of_failed (d := Dictionary.initial) (by decide) unansweredTrace_runs
    ⟨⟨0x1c12, 0⟩, [0], by simp [unansweredTrace]⟩
  exact ⟨hiff, fun h => by simpa [Error.IsUnverified] using hiff.1 h⟩

/-- Not every failure after the first write leaves the mapping disabled. -/
theorem not_disabled_of_failed : ¬ ∀ (k : UInt16) (pdo : Pdo) (target : List Pdo.Entry)
    (capacity : Option Nat) (d : Dictionary) (t : Bus.interface.Trace) (error : Error),
    pdo.index ≠ pdo.assign → Runs (negotiate k pdo target capacity) t (.error error) →
    (∃ a data, ⟨.sdoWrite k a data, .ok ()⟩ ∈ t) → Disabled (d.after k t) pdo := by
  intro h
  have hdisabled := h 1 .receive _ none .initial unansweredTrace _ (by decide) unansweredTrace_runs
    ⟨⟨0x1c12, 0⟩, [0], by simp [unansweredTrace]⟩
  revert hdisabled
  unfold Disabled
  decide

end Servo.Negotiation
